import TestJob.Toml.Written

/-!
Values written as one word: booleans, integers in four bases, floats, dates and times. Underscores
stand between digits, or between a sign and the first digit; a decimal number has no superfluous
zero in front. Two kinds of words are integers without a value, which is a fault only where the
value is looked at: the mark of a base alone, and a decimal integer that goes on with other
characters after its first underscore.
-/

namespace TestJob.Toml

/-- The value of a digit in a base up to sixteen. -/
def digitValue (c : Char) : Nat :=
  if c.isDigit then c.toNat - '0'.toNat
  else if 'a' ≤ c ∧ c ≤ 'f' then c.toNat - 'a'.toNat + 10
  else c.toNat - 'A'.toNat + 10

/-- Whether a character is a digit in a base up to sixteen. -/
def isDigitIn (base : Nat) (c : Char) : Bool :=
  (c.isDigit || ('a' ≤ c && c ≤ 'f') || ('A' ≤ c && c ≤ 'F')) && digitValue c < base

/-- Whether every underscore of a row stands between two digits. `inside` says that the row may
begin with one, if a digit follows. -/
def isSpaced (isDigit : Char → Bool) (inside : Bool) : List Char → Bool
  | [] => true
  | '_' :: rest => inside && rest.head?.any isDigit && isSpaced isDigit false rest
  | c :: rest => isSpaced isDigit (isDigit c) rest

/-- A row without its underscores. -/
def plain (cs : List Char) : List Char := cs.filter (· ≠ '_')

/-- The decimal digits of a row without its underscores, if it is one or more digits. -/
def digits? (inside : Bool) (cs : List Char) : Option (List Char) :=
  if isSpaced Char.isDigit inside cs ∧ plain cs ≠ [] ∧ (plain cs).all Char.isDigit then
    some (plain cs)
  else none

/-- The value of a row of digits in a base, if it is one or more digits. -/
def valueIn? (base : Nat) (cs : List Char) : Option Nat :=
  if cs ≠ [] ∧ cs.all (isDigitIn base) then
    some (cs.foldl (fun value c => base * value + digitValue c) 0)
  else none

/-- An integer in another base than ten, without the mark of the base. -/
def inBase? (base : Nat) (cs : List Char) : Option Written :=
  if isSpaced (isDigitIn base) false cs ∧ (plain cs).all (isDigitIn base) then
    some (.integer ((valueIn? base (plain cs)).map fun size => (size : Int)))
  else none

/-- What stands before the first character that `splits`, and what stands after it. -/
def splitOnce (splits : Char → Bool) (cs : List Char) : List Char × Option (List Char) :=
  match cs.dropWhile fun c => !splits c with
  | [] => (cs, none)
  | _ :: rest => (cs.takeWhile fun c => !splits c, some rest)

/-- The sign of a number. -/
inductive Sign where
  | absent
  | plus
  | minus
deriving DecidableEq

/-- The sign of a number, and the number without it. -/
def splitSign : List Char → Sign × List Char
  | '-' :: rest => (.minus, rest)
  | '+' :: rest => (.plus, rest)
  | rest => (.absent, rest)

/-- A size with a sign. -/
def Sign.apply (sign : Sign) (size : Nat) : Int := if sign = .minus then -size else size

/-- Whether a decimal number begins with a zero that it should not have. -/
def hasExtraZero (cs : List Char) : Bool := cs.head? = some '0' && cs.length ≠ 1

/-- A decimal integer after its sign. An underscore in it may also stand beside a letter that is a
digit in base sixteen, but then the integer has no value. -/
def integer? (sign : Sign) (cs : List Char) : Option Written :=
  let rest := cs.dropWhile Char.isDigit
  if cs ≠ [] ∧ (rest = [] ∨ rest.head? = some '_') ∧ !hasExtraZero cs ∧
      isSpaced (isDigitIn 16) (sign ≠ .absent) cs then
    some (.integer ((valueIn? 10 (plain cs)).map sign.apply))
  else none

/-- The digits of a fraction, none if there is none. -/
def fractionDigits? : Option (List Char) → Option (List Char)
  | none => some []
  | some cs => digits? false cs

/-- The value of an exponent, zero if there is none. -/
def exponentValue? : Option (List Char) → Option Int
  | none => some 0
  | some cs => do
    let (sign, cs) := splitSign cs
    return sign.apply (Decimal.ofDigits (← digits? false cs))

/-- A float after its sign, in its three parts. -/
def float? (sign : Sign) (whole : List Char) (fraction exponent : Option (List Char)) :
    Option Written := do
  let wholeDigits ← digits? (sign ≠ .absent) whole
  let fractionDigits ← fractionDigits? fraction
  let power ← exponentValue? exponent
  if hasExtraZero whole then none
  else
    let digits := Decimal.ofDigits (wholeDigits ++ fractionDigits)
    let value := Decimal.toBinary64? ⟨sign = .minus, digits, power - fractionDigits.length⟩
    return .float (value.map .finite)

/-- A decimal number after its sign: an integer, or a float if it has a fraction or an exponent. -/
def decimal? (sign : Sign) (cs : List Char) : Option Written :=
  let (mantissa, exponent) := splitOnce (fun c => c = 'e' || c = 'E') cs
  let (whole, fraction) := splitOnce (· = '.') mantissa
  if fraction.isNone ∧ exponent.isNone then integer? sign cs
  else float? sign whole fraction exponent

/-- A number. -/
def number? : List Char → Option Written
  | '0' :: 'x' :: digits => inBase? 16 digits
  | '0' :: 'o' :: digits => inBase? 8 digits
  | '0' :: 'b' :: digits => inBase? 2 digits
  | cs =>
    let (sign, size) := splitSign cs
    if size = ['i', 'n', 'f'] then some (.float (some (.infinite (sign = .minus))))
    else if size = ['n', 'a', 'n'] then some (.float (some .notANumber))
    else decimal? sign size

/-- The value of a word. -/
def scalar? (word : List Char) : Option Written :=
  if word = ['t', 'r', 'u', 'e'] then some (.boolean true)
  else if word = ['f', 'a', 'l', 's', 'e'] then some (.boolean false)
  else
    match number? word with
    | some value => some value
    | none => (Datetime.ofChars? word).map .datetime

end TestJob.Toml
