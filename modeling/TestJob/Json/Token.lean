import TestJob.Decimal.Binary64

/-!
The tokens of a JSON text. `Token.read?` runs an automaton over the characters, one step each, so
that reading a text and then another is one run (`List.foldlM_append`). It accepts any row of
tokens; which rows are values is the business of `TestJob.Json.Node`.
-/

namespace TestJob.Json

/-- A number as it is written: its value, and whether it is written as an integer, without a
fraction and an exponent. -/
structure Literal where
  value : Decimal
  integral : Bool
deriving DecidableEq

namespace Literal

/-- A row of digits and what follows it; `none` if there is no digit. -/
def digits? (cs : List Char) : Option (List Char × List Char) :=
  let digits := cs.takeWhile Char.isDigit
  if digits.isEmpty then none else some (digits, cs.dropWhile Char.isDigit)

/-- The digits after a point, none if there is no point. -/
def fraction? : List Char → Option (List Char × List Char)
  | '.' :: cs => digits? cs
  | cs => some ([], cs)

/-- The exponent after `e` or `E`, to the end of the number. -/
def exponent? : List Char → Option Int
  | [] => some 0
  | mark :: cs =>
    if mark = 'e' ∨ mark = 'E' then
      let (negative, cs) := match cs with
        | '-' :: rest => (true, rest)
        | '+' :: rest => (false, rest)
        | rest => (false, rest)
      match digits? cs with
      | some (digits, []) =>
        let size : Int := Decimal.ofDigits digits
        some (if negative then -size else size)
      | _ => none
    else none

/-- Reads a number: an optional minus, digits without a superfluous zero in front, and optionally
a fraction and an exponent. -/
def ofChars? (cs : List Char) : Option Literal :=
  let (negative, cs) := match cs with
    | '-' :: rest => (true, rest)
    | rest => (false, rest)
  match digits? cs with
  | none => none
  | some (whole, rest) =>
    if whole.head? = some '0' ∧ whole.length ≠ 1 then none
    else
      match fraction? rest with
      | none => none
      | some (fraction, rest') =>
        match exponent? rest' with
        | none => none
        | some exponent =>
          let value := Decimal.ofDigits (whole ++ fraction)
          some ⟨⟨negative, value, exponent - fraction.length⟩, rest.isEmpty⟩

end Literal

/-- A token. A text is `none` when it has an escape for half of a surrogate pair. -/
inductive Token where
  | beginArray
  | endArray
  | beginObject
  | endObject
  | colon
  | comma
  | null
  | bool (value : Bool)
  | number (literal : Literal)
  | text (value : Option String)
deriving DecidableEq

namespace Token

/-- The token that a word stands for. -/
def ofWord? (word : List Char) : Option Token :=
  if word = ['n', 'u', 'l', 'l'] then some null
  else if word = ['t', 'r', 'u', 'e'] then some (bool true)
  else if word = ['f', 'a', 'l', 's', 'e'] then some (bool false)
  else (Literal.ofChars? word).map number

/-- The token that a single character stands for. -/
def ofPunctuation? : Char → Option Token
  | '[' => some beginArray
  | ']' => some endArray
  | '{' => some beginObject
  | '}' => some endObject
  | ':' => some colon
  | ',' => some comma
  | _ => none

/-- The characters that may stand between tokens. -/
def isSpace (c : Char) : Bool := c = ' ' || c = '\n' || c = '\t' || c = '\r'

/-- A text that is being read: its characters, last first, whether half of a surrogate pair stood
alone in it, and the first half of a pair whose second half must come next. -/
structure Scan where
  read : List Char
  alone : Bool
  high : Option Nat
deriving DecidableEq

namespace Scan

/-- Reads a character; a half pair before it stands alone. -/
def push (s : Scan) (c : Char) : Scan := ⟨c :: s.read, s.alone || s.high.isSome, none⟩

/-- Reads an escaped unit of 16 bits. Two halves of a pair make one character. -/
def pushUnit (s : Scan) (unit : Nat) : Scan :=
  if 0xD800 ≤ unit ∧ unit < 0xDC00 then ⟨s.read, s.alone || s.high.isSome, some unit⟩
  else if 0xDC00 ≤ unit ∧ unit < 0xE000 then
    match s.high with
    | some high =>
      let code := 0x10000 + (high - 0xD800) * 0x400 + (unit - 0xDC00)
      ⟨Char.ofNat code :: s.read, s.alone, none⟩
    | none => ⟨s.read, true, none⟩
  else s.push (Char.ofNat unit)

/-- The token of the text, once its closing quote is read. -/
def close (s : Scan) : Token :=
  .text (if s.alone || s.high.isSome then none else some (String.ofList s.read.reverse))

end Scan

/-- Where the automaton is. -/
inductive Mode where
  | between
  | word (read : List Char)
  | text (scan : Scan)
  | escape (scan : Scan)
  | unit (scan : Scan) (left : Nat) (value : Nat)
deriving DecidableEq

/-- The tokens read, last first, and where the automaton is. -/
structure Lexer where
  tokens : List Token
  mode : Mode
deriving DecidableEq

/-- The value of a hexadecimal digit. -/
def hexDigit? (c : Char) : Option Nat :=
  if c.isDigit then some (c.toNat - '0'.toNat)
  else if 'a' ≤ c ∧ c ≤ 'f' then some (c.toNat - 'a'.toNat + 10)
  else if 'A' ≤ c ∧ c ≤ 'F' then some (c.toNat - 'A'.toNat + 10)
  else none

/-- The character that an escape of one letter stands for. -/
def ofEscape? : Char → Option Char
  | '"' => some '"'
  | '\\' => some '\\'
  | '/' => some '/'
  | 'b' => some '\x08'
  | 'f' => some '\x0c'
  | 'n' => some '\n'
  | 'r' => some '\r'
  | 't' => some '\t'
  | _ => none

/-- Reads a character between tokens. -/
def begin (tokens : List Token) (c : Char) : Lexer :=
  if isSpace c then ⟨tokens, .between⟩
  else
    match ofPunctuation? c with
    | some token => ⟨token :: tokens, .between⟩
    | none => if c = '"' then ⟨tokens, .text ⟨[], false, none⟩⟩ else ⟨tokens, .word [c]⟩

/-- Whether a character ends the word before it. -/
def endsWord (c : Char) : Bool := isSpace c || (ofPunctuation? c).isSome || c = '"'

/-- Reads one character. -/
def step (l : Lexer) (c : Char) : Option Lexer :=
  match l.mode with
  | .between => some (begin l.tokens c)
  | .word read =>
    if endsWord c then (ofWord? read.reverse).map fun token => begin (token :: l.tokens) c
    else some ⟨l.tokens, .word (c :: read)⟩
  | .text scan =>
    if c = '"' then some ⟨scan.close :: l.tokens, .between⟩
    else if c = '\\' then some ⟨l.tokens, .escape scan⟩
    else if c.toNat < 0x20 then none
    else some ⟨l.tokens, .text (scan.push c)⟩
  | .escape scan =>
    if c = 'u' then some ⟨l.tokens, .unit scan 3 0⟩
    else (ofEscape? c).map fun e => ⟨l.tokens, .text (scan.push e)⟩
  | .unit scan left value =>
    (hexDigit? c).map fun digit =>
      match left with
      | 0 => ⟨l.tokens, .text (scan.pushUnit (value * 16 + digit))⟩
      | left + 1 => ⟨l.tokens, .unit scan left (value * 16 + digit)⟩

/-- The tokens in order, once the characters are over. -/
def Lexer.finish? (l : Lexer) : Option (List Token) :=
  match l.mode with
  | .between => some l.tokens.reverse
  | .word read => (ofWord? read.reverse).map fun token => (token :: l.tokens).reverse
  | _ => none

/-- The tokens of a text, `none` where it is no row of tokens. -/
def read? (cs : List Char) : Option (List Token) := do
  (← cs.foldlM step ⟨[], .between⟩).finish?

end Token

end TestJob.Json
