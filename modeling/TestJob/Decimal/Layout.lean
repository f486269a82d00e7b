import TestJob.Decimal.Shortest

/-!
How a decimal is laid out as text: where positional notation ends, and what is done with whole
numbers, exponents and the sign of zero. Each way of writing numbers is one value of `Layout`.
-/

namespace TestJob

/-- The decisions of a way of writing floating-point numbers. -/
structure Layout where
  /-- The least power of ten of the first digit that is written positionally. -/
  leastPositional : Int
  /-- The first power of ten of the first digit that is no longer written positionally. -/
  endPositional : Int
  /-- Whether a whole number written positionally ends in `.0`. -/
  marksWhole : Bool
  /-- Whether a positive exponent has a sign. -/
  signsExponent : Bool
  /-- Whether the sign of zero is written. -/
  signsZero : Bool

namespace Layout

/-- The canonical form: `1`, `1e+21`, and zero without a sign. -/
def canonical : Layout := ⟨-6, 21, false, true, false⟩

/-- The form that keeps a float a float: `1.0`, `1e21`, `-0.0`. -/
def faithful : Layout := ⟨-5, 16, true, false, true⟩

/-- The digits of a natural number. -/
def digits (n : Nat) : List Char := Nat.toDigits 10 n

/-- The text of an exponent. -/
def exponentText (l : Layout) (e : Int) : List Char :=
  match e with
  | .ofNat n => (if l.signsExponent then ['e', '+'] else ['e']) ++ digits n
  | .negSucc n => ['e', '-'] ++ digits (n + 1)

/-- The text of `digits · 10 ^ exponent`, `digits` being positive. -/
def magnitude (l : Layout) (n : Nat) (exponent : Int) : List Char :=
  let ds := digits n
  let first := exponent + ds.length - 1
  if l.leastPositional ≤ first ∧ first < l.endPositional then
    match exponent with
    | .ofNat zeros =>
      ds ++ List.replicate zeros '0' ++ (if l.marksWhole then ['.', '0'] else [])
    | .negSucc _ =>
      match first with
      | .ofNat whole => ds.take (whole + 1) ++ '.' :: ds.drop (whole + 1)
      | .negSucc zeros => '0' :: '.' :: List.replicate zeros '0' ++ ds
  else
    let tail := ds.tail
    ds.take 1 ++ (if tail.isEmpty then [] else '.' :: tail) ++ l.exponentText first

/-- The text of a decimal. -/
def decimal (l : Layout) (d : Decimal) : List Char :=
  if d.digits = 0 then
    (if d.negative && l.signsZero then ['-'] else []) ++
      (if l.marksWhole then ['0', '.', '0'] else ['0'])
  else (if d.negative then ['-'] else []) ++ l.magnitude d.digits d.exponent

/-- The text of a floating-point number: the shortest decimal that reads back, laid out. -/
def binary64 (l : Layout) (x : Binary64) : List Char := l.decimal (.shortest x)

end Layout

end TestJob
