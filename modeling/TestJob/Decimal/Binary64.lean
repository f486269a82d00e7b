/-!
Finite binary floating-point numbers of 64 bits. The magnitude of each is a whole number of units
of 2^-1074 (`units`), so rounding and comparison are arithmetic on natural numbers. `nearest?`
rounds a quotient to the nearest such number, a tie going to the even significand.
-/

namespace TestJob

/-- The number of significands with one exponent: 2^52. -/
abbrev Binary64.significands : Nat := 4503599627370496

/-- A finite number: sign, biased exponent (2047 being kept for what is not finite), fraction. -/
structure Binary64 where
  negative : Bool
  exponent : Fin 2047
  fraction : Fin Binary64.significands
deriving DecidableEq

namespace Binary64

/-- Zero with a sign. -/
def zero (negative : Bool) : Binary64 := ⟨negative, 0, 0⟩

/-- The magnitude, in units of 2^-1074. -/
def units (x : Binary64) : Nat :=
  if x.exponent.val = 0 then x.fraction.val
  else (significands + x.fraction.val) * Nat.pow 2 (x.exponent.val - 1)

/-- The number of so many units, if it is in range; bits below its significand are dropped. -/
def ofUnits? (negative : Bool) (units : Nat) : Option Binary64 :=
  if small : units < significands then some ⟨negative, 0, ⟨units, small⟩⟩
  else
    let shift := units.log2 - 52
    if inRange : shift + 1 < 2047 then
      let fraction := units / Nat.pow 2 shift % significands
      some ⟨negative, ⟨shift + 1, inRange⟩, ⟨fraction, Nat.mod_lt _ (by decide)⟩⟩
    else none

/-- A quotient rounded to the nearest whole number, a tie going to the even one. -/
def roundHalfEven (num den : Nat) : Nat :=
  let quotient := num / den
  let rest := 2 * (num % den)
  if rest < den ∨ (rest = den ∧ quotient % 2 = 0) then quotient else quotient + 1

/-- The number nearest to `num / den`; `none` when it is too large to be finite. -/
def nearest? (negative : Bool) (num den : Nat) : Option Binary64 :=
  let scaled := num * Nat.pow 2 1074
  let step := Nat.pow 2 ((scaled / den).log2 - 52)
  ofUnits? negative (roundHalfEven scaled (den * step) * step)

end Binary64

/-- A decimal number: its sign, and `digits · 10 ^ exponent`. -/
structure Decimal where
  negative : Bool
  digits : Nat
  exponent : Int
deriving DecidableEq

namespace Decimal

/-- The floating-point number nearest to a decimal, `none` when it would be infinite. Exponents
beyond every possible answer are settled without computing the power. -/
def toBinary64? (d : Decimal) : Option Binary64 :=
  if d.digits = 0 then some (Binary64.zero d.negative)
  else
    match d.exponent with
    | .ofNat e => if 400 < e then none else Binary64.nearest? d.negative (d.digits * Nat.pow 10 e) 1
    | .negSucc e =>
      if d.digits.log2 + 400 < e then some (Binary64.zero d.negative)
      else Binary64.nearest? d.negative d.digits (Nat.pow 10 (e + 1))

/-- The value of a row of decimal digits. -/
def ofDigits (digits : List Char) : Nat :=
  digits.foldl (fun value c => 10 * value + (c.toNat - '0'.toNat)) 0

end Decimal

end TestJob
