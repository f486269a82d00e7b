import TestJob.Decimal.Binary64

/-!
The shortest decimal that reads back as a given floating-point number. Everything is exact: in
units of 10^-1076 the number, and the two ends of the interval that rounds to it, are whole
numbers. For one digit, two digits and so on the two neighbours of the number on that decimal grid
are tested; the first grid with a hit wins, and of two hits the nearer.
-/

namespace TestJob.Decimal

/-- A number and the ends of the interval that rounds to it, in units of 10^-1076. The ends
belong to the interval when the significand is even. -/
structure Interval where
  value : Nat
  low : Nat
  high : Nat
  closed : Bool

namespace Interval

/-- The interval of the magnitude of `x`. The gap below a power of two is half the gap above. -/
def ofBinary64 (x : Binary64) : Interval :=
  let gap := Nat.pow 2 (x.exponent.val - 1)
  let narrow := x.fraction.val = 0 ∧ 1 < x.exponent.val
  let scale := Nat.pow 5 1076
  { value := 4 * x.units * scale
    low := (4 * x.units - if narrow then gap else 2 * gap) * scale
    high := (4 * x.units + 2 * gap) * scale
    closed := x.fraction.val % 2 = 0 }

/-- Whether a number of units rounds to the value. -/
def contains (i : Interval) (units : Nat) : Bool :=
  if i.closed then i.low ≤ units && units ≤ i.high else i.low < units && units < i.high

/-- The multiple of `grid` next to the value that reads back, if there is one. Of two the nearer
is taken, and of two equally near ones the even. -/
def onGrid? (i : Interval) (grid : Nat) : Option Nat :=
  let below := i.value / grid
  let rest := 2 * (i.value % grid)
  let above := below + 1
  let nearer := if rest < grid ∨ (rest = grid ∧ below % 2 = 0) then below else above
  let farther := if nearer = below then above else below
  if i.contains (nearer * grid) then some nearer
  else if i.contains (farther * grid) then some farther
  else none

/-- Tries the grids of `count`, `count + 1`, … digits, `tries` of them at most. -/
def search (i : Interval) (length : Nat) : Nat → Nat → Option (Nat × Nat)
  | 0, _ => none
  | tries + 1, count =>
    let grid := Nat.pow 10 (length - count)
    match i.onGrid? grid with
    | some digits => some (digits, length - count)
    | none => search i length tries (count + 1)

end Interval

/-- Moves zeros at the end of the digits into the exponent, `bound` of them at most. -/
def stripZeros : Nat → Nat → Int → Nat × Int
  | 0, digits, exponent => (digits, exponent)
  | bound + 1, digits, exponent =>
    if digits % 10 = 0 ∧ digits ≠ 0 then stripZeros bound (digits / 10) (exponent + 1)
    else (digits, exponent)

/-- The shortest decimal that reads back as `x`. Seventeen digits always suffice; were they not to,
the exact value is given. -/
def shortest (x : Binary64) : Decimal :=
  if x.units = 0 then ⟨x.negative, 0, 0⟩
  else
    let interval := Interval.ofBinary64 x
    let length := (Nat.toDigits 10 interval.value).length
    let (digits, grid) := (interval.search length 17 1).getD (interval.value, 0)
    let (digits, exponent) := stripZeros (length + 1) digits (grid - 1076)
    ⟨x.negative, digits, exponent⟩

end TestJob.Decimal
