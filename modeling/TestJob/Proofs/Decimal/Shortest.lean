import Mathlib
import TestJob.Decimal.Shortest
import TestJob.Proofs.Decimal.Rounding

/-!
Decimals and the floating-point numbers they are read as. A decimal whose size is of the interval of
a number is read as the number, however its digits and its exponent are chosen
(`toBinary64?_eq_some`); the search for the shortest decimal only accepts digits of that interval,
so what it finds is read back (`toBinary64?_shortest`).
-/

namespace TestJob

namespace Binary64

variable {x : Binary64}

theorem lower_pos (hunits : x.units ≠ 0) : 0 < x.lower := by
  have hlower := lower_mul hunits 1
  have hpos := x.gap_pos
  have hsignificand := Nat.mul_le_mul_right x.gap (significand_pos hunits)
  have hif : (if x.Narrow then 1 else 2) * (x.gap * 1) ≤ 2 * (x.gap * 1) :=
    Nat.mul_le_mul_right _ (by split <;> decide)
  simp only [mul_one] at hlower hif
  omega

theorem upper_lt {k : Nat} (hk : x.exponent.val ≤ k + 1) : x.upper < 2 ^ (55 + k) := by
  have hgap : x.gap ≤ 2 ^ k := Nat.pow_le_pow_right two_pos (by omega)
  have hmul : x.significand * x.gap + x.gap ≤ 2 * significands * 2 ^ k := by
    rw [← Nat.add_one_mul]
    exact Nat.mul_le_mul x.significand_lt hgap
  have hpower : 2 ^ (55 + k) = 4 * (2 * significands * 2 ^ k) := by
    rw [pow_add, significands_eq, ← mul_assoc, ← mul_assoc]
    norm_num
  have hpos := x.gap_pos
  rw [upper, units_eq, hpower]
  omega

/-- Only zeros have no units. -/
theorem eq_zero_of_units (h : x.units = 0) : x = zero x.negative := by
  obtain ⟨negative, ⟨exponent, hexponent⟩, fraction, hfraction⟩ := x
  rw [units] at h
  dsimp only at h
  split at h
  · next he =>
    subst he h
    rfl
  · have hpos : 0 < (significands + fraction) * Nat.pow 2 (exponent - 1) :=
      Nat.mul_pos (Nat.add_pos_left (by decide) _) (Nat.two_pow_pos _)
    omega

end Binary64

namespace Decimal

open Binary64

/-- The magnitude of a decimal. -/
def size (d : Decimal) : ℚ := d.digits * 10 ^ d.exponent

theorem two_pow_le_ten_pow (n : Nat) : 2 ^ (3 * n) ≤ 10 ^ n := by
  rw [pow_mul]
  exact Nat.pow_le_pow_left (by decide) n

section Reading

variable {d : Decimal} {x : Binary64} {digits e p : Nat} (hunits : x.units ≠ 0)

/-- The power of ten of a decimal of the interval is not too large. -/
theorem exponent_lt_of_near {k : Nat} (hupper : x.upper < 2 ^ k) (hdigits : digits ≠ 0)
    (h : x.Near ((digits * 10 ^ e : Nat) * (2 ^ p : Nat))) : 3 * e + p < k := by
  have hle : digits * 10 ^ e * 2 ^ p ≤ x.upper := by
    have := h.le_upper
    exact_mod_cast this
  have hpower : 2 ^ (3 * e + p) ≤ digits * 10 ^ e * 2 ^ p := by
    rw [pow_add]
    exact Nat.mul_le_mul_right _ ((two_pow_le_ten_pow e).trans
      (Nat.le_mul_of_pos_left _ (Nat.pos_of_ne_zero hdigits)))
  exact (Nat.pow_lt_pow_iff_right one_lt_two).1 (hpower.trans_lt (hle.trans_lt hupper))

include hunits in
/-- The power of ten that divides a decimal of the interval is not too large. -/
theorem exponent_lt_log2_of_near
    (h : x.Near (digits / (10 ^ e : Nat) * (2 ^ p : Nat))) : 3 * e < digits.log2 + 1 + p := by
  have hpos : (0 : ℚ) < (10 ^ e : Nat) := by positivity
  have hone : (1 : ℚ) ≤ digits / (10 ^ e : Nat) * (2 ^ p : Nat) :=
    le_trans (by exact_mod_cast lower_pos hunits) h.lower_le
  rw [div_mul_eq_mul_div, le_div_iff₀ hpos, one_mul] at hone
  have hle : 10 ^ e ≤ digits * 2 ^ p := by exact_mod_cast hone
  have hlog : digits * 2 ^ p < 2 ^ (digits.log2 + 1 + p) := by
    rw [pow_add]
    exact Nat.mul_lt_mul_of_pos_right Nat.lt_log2_self (Nat.two_pow_pos p)
  exact (Nat.pow_lt_pow_iff_right one_lt_two).1
    ((two_pow_le_ten_pow e).trans_lt (hle.trans_lt hlog))

include hunits in
/-- A decimal of the interval of a number is read as the number. -/
theorem toBinary64?_eq_some (hp : p = 1076) (hnegative : d.negative = x.negative)
    (hdigits : d.digits ≠ 0) (h : x.Near (d.size * (2 ^ p : Nat))) : d.toBinary64? = some x := by
  obtain ⟨negative, digits, exponent⟩ := d
  obtain rfl : negative = x.negative := hnegative
  rw [toBinary64?, if_neg hdigits]
  cases exponent with
  | ofNat e =>
    have hsize : size ⟨x.negative, digits, .ofNat e⟩ = (digits * 10 ^ e : Nat) := by
      simp [size]
    rw [hsize] at h
    have hlarge : ¬400 < e := by
      have := x.exponent.isLt
      have := exponent_lt_of_near (upper_lt (k := 2045) (by omega)) hdigits h
      omega
    dsimp only
    rw [if_neg hlarge, Nat.pow_eq]
    refine nearest?_eq_some one_pos hunits hp ?_
    rwa [Nat.cast_one, div_one]
  | negSucc e =>
    have hsize : size ⟨x.negative, digits, .negSucc e⟩ = digits / (10 ^ (e + 1) : Nat) := by
      simp [size, zpow_negSucc, div_eq_mul_inv]
    rw [hsize] at h
    have hsmall : ¬digits.log2 + 400 < e := by
      have := exponent_lt_log2_of_near hunits h
      omega
    dsimp only
    rw [if_neg hsmall, Nat.pow_eq]
    exact nearest?_eq_some (by positivity) hunits hp h

end Reading

/-! ### The search -/

namespace Interval

variable {i : Interval}

/-- What is accepted on a grid is of the interval. -/
theorem contains_of_onGrid? {grid digits : Nat} (h : i.onGrid? grid = some digits) :
    i.contains (digits * grid) = true := by
  unfold onGrid? at h
  extract_lets below rest above nearer farther at h
  split at h
  · next hnearer => exact Option.some.inj h ▸ hnearer
  · split at h
    · next hfarther => exact Option.some.inj h ▸ hfarther
    · cases h

theorem contains_of_search {length digits grid : Nat} :
    ∀ {tries count : Nat}, i.search length tries count = some (digits, grid) →
      i.contains (digits * 10 ^ grid) = true
  | 0, count, h => by cases h
  | tries + 1, count, h => by
    rw [search] at h
    split at h
    · next hgrid =>
      obtain ⟨rfl, rfl⟩ := Prod.mk.inj (Option.some.inj h)
      exact contains_of_onGrid? hgrid
    · exact contains_of_search h

variable {x : Binary64}

/-- The interval of the magnitude of `x`, where a quarter of a unit is `scale` units. -/
def ofScale (x : Binary64) (scale : Nat) : Interval :=
  ⟨4 * x.units * scale, x.lower * scale, x.upper * scale, decide (x.fraction.val % 2 = 0)⟩

theorem ofBinary64_eq (x : Binary64) : ofBinary64 x = ofScale x (Nat.pow 5 1076) := rfl

variable {scale n : Nat}

theorem contains_ofScale :
    (ofScale x scale).contains n = true ↔
      if x.fraction.val % 2 = 0 then x.lower * scale ≤ n ∧ n ≤ x.upper * scale
      else x.lower * scale < n ∧ n < x.upper * scale := by
  rw [ofScale, contains]
  by_cases h : x.fraction.val % 2 = 0 <;> simp [h]

/-- The value itself is of the interval. -/
theorem contains_value (hscale : 0 < scale) (hunits : x.units ≠ 0) :
    (ofScale x scale).contains (4 * x.units * scale) = true := by
  have hgap := x.gap_pos
  have hlower : x.lower < 4 * x.units := by
    have := Nat.pos_of_ne_zero hunits
    rw [lower]
    split <;> omega
  have hupper : 4 * x.units < x.upper := by
    rw [upper]
    omega
  have hlow := Nat.mul_lt_mul_of_pos_right hlower hscale
  have hhigh := Nat.mul_lt_mul_of_pos_right hupper hscale
  rw [contains_ofScale]
  split
  · exact ⟨hlow.le, hhigh.le⟩
  · exact ⟨hlow, hhigh⟩

/-- What the interval of a number contains is near the number. -/
theorem near_of_contains (hscale : 0 < scale) (h : (ofScale x scale).contains n = true) :
    x.Near (n / scale) := by
  have hpos : (0 : ℚ) < scale := Nat.cast_pos.2 hscale
  rw [contains_ofScale] at h
  have hle : x.lower * scale ≤ n ∧ n ≤ x.upper * scale := by
    split at h
    · exact h
    · exact ⟨h.1.le, h.2.le⟩
  refine ⟨?_, ?_, fun hodd => ?_⟩
  · rw [le_div_iff₀ hpos]
    exact_mod_cast hle.1
  · rw [div_le_iff₀ hpos]
    exact_mod_cast hle.2
  · rw [if_neg (by omega)] at h
    rw [ne_eq, ne_eq, eq_div_iff hpos.ne', div_eq_iff hpos.ne']
    exact ⟨by exact_mod_cast h.1.ne, by exact_mod_cast h.2.ne⟩

/-- What is found, or else the value itself, is of the interval. -/
theorem contains_found (hscale : 0 < scale) (hunits : x.units ≠ 0) (length : Nat) :
    ∃ digits grid, ((ofScale x scale).search length 17 1).getD (4 * x.units * scale, 0) =
      (digits, grid) ∧ (ofScale x scale).contains (digits * 10 ^ grid) = true := by
  cases hsearch : (ofScale x scale).search length 17 1 with
  | none =>
    refine ⟨_, 0, rfl, ?_⟩
    rw [pow_zero, mul_one]
    exact contains_value hscale hunits
  | some found => exact ⟨found.1, found.2, rfl, contains_of_search hsearch⟩

end Interval

/-- Moving zeros into the exponent keeps the size. -/
theorem stripZeros_size (negative : Bool) :
    ∀ (bound digits : Nat) (exponent : Int),
      size ⟨negative, (stripZeros bound digits exponent).1,
        (stripZeros bound digits exponent).2⟩ = size ⟨negative, digits, exponent⟩
  | 0, digits, exponent => rfl
  | bound + 1, digits, exponent => by
    rw [stripZeros]
    split
    · next h =>
      have hdigits : (digits : ℚ) = (digits / 10 : Nat) * 10 := by
        exact_mod_cast (Nat.div_mul_cancel (Nat.dvd_of_mod_eq_zero h.1)).symm
      rw [stripZeros_size negative bound, size, size, zpow_add_one₀ (by norm_num)]
      dsimp only
      rw [hdigits]
      ring
    · rfl

theorem stripZeros_ne_zero :
    ∀ (bound : Nat) {digits : Nat} (exponent : Int), digits ≠ 0 →
      (stripZeros bound digits exponent).1 ≠ 0
  | 0, digits, exponent, h => h
  | bound + 1, digits, exponent, h => by
    rw [stripZeros]
    split
    · next hzero => exact stripZeros_ne_zero bound _ (by omega)
    · exact h

/-! ### Reading back -/

section Shortest

variable {x : Binary64}

theorem shortest_of_units_eq_zero (h : x.units = 0) : shortest x = ⟨x.negative, 0, 0⟩ := by
  rw [shortest, if_pos h]

-- the power is a variable, since the one of the definition is too large to be computed
variable {p : Nat} (hp : p = 1076)

include hp

/-- The shortest decimal before its zeros are stripped. -/
theorem exists_shortest_eq (hunits : x.units ≠ 0) :
    ∃ bound digits, ∃ grid : Nat,
      (Interval.ofScale x (Nat.pow 5 p)).contains (digits * 10 ^ grid) = true ∧
      shortest x = ⟨x.negative, (stripZeros bound digits (grid - p)).1,
        (stripZeros bound digits (grid - p)).2⟩ := by
  obtain ⟨scale, hscale⟩ : ∃ scale, Nat.pow 5 p = scale := ⟨_, rfl⟩
  have hpos : 0 < scale := hscale ▸ Nat.pow_pos (by decide)
  have hvalue : (Interval.ofScale x scale).value = 4 * x.units * scale := rfl
  obtain ⟨digits, grid, hfound, hcontains⟩ := Interval.contains_found hpos hunits
    (Nat.toDigits 10 (4 * x.units * scale)).length
  rw [hscale]
  refine ⟨(Nat.toDigits 10 (4 * x.units * scale)).length + 1, digits, grid, hcontains, ?_⟩
  rw [shortest, if_neg hunits, Interval.ofBinary64_eq, ← hp, hscale]
  simp only [hvalue, hfound, hp, Nat.cast_ofNat]

omit hp in
theorem size_mul (negative : Bool) (digits grid p : Nat) :
    size ⟨negative, digits, grid - p⟩ * (2 ^ p : Nat) =
      ((digits * 10 ^ grid : Nat) : ℚ) / (Nat.pow 5 p : Nat) := by
  have hten : (10 : ℚ) ^ p = 2 ^ p * 5 ^ p := by
    rw [← mul_pow]
    norm_num
  rw [size, Nat.pow_eq, zpow_sub₀ (by norm_num), zpow_natCast, zpow_natCast, hten]
  push_cast
  field_simp

/-- The shortest decimal has the sign of the number and is of its interval. -/
theorem shortest_near (hunits : x.units ≠ 0) :
    (shortest x).negative = x.negative ∧ (shortest x).digits ≠ 0 ∧
      x.Near ((shortest x).size * (2 ^ p : Nat)) := by
  obtain ⟨bound, digits, grid, hcontains, hshortest⟩ := exists_shortest_eq hp hunits
  have hnear := Interval.near_of_contains (Nat.pow_pos (by decide)) hcontains
  have hdigits : digits ≠ 0 := by
    rintro rfl
    have hle := hnear.lower_le
    rw [Nat.zero_mul, Nat.cast_zero, zero_div] at hle
    have hlower : x.lower ≤ 0 := by exact_mod_cast hle
    exact absurd hlower (Nat.not_le.2 (lower_pos hunits))
  rw [hshortest, stripZeros_size, size_mul]
  exact ⟨rfl, stripZeros_ne_zero _ _ hdigits, hnear⟩

omit hp in
/-- A decimal with the sign and the size of the shortest one is read as the number. -/
theorem toBinary64?_of_size_eq {d : Decimal} (hnegative : d.negative = x.negative)
    (hdigits : d.digits ≠ 0) (hsize : d.size = (shortest x).size) (hunits : x.units ≠ 0) :
    d.toBinary64? = some x := by
  obtain ⟨p, hp⟩ : ∃ p, 1076 = p := ⟨_, rfl⟩
  refine toBinary64?_eq_some hunits hp.symm hnegative hdigits ?_
  rw [hsize]
  exact (shortest_near hp.symm hunits).2.2

omit hp in
theorem toBinary64?_shortest (x : Binary64) : (shortest x).toBinary64? = some x := by
  by_cases hunits : x.units = 0
  · rw [shortest_of_units_eq_zero hunits, eq_zero_of_units hunits]
    rfl
  · obtain ⟨hnegative, hdigits, _⟩ := shortest_near rfl hunits
    exact toBinary64?_of_size_eq hnegative hdigits rfl hunits

end Shortest

end Decimal

end TestJob
