import Mathlib
import TestJob.Decimal.Binary64

/-!
Rounding to floating-point numbers. Which quotients are rounded to a number `x` is told by two
bounds, half a gap below and above it (`lower`, `upper`), that belong to the interval when the
significand is even; below a power of two the gap is half as wide. `nearest?_eq_some` says that
`nearest?` does round every quotient of the interval to `x`.
-/

namespace TestJob.Binary64

variable (x : Binary64)

/-- The significand, with the leading bit that is not stored. -/
def significand : Nat :=
  if x.exponent.val = 0 then x.fraction.val else significands + x.fraction.val

/-- The distance to the next number above, in units of 2^-1074. -/
def gap : Nat := 2 ^ (x.exponent.val - 1)

/-- Whether the next number below is only half a gap away. -/
def Narrow : Prop := x.fraction.val = 0 ∧ 1 < x.exponent.val

instance : Decidable x.Narrow := inferInstanceAs (Decidable (_ ∧ _))

/-- Where the interval that rounds to the magnitude begins, in quarters of a unit. -/
def lower : Nat := 4 * x.units - if x.Narrow then x.gap else 2 * x.gap

/-- Where the interval that rounds to the magnitude ends, in quarters of a unit. -/
def upper : Nat := 4 * x.units + 2 * x.gap

theorem gap_pos : 0 < x.gap := Nat.two_pow_pos _

theorem units_eq : x.units = x.significand * x.gap := by
  rw [units, significand, gap]
  split
  · next h => rw [h, Nat.zero_sub, pow_zero, mul_one]
  · rfl

theorem significands_eq : significands = 4503599627370496 := rfl

theorem significand_lt : x.significand < 2 * significands := by
  have := x.fraction.isLt
  rw [significand]
  split <;> omega

/-- A number with an exponent has the leading bit. -/
theorem significands_le (h : x.exponent.val ≠ 0) : significands ≤ x.significand := by
  rw [significand, if_neg h]
  exact Nat.le_add_right _ _

theorem significand_mod_two : x.significand % 2 = x.fraction.val % 2 := by
  have := significands_eq
  rw [significand]
  split <;> omega

/-! ### The number of so many units -/

/-- The quotient whose logarithm gives the step. -/
theorem log2_eq {num den k : Nat} (hden : 0 < den) (hlow : significands * (2 ^ k * den) ≤ num)
    (hhigh : num < 2 * significands * (2 ^ k * den)) : (num / den).log2 = 52 + k := by
  have hle : significands * 2 ^ k ≤ num / den := by
    rwa [Nat.le_div_iff_mul_le hden, mul_assoc]
  have hlt : num / den < 2 * significands * 2 ^ k := by
    rwa [Nat.div_lt_iff_lt_mul hden, mul_assoc]
  have hpow : significands * 2 ^ k = 2 ^ (52 + k) := by
    rw [significands_eq, pow_add]
    norm_num
  have hpow' : 2 * significands * 2 ^ k = 2 ^ (52 + k + 1) := by
    rw [mul_assoc, hpow, ← pow_succ']
  have hpos : 0 < 2 ^ (52 + k) := Nat.two_pow_pos _
  rw [Nat.log2_eq_iff (by omega)]
  exact ⟨hpow ▸ hle, hpow' ▸ hlt⟩

/-- A number is found again by its units. -/
theorem ofUnits?_units : ofUnits? x.negative x.units = some x := by
  obtain ⟨negative, ⟨exponent, hexponent⟩, fraction, hfraction⟩ := x
  rw [ofUnits?, units]
  dsimp only
  by_cases h : exponent = 0
  · subst h
    rw [if_pos rfl, dif_pos hfraction]
    rfl
  · rw [if_neg h, Nat.pow_eq]
    have hpos : 0 < 2 ^ (exponent - 1) := Nat.two_pow_pos _
    have hlow := Nat.mul_le_mul_right (2 ^ (exponent - 1)) (Nat.le_add_right significands fraction)
    have hhigh := Nat.mul_lt_mul_of_pos_right (Nat.add_lt_add_left hfraction significands) hpos
    have hlog : ((significands + fraction) * 2 ^ (exponent - 1)).log2 = 52 + (exponent - 1) := by
      rw [← Nat.div_one (_ * _)]
      refine log2_eq one_pos (by rwa [mul_one]) (by rwa [mul_one, two_mul])
    have hsmall : ¬(significands + fraction) * 2 ^ (exponent - 1) < significands := by
      have := Nat.le_mul_of_pos_right significands hpos
      omega
    have hshift : 52 + (exponent - 1) - 52 = exponent - 1 := by omega
    have hmod : (significands + fraction) % significands = fraction := by
      rw [Nat.add_mod_left, Nat.mod_eq_of_lt hfraction]
    rw [dif_neg hsmall]
    simp only [Nat.pow_eq, hlog, hshift, Nat.mul_div_cancel _ hpos, hmod]
    rw [dif_pos (by omega)]
    simp only [Option.some.injEq, mk.injEq, Fin.mk.injEq, true_and, and_true]
    omega

/-! ### Rounding a quotient -/

/-- A quotient is rounded to a whole number at most a half away; of two, to the even one. -/
theorem roundHalfEven_eq {num den m : Nat} (hden : 0 < den)
    (hlow : 2 * (m * den) ≤ 2 * num + den) (hhigh : 2 * num ≤ 2 * (m * den) + den)
    (hodd : m % 2 = 1 → 2 * (m * den) ≠ 2 * num + den ∧ 2 * num ≠ 2 * (m * den) + den) :
    roundHalfEven num den = m := by
  have hdiv := Nat.div_add_mod' num den
  have hrest := Nat.mod_lt num hden
  have hle : num / den ≤ m := by
    by_contra hlt
    have := Nat.mul_le_mul_right den (Nat.lt_of_not_le hlt)
    rw [Nat.succ_mul] at this
    omega
  have hge : m ≤ num / den + 1 := by
    by_contra hlt
    have := Nat.mul_le_mul_right den (Nat.lt_of_not_le hlt)
    rw [Nat.succ_mul, Nat.succ_mul] at this
    omega
  obtain heq | heq : m = num / den ∨ m = num / den + 1 := by omega
  · rw [heq] at hlow hhigh hodd ⊢
    rw [roundHalfEven, if_pos (by omega)]
  · rw [heq, Nat.add_one_mul (num / den)] at hlow hhigh hodd
    rw [heq, roundHalfEven, if_neg (by omega)]

section Quotients

variable {x} {num den : Nat} (hden : 0 < den) (hunits : x.units ≠ 0)
  (hlow : x.lower * den ≤ 4 * num) (hhigh : 4 * num ≤ x.upper * den)

include hunits in
theorem significand_pos : 0 < x.significand := by
  rw [units_eq] at hunits
  exact Nat.pos_of_ne_zero (left_ne_zero_of_mul hunits)

/-- The bounds in multiples of the gap. -/
theorem upper_mul (den : Nat) :
    x.upper * den = 4 * (x.significand * (x.gap * den)) + 2 * (x.gap * den) := by
  rw [upper, units_eq]
  ring

include hunits in
theorem lower_mul (den : Nat) :
    x.lower * den + (if x.Narrow then 1 else 2) * (x.gap * den) =
      4 * (x.significand * (x.gap * den)) := by
  have hle := Nat.mul_le_mul_right x.gap (significand_pos hunits)
  have hsub : x.lower + (if x.Narrow then 1 else 2) * x.gap = 4 * (x.significand * x.gap) := by
    rw [lower, units_eq]
    split <;> omega
  calc x.lower * den + (if x.Narrow then 1 else 2) * (x.gap * den)
      = (x.lower + (if x.Narrow then 1 else 2) * x.gap) * den := by ring
    _ = 4 * (x.significand * (x.gap * den)) := by rw [hsub]; ring

/-- The interval begins at most half a gap below the magnitude. -/
theorem lower_gap_le (den : Nat) :
    (if x.Narrow then 1 else 2) * (x.gap * den) ≤ 2 * (x.gap * den) :=
  Nat.mul_le_mul_right _ (by split <;> decide)

include hden hhigh in
theorem lt_of_le_upper : num < 2 * significands * (x.gap * den) := by
  have hpos := Nat.mul_pos x.gap_pos hden
  have hle := Nat.mul_le_mul_right (x.gap * den) x.significand_lt
  rw [upper_mul] at hhigh
  rw [Nat.succ_mul] at hle
  omega

include hden hhigh in
/-- At or above the power of two of a number the step is the gap, and among the least numbers it is
always one. -/
theorem log2_of_step (hstep : x.exponent.val ≤ 1 ∨ significands * (x.gap * den) ≤ num) :
    (num / den).log2 - 52 = x.exponent.val - 1 := by
  by_cases hle : significands * (x.gap * den) ≤ num
  · rw [log2_eq hden hle (lt_of_le_upper hden hhigh)]
    omega
  · have hexponent := hstep.resolve_right hle
    have hgap : x.gap = 1 := by rw [gap, Nat.sub_eq_zero_of_le hexponent, pow_zero]
    rw [hgap, one_mul] at hle
    have hsmall : num / den < significands := by
      rw [Nat.div_lt_iff_lt_mul hden]
      omega
    have hlog2 : (num / den).log2 ≤ 52 := by
      by_cases hzero : num / den = 0
      · rw [hzero, Nat.log2_zero]
        exact Nat.zero_le _
      · have := (Nat.log2_lt (k := 53) hzero).2 (hsmall.trans (by decide))
        omega
    omega

include hden hunits hlow hhigh

/-- Where the step is the gap, the significand is the nearest multiple. -/
theorem round_of_step (hodd : x.fraction.val % 2 = 1 →
      x.lower * den ≠ 4 * num ∧ 4 * num ≠ x.upper * den)
    (hstep : x.exponent.val ≤ 1 ∨ significands * (x.gap * den) ≤ num) :
    roundHalfEven num (den * 2 ^ ((num / den).log2 - 52)) * 2 ^ ((num / den).log2 - 52) =
      x.units := by
  have hpos := Nat.mul_pos x.gap_pos hden
  have hlog := log2_of_step hden hhigh hstep
  have hlower := lower_mul hunits den
  have hif := x.lower_gap_le den
  rw [upper_mul] at hhigh hodd
  rw [hlog, ← gap, mul_comm den, units_eq]
  congr 1
  refine roundHalfEven_eq hpos (by omega) (by omega) fun hm => ?_
  rw [significand_mod_two] at hm
  have hne := hodd hm
  have hnarrow : ¬x.Narrow := fun h => by
    rw [h.1] at hm
    cases hm
  rw [if_neg hnarrow] at hlower
  omega

omit hhigh in
/-- Just below a power of two, where the step is half the gap, the power is the nearest multiple. -/
theorem round_of_half_step (hexponent : 1 < x.exponent.val)
    (hbelow : num < significands * (x.gap * den)) :
    roundHalfEven num (den * 2 ^ ((num / den).log2 - 52)) * 2 ^ ((num / den).log2 - 52) =
      x.units := by
  obtain ⟨half, hhalf⟩ : ∃ half, x.exponent.val - 1 = half + 1 := ⟨x.exponent.val - 2, by omega⟩
  have hgap : x.gap = 2 * 2 ^ half := by rw [gap, hhalf, pow_succ']
  have hpos : 0 < 2 ^ half * den := Nat.mul_pos (Nat.two_pow_pos _) hden
  have hlower := lower_mul hunits den
  have hpower := Nat.mul_le_mul_right (x.gap * den) (x.significands_le (by omega))
  have hvalue := significands_eq
  -- a significand above the least one would not reach below the power
  have hsignificand : x.significand = significands := by
    by_contra hne
    have hlt : significands + 1 ≤ x.significand := by
      have := x.significands_le (by omega)
      omega
    have hmul := Nat.mul_le_mul_right (x.gap * den) hlt
    have hif := x.lower_gap_le den
    rw [Nat.succ_mul] at hmul
    omega
  have hnarrow : x.Narrow := by
    refine ⟨?_, hexponent⟩
    rw [significand, if_neg (by omega)] at hsignificand
    omega
  rw [if_pos hnarrow, one_mul, hsignificand] at hlower
  have hhalves : x.gap * den = 2 * (2 ^ half * den) := by rw [hgap, mul_assoc]
  have hpowers : significands * (x.gap * den) = 2 * (significands * (2 ^ half * den)) := by
    rw [hhalves]
    ring
  have hone := Nat.le_mul_of_pos_left (2 ^ half * den) (show 0 < significands by decide)
  have hlog : (num / den).log2 - 52 = half := by
    rw [log2_eq hden (k := half) (by omega) (by rw [mul_assoc]; omega)]
    omega
  have hround : roundHalfEven num (2 ^ half * den) = 2 * significands := by
    refine roundHalfEven_eq hpos ?_ ?_ fun hm => ?_
    · rw [mul_assoc]
      omega
    · rw [mul_assoc]
      omega
    · omega
  rw [hlog, mul_comm den, hround, units_eq, hsignificand, hgap]
  ring

theorem round_eq_units (hodd : x.fraction.val % 2 = 1 →
    x.lower * den ≠ 4 * num ∧ 4 * num ≠ x.upper * den) :
    roundHalfEven num (den * 2 ^ ((num / den).log2 - 52)) * 2 ^ ((num / den).log2 - 52) =
      x.units := by
  by_cases hstep : x.exponent.val ≤ 1 ∨ significands * (x.gap * den) ≤ num
  · exact round_of_step hden hunits hlow hhigh hodd hstep
  · rw [not_or, not_le, not_le] at hstep
    exact round_of_half_step hden hunits hlow hstep.1 hstep.2

end Quotients

/-! ### The interval of a number -/

/-- A magnitude, in quarters of a unit, is of the interval that rounds to the magnitude of `x`. -/
structure Near (v : ℚ) : Prop where
  lower_le : x.lower ≤ v
  le_upper : v ≤ x.upper
  ne_of_odd : x.fraction.val % 2 = 1 → (x.lower : ℚ) ≠ v ∧ v ≠ x.upper

variable {x} {num den : Nat} (hden : 0 < den) (hunits : x.units ≠ 0)

include hden hunits

theorem Near.round_eq_units (h : x.Near (((4 * num : Nat) : ℚ) / den)) :
    roundHalfEven num (den * 2 ^ ((num / den).log2 - 52)) * 2 ^ ((num / den).log2 - 52) =
      x.units := by
  have hpos : (0 : ℚ) < den := Nat.cast_pos.2 hden
  obtain ⟨hlow, hhigh, hodd⟩ := h
  rw [le_div_iff₀ hpos] at hlow
  rw [div_le_iff₀ hpos] at hhigh
  rw [ne_eq, ne_eq, eq_div_iff hpos.ne', div_eq_iff hpos.ne'] at hodd
  exact Binary64.round_eq_units hden hunits (by exact_mod_cast hlow) (by exact_mod_cast hhigh)
    fun h => by exact_mod_cast hodd h

/-- A quotient of the interval is rounded to the number. -/
theorem nearest?_eq_some {p : Nat} (hp : p = 1074 + 2)
    (h : x.Near ((num : ℚ) / den * (2 ^ p : Nat))) : nearest? x.negative num den = some x := by
  -- for any power, since the one of the definition is too large to be computed
  have hpower : ∀ k, p = k + 2 →
      let step := Nat.pow 2 ((num * Nat.pow 2 k / den).log2 - 52)
      ofUnits? x.negative (roundHalfEven (num * Nat.pow 2 k) (den * step) * step) = some x := by
    rintro k rfl
    have hquarters : (num : ℚ) / den * (2 ^ (k + 2) : Nat) =
        ((4 * (num * 2 ^ k) : Nat) : ℚ) / den := by
      push_cast
      ring
    rw [hquarters] at h
    exact (congrArg (ofUnits? x.negative) (h.round_eq_units hden hunits)).trans x.ofUnits?_units
  apply hpower
  exact hp

/-! ### What is in range -/

omit hden hunits

theorem roundHalfEven_mul_le (num den : Nat) : roundHalfEven num den * den ≤ num + den := by
  have hdiv := Nat.div_add_mod' num den
  rw [roundHalfEven]
  split
  · omega
  · rw [Nat.succ_mul]
    omega

/-- What takes at most 2098 bits is in range. -/
theorem exists_ofUnits? (negative : Bool) {units bits : Nat} (hbits : bits ≤ 2098)
    (h : units < 2 ^ bits) : ∃ x, ofUnits? negative units = some x := by
  rw [ofUnits?]
  split
  · exact ⟨_, rfl⟩
  · next hlarge =>
    have hzero : units ≠ 0 := by
      rintro rfl
      exact hlarge (by decide)
    have hlog2 := (Nat.log2_lt hzero).2 h
    dsimp only
    rw [dif_pos (by omega)]
    exact ⟨_, rfl⟩

/-- A whole number of at most a thousand bits is in range. -/
theorem exists_nearest? (negative : Bool) {num p bits : Nat} (hp : p = 1074) (hpos : 0 < num)
    (hbits : bits ≤ 1000) (hnum : num < 2 ^ bits) : ∃ x, nearest? negative num 1 = some x := by
  -- for any power, since the one of the definition is too large to be computed
  have hpower : ∀ k, p = k → let step := Nat.pow 2 ((num * Nat.pow 2 k / 1).log2 - 52)
      ∃ x, ofUnits? negative (roundHalfEven (num * Nat.pow 2 k) (1 * step) * step) = some x := by
    rintro k rfl
    dsimp only
    rw [Nat.div_one, Nat.one_mul, Nat.pow_eq, Nat.pow_eq]
    have hscaled : num * 2 ^ p ≠ 0 := (Nat.mul_pos hpos (Nat.two_pow_pos p)).ne'
    have hbelow : num * 2 ^ p < 2 ^ (bits + p) := by
      rw [pow_add]
      exact Nat.mul_lt_mul_of_pos_right hnum (Nat.two_pow_pos p)
    have hstep : 2 ^ ((num * 2 ^ p).log2 - 52) ≤ num * 2 ^ p :=
      (Nat.pow_le_pow_right (by decide) (Nat.sub_le _ _)).trans (Nat.log2_self_le hscaled)
    have hround := roundHalfEven_mul_le (num * 2 ^ p) (2 ^ ((num * 2 ^ p).log2 - 52))
    have hunits : roundHalfEven (num * 2 ^ p) (2 ^ ((num * 2 ^ p).log2 - 52)) *
        2 ^ ((num * 2 ^ p).log2 - 52) < 2 ^ (bits + p + 1) := by
      rw [pow_succ]
      omega
    exact exists_ofUnits? negative (by omega) hunits
  apply hpower
  exact hp

end TestJob.Binary64

namespace TestJob

/-- Every whole number of at most a thousand bits has a nearest float. -/
theorem Decimal.exists_toBinary64? (negative : Bool) {digits bits : Nat} (hbits : bits ≤ 1000)
    (h : digits < 2 ^ bits) : ∃ x, toBinary64? ⟨negative, digits, 0⟩ = some x := by
  have hexponent : (0 : Int) = .ofNat 0 := rfl
  rw [hexponent, toBinary64?]
  split
  · exact ⟨_, rfl⟩
  · next hdigits =>
    dsimp only
    rw [if_neg (by decide), Nat.pow_eq, pow_zero, mul_one]
    exact Binary64.exists_nearest? negative rfl (Nat.pos_of_ne_zero hdigits) hbits h

end TestJob
