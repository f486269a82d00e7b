import Mathlib
import TestJob.Proofs.Json.Literal
import TestJob.Proofs.Json.Reader

/-!
Numbers in the canonical form. It writes a float by its shortest decimal, like an integer if that is
a whole number, and drops the sign of zero, so what is read back is not always the number that was
written: `Number.reread` is the number that is, and it is what the canonical text keeps of a number
(`numberChars_reread`, `readsBack_reread`). Two numbers are reread alike exactly when they are equal,
both zero, or a float and the whole number that its shortest decimal is (`reread_eq_iff`).
-/

namespace TestJob

open Json (numberChars Literal)

/-! ### Whole numbers -/

namespace Decimal

/-- The whole number that a decimal is, if its exponent shows it to be one. -/
def whole? (d : Decimal) : Option Int :=
  match d.exponent with
  | .ofNat zeros =>
    let size : Int := (d.digits * Nat.pow 10 zeros : Nat)
    some (if d.negative then -size else size)
  | .negSucc _ => none

theorem whole?_eq_some_iff {d : Decimal} {n : Int} :
    d.whole? = some n ↔ ∃ zeros : Nat, d.exponent = zeros ∧
      n = if d.negative then -((d.digits * 10 ^ zeros : Nat) : Int)
        else ((d.digits * 10 ^ zeros : Nat) : Int) := by
  obtain ⟨negative, digits, exponent⟩ := d
  cases exponent with
  | ofNat zeros => simp [whole?, eq_comm]
  | negSucc below => simp [whole?]

/-- A whole number is settled by the sign and the size of the decimal. -/
theorem whole?_spec {d : Decimal} {n : Int} (h : d.whole? = some n) :
    d.size = n.natAbs ∧ (n ≠ 0 → d.negative = decide (n < 0)) := by
  obtain ⟨zeros, hexponent, hn⟩ := whole?_eq_some_iff.1 h
  have habs : n.natAbs = d.digits * 10 ^ zeros := by
    split at hn <;> omega
  refine ⟨?_, fun hzero => ?_⟩
  · rw [size, hexponent, habs, zpow_natCast]
    push_cast
    rfl
  · cases hnegative : d.negative with
    | true =>
      rw [hnegative, if_pos rfl] at hn
      exact (decide_eq_true (by omega)).symm
    | false =>
      rw [hnegative, if_neg Bool.false_ne_true] at hn
      exact (decide_eq_false (by omega)).symm

theorem toDigits_mul_pow {n : Nat} (hn : n ≠ 0) :
    ∀ zeros, Nat.toDigits 10 (n * 10 ^ zeros) = Nat.toDigits 10 n ++ List.replicate zeros '0'
  | 0 => by rw [pow_zero, mul_one, List.replicate_zero, List.append_nil]
  | zeros + 1 => by
    have hpos : 0 < n * 10 ^ zeros := Nat.mul_pos (Nat.pos_of_ne_zero hn) (by positivity)
    have happend := Nat.toDigits_append_toDigits (b := 10) (d := 0) (by decide) hpos (by decide)
    rw [toDigits_mul_pow hn zeros] at happend
    rw [pow_succ', mul_left_comm, ← Nat.add_zero (10 * _), ← happend, List.append_assoc,
      List.replicate_succ']
    rfl

/-- The canonical form of a whole number of at most twenty digits is its digits. -/
theorem magnitude_canonical {n zeros : Nat} (hn : n ≠ 0) (hlt : n * 10 ^ zeros < 10 ^ 20) :
    Layout.magnitude .canonical n zeros = Nat.toDigits 10 (n * 10 ^ zeros) := by
  have hlength := (Nat.length_toDigits_le_iff (by decide) (by decide)).2 hlt
  rw [toDigits_mul_pow hn, List.length_append, List.length_replicate] at hlength
  have hpos : 0 < (Nat.toDigits 10 n).length := Nat.length_toDigits_pos
  rw [toDigits_mul_pow hn]
  have hfirst : Layout.canonical.leastPositional ≤
        (zeros : Int) + (Layout.digits n).length - 1 ∧
      (zeros : Int) + (Layout.digits n).length - 1 < Layout.canonical.endPositional := by
    dsimp only [Layout.canonical, Layout.digits]
    omega
  unfold Layout.magnitude
  dsimp only
  rw [if_pos hfirst]
  exact List.append_nil _

end Decimal

namespace Number

/-- The number that the canonical text of a number is read as. -/
def reread : Number → Number
  | .int n fits => .int n fits
  | .float x =>
    match (Decimal.shortest x).whole? with
    | some n => if fits : Fits n then .int n fits else .float x
    | none => .float x

variable {x : Binary64} {n : Int}

theorem reread_of_whole (fits : Fits n) (h : (Decimal.shortest x).whole? = some n) :
    reread (.float x) = .int n fits := by
  rw [reread, h]
  exact dif_pos fits

/-- A float is reread as itself unless its shortest decimal is a whole number that fits. -/
theorem reread_float (h : ∀ n, (Decimal.shortest x).whole? = some n → ¬Fits n) :
    reread (.float x) = .float x := by
  rw [reread]
  split
  · next n hn => exact dif_neg (h n hn)
  · rfl

/-- Two cases: a float whose shortest decimal is a whole number that fits, and any other. -/
theorem reread_float_cases (x : Binary64) :
    (∃ n fits, (Decimal.shortest x).whole? = some n ∧ reread (.float x) = .int n fits) ∨
      reread (.float x) = .float x ∧ ∀ n, (Decimal.shortest x).whole? = some n → ¬Fits n := by
  by_cases h : ∃ n, (Decimal.shortest x).whole? = some n ∧ Fits n
  · obtain ⟨n, hn, fits⟩ := h
    exact Or.inl ⟨n, fits, hn, reread_of_whole fits hn⟩
  · have hnone : ∀ n, (Decimal.shortest x).whole? = some n → ¬Fits n :=
      fun n hn fits => h ⟨n, hn, fits⟩
    exact Or.inr ⟨reread_float hnone, hnone⟩

/-! ### Zeros -/

theorem whole?_shortest_of_zero (h : x.units = 0) : (Decimal.shortest x).whole? = some 0 := by
  rw [Decimal.shortest_of_units_eq_zero h, Decimal.whole?_eq_some_iff]
  exact ⟨0, rfl, by simp⟩

theorem reread_of_zero (h : x.units = 0) : reread (.float x) = .int 0 (by decide) :=
  reread_of_whole _ (whole?_shortest_of_zero h)

/-- Only the shortest decimal of a zero is zero. -/
theorem units_eq_zero (h : (Decimal.shortest x).whole? = some 0) : x.units = 0 := by
  by_contra hunits
  obtain ⟨_, hdigits, _⟩ := Decimal.shortest_near rfl hunits
  obtain ⟨zeros, _, hzero⟩ := Decimal.whole?_eq_some_iff.1 h
  have hpos : 0 < (Decimal.shortest x).digits * 10 ^ zeros :=
    Nat.mul_pos (Nat.pos_of_ne_zero hdigits) (by positivity)
  split at hzero <;> omega

/-! ### The canonical text -/

theorem numberChars_float (hdigits : (Decimal.shortest x).digits ≠ 0) (l : Layout) :
    numberChars l (.float x) = (if (Decimal.shortest x).negative then ['-'] else []) ++
      l.magnitude (Decimal.shortest x).digits (Decimal.shortest x).exponent := by
  rw [numberChars, Layout.binary64, Layout.decimal, if_neg hdigits]

/-- A float that is reread as a whole number is written like it. -/
theorem numberChars_of_whole (fits : Fits n) (h : (Decimal.shortest x).whole? = some n) :
    numberChars .canonical (.float x) = numberChars .canonical (.int n fits) := by
  obtain ⟨zeros, hexponent, hn⟩ := Decimal.whole?_eq_some_iff.1 h
  obtain ⟨_, hnegative⟩ := Decimal.whole?_spec h
  rw [numberChars_int]
  by_cases hdigits : (Decimal.shortest x).digits = 0
  · rw [hdigits, Nat.zero_mul, Int.natCast_zero, Int.neg_zero, ite_self] at hn
    subst hn
    rw [numberChars, Layout.binary64, Layout.decimal, if_pos hdigits]
    simp [Layout.canonical]
  · have hpos : 0 < (Decimal.shortest x).digits * 10 ^ zeros :=
      Nat.mul_pos (Nat.pos_of_ne_zero hdigits) (by positivity)
    obtain ⟨hlow, hhigh⟩ := fits
    have habs : n.natAbs = (Decimal.shortest x).digits * 10 ^ zeros := by
      split at hn <;> omega
    rw [numberChars_float hdigits, hexponent, Decimal.magnitude_canonical hdigits (by omega),
      habs, hnegative (by omega)]

/-- The canonical text of a number is that of the number it is reread as. -/
theorem numberChars_reread (m : Number) :
    numberChars .canonical m.reread = numberChars .canonical m := by
  cases m with
  | int n fits => rfl
  | float x =>
    rcases reread_float_cases x with ⟨n, fits, hwhole, hreread⟩ | ⟨hreread, _⟩
    · rw [hreread, numberChars_of_whole fits hwhole]
    · rw [hreread]

/-- A float that is reread as itself is read back. -/
theorem readsBack_float (h : ∀ n, (Decimal.shortest x).whole? = some n → ¬Fits n) :
    (float x).ReadsBack .canonical := by
  have hunits : x.units ≠ 0 := fun hzero => h 0 (whole?_shortest_of_zero hzero) (by decide)
  obtain ⟨hsign, hdigits, _⟩ := Decimal.shortest_near rfl hunits
  obtain ⟨literal, hliteral, hnegative, hsize, hwhole⟩ := Literal.exists_literal_magnitude .canonical
    hdigits (Decimal.shortest x).exponent (Decimal.shortest x).negative
  have hread : (float x).literal? .canonical = some literal := by
    rw [literal?, numberChars_float hdigits, hliteral]
  have hliteralDigits : literal.value.digits ≠ 0 := by
    intro hzero
    rw [Decimal.size, hzero, Nat.cast_zero, zero_mul] at hsize
    have hpos : (0 : ℚ) < (Decimal.shortest x).digits * 10 ^ (Decimal.shortest x).exponent := by
      positivity
    exact hpos.ne hsize
  refine ⟨literal, hread, ?_⟩
  rw [Literal.number?, dif_neg, Decimal.toBinary64?_of_size_eq (hnegative.trans hsign)
    hliteralDigits hsize hunits]
  · rfl
  · rintro ⟨hintegral, _, fits⟩
    obtain ⟨zeros, hexponent, hvalue⟩ := hwhole hintegral
    refine h _ (Decimal.whole?_eq_some_iff.2 ⟨zeros, hexponent, ?_⟩) fits
    rw [hvalue]

theorem readsBack_reread (m : Number) : m.reread.ReadsBack .canonical := by
  cases m with
  | int n fits => exact readsBack_int _ n fits
  | float x =>
    rcases reread_float_cases x with ⟨n, fits, _, hreread⟩ | ⟨hreread, hnone⟩
    · rw [hreread]
      exact readsBack_int _ n fits
    · rw [hreread]
      exact readsBack_float hnone

/-! ### Numbers that are reread alike -/

/-- Numbers that have one canonical text: equal ones, two zeros, and a float beside the whole number
that its shortest decimal is. -/
def Alike : Number → Number → Prop
  | .int m _, .int n _ => m = n
  | .int m _, .float x => (Decimal.shortest x).whole? = some m
  | .float x, .int n _ => (Decimal.shortest x).whole? = some n
  | .float x, .float y => x = y ∨ x.units = 0 ∧ y.units = 0

/-- Two floats with the same whole number are equal, or both zero. -/
theorem eq_of_whole? {y : Binary64} (hx : (Decimal.shortest x).whole? = some n)
    (hy : (Decimal.shortest y).whole? = some n) : x = y ∨ x.units = 0 ∧ y.units = 0 := by
  by_cases hn : n = 0
  · subst hn
    exact Or.inr ⟨units_eq_zero hx, units_eq_zero hy⟩
  · obtain ⟨hsize, hnegative⟩ := Decimal.whole?_spec hx
    obtain ⟨hsize', hnegative'⟩ := Decimal.whole?_spec hy
    have hunits : ∀ {z : Binary64}, (Decimal.shortest z).whole? = some n → z.units ≠ 0 := by
      intro z hz hzero
      exact hn (Option.some.inj (hz.symm.trans (whole?_shortest_of_zero hzero)))
    obtain ⟨_, hdigits, _⟩ := Decimal.shortest_near rfl (hunits hx)
    obtain ⟨hsign, _, _⟩ := Decimal.shortest_near rfl (hunits hy)
    have hread := Decimal.toBinary64?_of_size_eq (d := Decimal.shortest x)
      ((hnegative hn).trans ((hnegative' hn).symm.trans hsign)) hdigits (hsize.trans hsize'.symm)
      (hunits hy)
    exact Or.inl (Option.some.inj ((Decimal.toBinary64?_shortest x).symm.trans hread))

theorem reread_eq_iff {a b : Number} : a.reread = b.reread ↔ Alike a b := by
  have hwhole : ∀ {m : Int} (fits : Fits m) (x : Binary64),
      reread (.float x) = .int m fits ↔ (Decimal.shortest x).whole? = some m := by
    intro m fits x
    refine ⟨fun h => ?_, reread_of_whole fits⟩
    rcases reread_float_cases x with ⟨n, _, hn, hreread⟩ | ⟨hreread, _⟩
    · rw [hreread] at h
      rw [hn, (Number.int.inj h)]
    · rw [hreread] at h
      cases h
  cases a with
  | int m fits =>
    cases b with
    | int n fits' => exact Number.int.injEq _ _ _ _ ▸ Iff.rfl
    | float y => exact eq_comm.trans (hwhole fits y)
  | float x =>
    cases b with
    | int n fits' => exact hwhole fits' x
    | float y =>
      refine ⟨fun h => ?_, ?_⟩
      · rcases reread_float_cases x with ⟨m, fits, hm, hx⟩ | ⟨hx, _⟩
        · exact eq_of_whole? hm ((hwhole fits y).1 (h.symm.trans hx))
        · rcases reread_float_cases y with ⟨n, fits, hn, hy⟩ | ⟨hy, _⟩
          · exact eq_of_whole? ((hwhole fits x).1 (h.trans hy)) hn
          · exact Or.inl (Number.float.inj (hx.symm.trans (h.trans hy)))
      · rintro (rfl | ⟨hx, hy⟩)
        · rfl
        · rw [reread_of_zero hx, reread_of_zero hy]

-- the float of the value 1152921504606847232 is alike to another integer than that
example : Alike (.int 1152921504606847200 (by decide)) (.float ⟨false, 1083, 1⟩) := by
  have hwhole : (Decimal.shortest ⟨false, 1083, 1⟩).whole? = some 1152921504606847200 := by
    decide +kernel
  exact hwhole

end Number

end TestJob
