import Mathlib
import TestJob.Decimal.Layout
import TestJob.Proofs.Decimal.Shortest
import TestJob.Proofs.Json.Token

/-!
Written decimals as numbers of a JSON text. Whatever the layout, a written decimal is a row of
digits, perhaps a fraction and perhaps an exponent (`Parts`), and is read as a decimal of the same
size (`exists_literal_magnitude`). It has the form of an integer only where its digits, with zeros
after them, are that integer.
-/

namespace TestJob.Json.Literal

/-! ### Rows of digits -/

theorem digits?_append {digits rest : List Char} (hdigits : ∀ c ∈ digits, c.isDigit = true)
    (hne : digits ≠ []) (hrest : ∀ c ∈ rest.head?, c.isDigit = false) :
    digits? (digits ++ rest) = some (digits, rest) := by
  have hnone : rest.takeWhile Char.isDigit = [] ∧ rest.dropWhile Char.isDigit = rest := by
    cases rest with
    | nil => exact ⟨rfl, rfl⟩
    | cons c rest =>
      have hc := hrest c rfl
      rw [List.takeWhile_cons, List.dropWhile_cons, hc]
      exact ⟨rfl, rfl⟩
  rw [digits?, List.takeWhile_append_of_pos hdigits, List.dropWhile_append_of_pos hdigits,
    hnone.1, hnone.2, List.append_nil, if_neg (by simpa using hne)]

theorem isDigit_of_mem_digits {n : Nat} : ∀ c ∈ Layout.digits n, c.isDigit = true := fun _ hc =>
  Nat.isDigit_of_mem_toDigits (by decide) (by decide) hc

theorem digits_ne_nil (n : Nat) : Layout.digits n ≠ [] := Nat.toDigits_ne_nil

/-- A digit is no sign. -/
theorem ne_sign_of_isDigit {c : Char} (hc : c.isDigit = true) : c ≠ '-' ∧ c ≠ '+' := by
  refine ⟨?_, ?_⟩ <;> rintro rfl <;> exact absurd hc (by decide)

theorem ofDigits_append_zeros (digits : List Char) (zeros : Nat) :
    Decimal.ofDigits (digits ++ List.replicate zeros '0') =
      Decimal.ofDigits digits * 10 ^ zeros := by
  have happend := Nat.ofDigitChars_append (b := 10) (l := digits) (m := List.replicate zeros '0') 0
  rw [Nat.ofDigitChars_replicate_zero, mul_comm] at happend
  exact happend

theorem ofDigits_zeros_append (digits : List Char) (zeros : Nat) :
    Decimal.ofDigits (List.replicate zeros '0' ++ digits) = Decimal.ofDigits digits := by
  have happend := Nat.ofDigitChars_append (b := 10) (l := List.replicate zeros '0') (m := digits) 0
  rw [Nat.ofDigitChars_replicate_zero, mul_zero] at happend
  exact happend

theorem ofDigits_digits (n : Nat) : Decimal.ofDigits (Layout.digits n) = n :=
  Token.ofDigits_toDigits n

/-! ### The parts of a number -/

/-- A fraction with its point, if there is one. -/
def point (fraction : List Char) : List Char := if fraction = [] then [] else '.' :: fraction

theorem digits?_digits (n : Nat) : digits? (Layout.digits n) = some (Layout.digits n, []) :=
  Token.digits?_toDigits n

theorem exponent?_digits (n : Nat) : exponent? ('e' :: Layout.digits n) = some (n : Int) := by
  rw [exponent?, if_pos (Or.inl rfl)]
  · simp [digits?_digits, ofDigits_digits]
  -- a digit is neither of the signs that are looked for first
  · intro rest heq
    exact (ne_sign_of_isDigit (isDigit_of_mem_digits '-' (heq ▸ List.mem_cons_self))).1 rfl
  · intro rest heq
    exact (ne_sign_of_isDigit (isDigit_of_mem_digits '+' (heq ▸ List.mem_cons_self))).2 rfl

theorem point_ne_nil {fraction : List Char} (h : fraction ≠ []) : point fraction ≠ [] := by
  rw [point, if_neg h]
  exact List.cons_ne_nil _ _

/-- An exponent is read as it was written. -/
theorem exponent?_exponentText (l : Layout) (e : Int) : exponent? (l.exponentText e) = some e := by
  cases e with
  | ofNat n =>
    rw [Layout.exponentText]
    split
    · have hread : exponent? ('e' :: '+' :: Layout.digits n) = some (n : Int) := by
        simp [exponent?, digits?_digits, ofDigits_digits]
      exact hread
    · exact exponent?_digits n
  | negSucc n =>
    have hread : exponent? ('e' :: '-' :: Layout.digits (n + 1)) = some (Int.negSucc n) := by
      simp [exponent?, digits?_digits, ofDigits_digits, Int.negSucc_eq]
    exact hread

theorem exponentText_ne_nil (l : Layout) (e : Int) : l.exponentText e ≠ [] := by
  rw [Layout.exponentText.eq_def]
  split
  · split <;> exact List.cons_ne_nil _ _
  · exact List.cons_ne_nil _ _

/-- A number in its parts: digits, a fraction, and an exponent with its mark, the last two of which
may be missing. -/
structure Parts (l : Layout) (cs whole fraction mark : List Char) (e : Int) : Prop where
  spelled : cs = whole ++ (point fraction ++ mark)
  whole_ne : whole ≠ []
  whole_digits : ∀ c ∈ whole, c.isDigit = true
  fraction_digits : ∀ c ∈ fraction, c.isDigit = true
  length_of_zero : whole.head? = some '0' → whole.length = 1
  marked : mark = [] ∧ e = 0 ∨ mark = l.exponentText e

namespace Parts

variable {l : Layout} {cs whole fraction mark : List Char} {e : Int}
  (h : Parts l cs whole fraction mark e)

include h

theorem exponent? : Literal.exponent? mark = some e := by
  rcases h.marked with ⟨rfl, rfl⟩ | rfl
  · rfl
  · exact exponent?_exponentText l e

/-- A number that is a whole part alone has no exponent. -/
theorem eq_zero_of_whole (hwhole : point fraction ++ mark = []) : fraction = [] ∧ e = 0 := by
  obtain ⟨hpoint, rfl⟩ := List.append_eq_nil_iff.1 hwhole
  refine ⟨?_, ?_⟩
  · by_contra hne
    exact point_ne_nil hne hpoint
  · exact h.marked.elim And.right fun hmark => absurd hmark.symm (exponentText_ne_nil l e)

theorem head?_mark : ∀ c ∈ mark.head?, c = 'e' := by
  rcases h.marked with ⟨rfl, _⟩ | rfl
  · simp
  · rw [Layout.exponentText.eq_def]
    split
    · split <;> simp
    · simp

theorem fraction? : Literal.fraction? (point fraction ++ mark) = some (fraction, mark) := by
  have hmark : ∀ c ∈ mark.head?, c.isDigit = false := by
    intro c hc
    rw [h.head?_mark c hc]
    rfl
  rw [point]
  split
  · next hnil =>
    subst hnil
    rw [List.nil_append, Literal.fraction?.eq_def]
    split
    · next hpoint => exact absurd (h.head?_mark '.' rfl) (by decide)
    · rfl
  · next hne => exact digits?_append h.fraction_digits hne hmark

/-- A number in its parts, with or without a minus, is read as their value. -/
theorem ofChars? (negative : Bool) :
    Literal.ofChars? ((if negative then ['-'] else []) ++ cs) =
      some ⟨⟨negative, Decimal.ofDigits (whole ++ fraction), e - fraction.length⟩,
        (point fraction ++ mark).isEmpty⟩ := by
  have hrest : ∀ c ∈ (point fraction ++ mark).head?, c.isDigit = false := by
    rw [point]
    split
    · intro c hc
      rw [h.head?_mark c hc]
      rfl
    · intro c hc
      rw [← Option.some.inj hc]
      rfl
  have hzero : ¬(whole.head? = some '0' ∧ whole.length ≠ 1) := fun hzero =>
    hzero.2 (h.length_of_zero hzero.1)
  have hdigits := digits?_append h.whole_digits h.whole_ne hrest
  rw [← h.spelled] at hdigits
  cases negative with
  | true =>
    rw [if_pos rfl, List.singleton_append, Literal.ofChars?]
    simp only [hdigits, h.fraction?, h.exponent?, if_neg hzero]
  | false =>
    rw [if_neg Bool.false_ne_true, List.nil_append, Literal.ofChars?]
    · simp only [hdigits, h.fraction?, h.exponent?, if_neg hzero]
    · rintro rest rfl
      obtain ⟨c, others, rfl⟩ := List.exists_cons_of_ne_nil h.whole_ne
      obtain ⟨rfl, _⟩ := List.cons.inj h.spelled
      exact (ne_sign_of_isDigit (h.whole_digits '-' List.mem_cons_self)).1 rfl

end Parts

/-! ### Written magnitudes -/

section Magnitude

variable {l : Layout} {n : Nat}

theorem head?_digits_ne (hn : n ≠ 0) : (Layout.digits n).head? ≠ some '0' := fun h =>
  hn (Token.eq_zero_of_head?_toDigits n h)

theorem isDigit_of_mem_zeros {zeros : Nat} : ∀ c ∈ List.replicate zeros '0', c.isDigit = true := by
  intro c hc
  rw [List.eq_of_mem_replicate hc]
  rfl

/-- A whole number with its zeros, and with the mark of a float if the layout has one. -/
theorem parts_whole (hn : n ≠ 0) (zeros : Nat) :
    Parts l (Layout.digits n ++ List.replicate zeros '0' ++ (if l.marksWhole then ['.', '0'] else []))
      (Layout.digits n ++ List.replicate zeros '0')
      (List.replicate (if l.marksWhole then 1 else 0) '0') [] 0 where
  spelled := by
    cases l.marksWhole <;> simp [point]
  whole_ne := List.append_ne_nil_of_left_ne_nil (digits_ne_nil n) _
  whole_digits := by
    intro c hc
    rcases List.mem_append.1 hc with hc | hc
    · exact isDigit_of_mem_digits c hc
    · exact isDigit_of_mem_zeros c hc
  fraction_digits := isDigit_of_mem_zeros
  length_of_zero := by
    rw [List.head?_append_of_ne_nil _ (digits_ne_nil n)]
    exact fun h => absurd h (head?_digits_ne hn)
  marked := Or.inl ⟨rfl, rfl⟩

/-- A point among the digits. -/
theorem parts_inside (hn : n ≠ 0) {whole : Nat} (hwhole : whole + 1 < (Layout.digits n).length) :
    Parts l ((Layout.digits n).take (whole + 1) ++ '.' :: (Layout.digits n).drop (whole + 1))
      ((Layout.digits n).take (whole + 1)) ((Layout.digits n).drop (whole + 1)) [] 0 where
  spelled := by
    have hdrop : (Layout.digits n).drop (whole + 1) ≠ [] := by
      rw [ne_eq, List.drop_eq_nil_iff]
      omega
    rw [point, if_neg hdrop, List.append_nil]
  whole_ne := by
    rw [ne_eq, List.take_eq_nil_iff]
    rintro (h | h)
    · omega
    · exact digits_ne_nil n h
  whole_digits := fun c hc => isDigit_of_mem_digits c (List.mem_of_mem_take hc)
  fraction_digits := fun c hc => isDigit_of_mem_digits c (List.mem_of_mem_drop hc)
  length_of_zero := by
    rw [List.head?_take, if_neg (Nat.succ_ne_zero whole)]
    exact fun h => absurd h (head?_digits_ne hn)
  marked := Or.inl ⟨rfl, rfl⟩

/-- Zeros between the point and the digits. -/
theorem parts_below (zeros : Nat) :
    Parts l ('0' :: '.' :: List.replicate zeros '0' ++ Layout.digits n) ['0']
      (List.replicate zeros '0' ++ Layout.digits n) [] 0 where
  spelled := by
    rw [point, if_neg (List.append_ne_nil_of_right_ne_nil _ (digits_ne_nil n)), List.append_nil]
    rfl
  whole_ne := List.cons_ne_nil _ _
  whole_digits := by
    intro c hc
    rw [List.mem_singleton.1 hc]
    rfl
  fraction_digits := by
    intro c hc
    rcases List.mem_append.1 hc with hc | hc
    · exact isDigit_of_mem_zeros c hc
    · exact isDigit_of_mem_digits c hc
  length_of_zero := fun _ => rfl
  marked := Or.inl ⟨rfl, rfl⟩

/-- One digit, the others after a point, and an exponent. -/
theorem parts_exponent (hn : n ≠ 0) (e : Int) :
    Parts l ((Layout.digits n).take 1 ++
        (if (Layout.digits n).tail.isEmpty then [] else '.' :: (Layout.digits n).tail) ++
        l.exponentText e)
      ((Layout.digits n).take 1) (Layout.digits n).tail (l.exponentText e) e where
  spelled := by
    rw [point, List.append_assoc]
    simp only [List.isEmpty_iff]
  whole_ne := by
    rw [ne_eq, List.take_eq_nil_iff]
    rintro (h | h)
    · omega
    · exact digits_ne_nil n h
  whole_digits := fun c hc => isDigit_of_mem_digits c (List.mem_of_mem_take hc)
  fraction_digits := fun c hc => isDigit_of_mem_digits c (List.mem_of_mem_tail hc)
  length_of_zero := by
    rw [List.head?_take, if_neg one_ne_zero]
    exact fun h => absurd h (head?_digits_ne hn)
  marked := Or.inr rfl

/-- The digits are kept, wherever the point stands among them. -/
theorem value_of_digits {whole fraction : List Char} {e exponent : Int}
    (hdigits : Decimal.ofDigits (whole ++ fraction) = n) (he : e - fraction.length = exponent) :
    (Decimal.ofDigits (whole ++ fraction) : ℚ) * 10 ^ (e - fraction.length) = n * 10 ^ exponent := by
  rw [hdigits, he]

theorem value_of_zeros (n zeros more : Nat) :
    (Decimal.ofDigits ((Layout.digits n ++ List.replicate zeros '0') ++ List.replicate more '0') :
        ℚ) * 10 ^ (0 - (List.replicate more '0').length : Int) = n * 10 ^ (zeros : Int) := by
  rw [ofDigits_append_zeros, ofDigits_append_zeros, ofDigits_digits, List.length_replicate,
    zero_sub, zpow_neg, zpow_natCast, zpow_natCast]
  push_cast
  field_simp

/-- A written magnitude has parts with the digits and the exponent of the decimal, up to zeros; with
a whole part alone it is written like an integer. -/
theorem exists_parts_magnitude (l : Layout) (hn : n ≠ 0) (exponent : Int) :
    ∃ whole fraction mark, ∃ e : Int, Parts l (l.magnitude n exponent) whole fraction mark e ∧
      (Decimal.ofDigits (whole ++ fraction) : ℚ) * 10 ^ (e - fraction.length) = n * 10 ^ exponent ∧
      (point fraction ++ mark = [] →
        ∃ zeros : Nat, exponent = zeros ∧ Decimal.ofDigits whole = n * 10 ^ zeros) := by
  have hlength : 0 < (Layout.digits n).length := List.length_pos_of_ne_nil (digits_ne_nil n)
  unfold Layout.magnitude
  dsimp only
  split
  · cases exponent with
    | ofNat zeros =>
      refine ⟨_, _, _, _, parts_whole hn zeros, value_of_zeros n zeros _, fun _ => ⟨zeros, rfl, ?_⟩⟩
      rw [ofDigits_append_zeros, ofDigits_digits]
    | negSucc below =>
      dsimp only
      split
      · next whole hfirst =>
        simp only [Int.ofNat_eq_natCast, Int.negSucc_eq] at hfirst
        refine ⟨_, _, _, _, parts_inside hn (by omega), value_of_digits ?_ ?_, fun hnil => ?_⟩
        · rw [List.take_append_drop, ofDigits_digits]
        · rw [List.length_drop, Int.negSucc_eq]
          omega
        · refine absurd (List.append_eq_nil_iff.1 hnil).1 (point_ne_nil ?_)
          rw [ne_eq, List.drop_eq_nil_iff]
          omega
      · next zeros hfirst =>
        rw [Int.negSucc_eq, Int.negSucc_eq] at hfirst
        refine ⟨_, _, _, _, parts_below zeros, value_of_digits ?_ ?_, fun hnil => ?_⟩
        · have hzeros := ofDigits_zeros_append (Layout.digits n) (zeros + 1)
          rw [ofDigits_digits] at hzeros
          exact hzeros
        · rw [List.length_append, List.length_replicate, Int.negSucc_eq]
          omega
        · exact absurd (List.append_eq_nil_iff.1 hnil).1
            (point_ne_nil (List.append_ne_nil_of_right_ne_nil _ (digits_ne_nil n)))
  · refine ⟨_, _, _, _, parts_exponent hn _, value_of_digits ?_ ?_, fun hnil => ?_⟩
    · rw [← List.drop_one, List.take_append_drop, ofDigits_digits]
    · rw [List.length_tail]
      omega
    · exact absurd (List.append_eq_nil_iff.1 hnil).2 (exponentText_ne_nil l _)

/-- A written magnitude, with or without a minus, is read as a decimal of its size. If it has the
form of an integer, it is read as its digits with zeros after them. -/
theorem exists_literal_magnitude (l : Layout) (hn : n ≠ 0) (exponent : Int) (negative : Bool) :
    ∃ literal : Literal,
      ofChars? ((if negative then ['-'] else []) ++ l.magnitude n exponent) = some literal ∧
      literal.value.negative = negative ∧
      literal.value.size = Decimal.size ⟨negative, n, exponent⟩ ∧
      (literal.integral = true →
        ∃ zeros : Nat, exponent = zeros ∧ literal.value = ⟨negative, n * 10 ^ zeros, 0⟩) := by
  obtain ⟨whole, fraction, mark, e, hparts, hsize, hwhole⟩ := exists_parts_magnitude l hn exponent
  refine ⟨_, hparts.ofChars? negative, rfl, hsize, fun hintegral => ?_⟩
  have hnil := List.isEmpty_iff.1 hintegral
  obtain ⟨zeros, hexponent, hvalue⟩ := hwhole hnil
  obtain ⟨rfl, rfl⟩ := hparts.eq_zero_of_whole hnil
  refine ⟨zeros, hexponent, ?_⟩
  rw [List.append_nil, hvalue]
  rfl

end Magnitude

end TestJob.Json.Literal
