import Mathlib

/-!
Steps that may fail, one after the other.
-/

namespace TestJob

variable {ε α β : Type}

/-- Two steps succeed when the first does, and the second on its value. -/
theorem bind_eq_ok_iff {x : Except ε α} {f : α → Except ε β} {b : β} :
    x >>= f = .ok b ↔ ∃ a, x = .ok a ∧ f a = .ok b := by
  cases x with
  | error e => exact iff_of_false nofun (by rintro ⟨_, ⟨⟩, _⟩)
  | ok a =>
    constructor
    · exact fun h => ⟨a, rfl, h⟩
    · rintro ⟨_, ⟨⟩, h⟩
      exact h

/-- A step whose failures are told otherwise succeeds as before. -/
theorem mapError_eq_ok_iff {δ : Type} {x : Except ε α} {f : ε → δ} {a : α} :
    x.mapError f = .ok a ↔ x = .ok a := by
  cases x <;> simp [Except.mapError]

/-- A walk succeeds when its first step does, and the rest from there. -/
theorem foldlM_cons_eq_ok_iff {f : β → α → Except ε β} {x : α} {xs : List α} {s t : β} :
    (x :: xs).foldlM f s = .ok t ↔ ∃ r, f s x = .ok r ∧ xs.foldlM f r = .ok t := by
  rw [List.foldlM_cons, bind_eq_ok_iff]

/-- Two outcomes that succeed alike, with the same value, give the same. -/
theorem toOption_eq_of_iff {δ : Type} {x : Except ε α} {y : Except δ α}
    (hiff : (∃ value, x = .ok value) ↔ ∃ value, y = .ok value)
    (hvalue : ∀ value other, x = .ok value → y = .ok other → value = other) :
    x.toOption = y.toOption := by
  cases x with
  | error e =>
    cases y with
    | error e' => rfl
    | ok other =>
      obtain ⟨_, hok⟩ := hiff.2 ⟨other, rfl⟩
      cases hok
  | ok value =>
    obtain ⟨other, hother⟩ := hiff.1 ⟨value, rfl⟩
    rw [hother, hvalue value other rfl hother]
    rfl

end TestJob
