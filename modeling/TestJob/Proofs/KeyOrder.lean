import Mathlib
import TestJob.Json.Writer
import TestJob.Proofs.Text

/-!
Two orders of keys. Canonical texts go by the bytes of the keys as they are written, with their
quotes and escapes (`Json.WrittenBefore`); the canonical form that the hand-off is documented to
have goes by the UTF-16 code units of the keys themselves (`Utf16.Before`). The two are one order on
keys whose characters are written as they stand, come after the closing quote and are a code unit
each (`writtenBefore_iff`).
-/

namespace TestJob

/-! ### Code units -/

namespace Utf16

/-- The UTF-16 code units of a character: itself or, from U+10000 on, two surrogates. -/
def unitsOfChar (c : Char) : List Nat :=
  if c.toNat < 0x10000 then [c.toNat]
  else [0xD800 + (c.toNat - 0x10000) / 0x400, 0xDC00 + (c.toNat - 0x10000) % 0x400]

/-- The UTF-16 code units of a text. -/
def units (s : String) : List Nat := s.toList.flatMap unitsOfChar

/-- One text comes before another by code units. -/
def Before (s t : String) : Prop := units s < units t

instance (s t : String) : Decidable (Before s t) := inferInstanceAs (Decidable (_ < _))

theorem units_eq {s : String} (h : ∀ c ∈ s.toList, c.toNat < 0x10000) :
    units s = s.toList.map Char.toNat := by
  rw [units, List.map_eq_flatMap]
  exact List.flatMap_congr fun c hc => if_pos (h c hc)

end Utf16

theorem map_toNat_lt_iff {cs ds : List Char} :
    cs.map Char.toNat < ds.map Char.toNat ↔ cs < ds := by
  have mono : ∀ {cs ds : List Char}, cs < ds → cs.map Char.toNat < ds.map Char.toNat := fun h =>
    List.map_lt (fun _ _ hlt => hlt) h
  refine ⟨fun h => ?_, mono⟩
  rcases lt_trichotomy cs ds with hlt | rfl | hgt
  · exact hlt
  · exact absurd h (List.lt_irrefl _)
  · exact absurd h (List.lt_asymm (mono hgt))

/-! ### Written keys -/

/-- A mark after both of two rows changes nothing, if it is lower than all that stands in them. -/
theorem append_mark_lt_iff {mark : Char} :
    ∀ {cs ds : List Char}, (∀ c ∈ cs, mark < c) → (∀ d ∈ ds, mark < d) →
      (cs ++ [mark] < ds ++ [mark] ↔ cs < ds)
  | [], [], _, _ => by simp
  -- where the one row ends, its mark is compared with a higher character of the other
  | [], d :: ds, _, hds => by
    have hd := hds d List.mem_cons_self
    simp [List.cons_lt_cons_iff, hd]
  | c :: cs, [], hcs, _ => by
    have hc := hcs c List.mem_cons_self
    simp [List.cons_lt_cons_iff, hc.not_gt, hc.ne']
  | c :: cs, d :: ds, hcs, hds => by
    obtain ⟨_, hcs⟩ := List.forall_mem_cons.1 hcs
    obtain ⟨_, hds⟩ := List.forall_mem_cons.1 hds
    rw [List.cons_append, List.cons_append, List.cons_lt_cons_iff, List.cons_lt_cons_iff,
      append_mark_lt_iff hcs hds]

namespace Json

/-- One key comes before another by the bytes of what is written for them. -/
def WrittenBefore (key other : String) : Prop :=
  Utf8.encode (String.ofList (quote key)) < Utf8.encode (String.ofList (quote other))

instance (key other : String) : Decidable (WrittenBefore key other) :=
  inferInstanceAs (Decidable (_ < _))

theorem writtenBefore_iff_quote_lt {key other : String} :
    WrittenBefore key other ↔ quote key < quote other := by
  rw [WrittenBefore, Utf8.encode_lt_iff, String.lt_iff_toList_lt, String.toList_ofList,
    String.toList_ofList]

/-- Every character comes after the quote, is no backslash and comes before the surrogates. -/
def PlainKey (key : String) : Prop :=
  ∀ c ∈ key.toList, 0x23 ≤ c.toNat ∧ c ≠ '\\' ∧ c.toNat ≤ 0xD7FF

instance (key : String) : Decidable (PlainKey key) :=
  List.decidableBAll (fun c : Char => 0x23 ≤ c.toNat ∧ c ≠ '\\' ∧ c.toNat ≤ 0xD7FF) key.toList

theorem escape_eq_self {c : Char} (hlow : 0x23 ≤ c.toNat) (hbackslash : c ≠ '\\') :
    escape c = [c] := by
  rw [escape.eq_def]
  split
  case h_2 => exact absurd rfl hbackslash
  case h_8 => exact if_neg (by omega)
  all_goals exact absurd hlow (by decide)

namespace PlainKey

variable {key other : String}

theorem quote_eq (h : PlainKey key) : quote key = '"' :: (key.toList ++ ['"']) := by
  have hbody : key.toList.flatMap escape = key.toList.flatMap fun c => [c] :=
    List.flatMap_congr fun c hc => escape_eq_self (h c hc).1 (h c hc).2.1
  rw [quote, hbody, List.flatMap_singleton', List.cons_append]

theorem quote_lt (h : PlainKey key) : ∀ c ∈ key.toList, '"' < c := fun c hc => (h c hc).1

theorem units_eq (h : PlainKey key) : Utf16.units key = key.toList.map Char.toNat :=
  Utf16.units_eq fun c hc => Nat.lt_of_le_of_lt (h c hc).2.2 (by decide)

/-- On plain keys the order of what is written is the order of code units. -/
theorem writtenBefore_iff (hkey : PlainKey key) (hother : PlainKey other) :
    WrittenBefore key other ↔ Utf16.Before key other := by
  rw [writtenBefore_iff_quote_lt, hkey.quote_eq, hother.quote_eq, List.cons_lt_cons_iff]
  rw [Utf16.Before, hkey.units_eq, hother.units_eq, map_toNat_lt_iff,
    append_mark_lt_iff hkey.quote_lt hother.quote_lt]
  simp

end PlainKey

/-- Elsewhere the orders differ: below U+0023 by the closing quote, and above the surrogates. -/
example : WrittenBefore "a!" "a" ∧ Utf16.Before "a" "a!" ∧
    WrittenBefore "\uFFFD" "𐀀" ∧ Utf16.Before "𐀀" "\uFFFD" := by decide

end Json

end TestJob
