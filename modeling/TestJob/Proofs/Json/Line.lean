import Mathlib
import TestJob.Proofs.Json.Writer
import TestJob.Proofs.Text

/-!
Written values stay on one line. What is written for a value is put together of its marks and words,
its numbers and its texts, so a property of these that passes to rows of them holds of the whole
(`Composes.chars`). Texts escape every character below U+0020 and all else is written with
characters from there on (`Printable.composes`), so what is written for a value holds no end of a
line (`newline_not_mem_compact`).
-/

namespace TestJob.Json

/-! ### Parts of a written value -/

/-- A property of rows of characters that passes to a row of two, and that the marks, words and
texts of written values have. -/
structure Composes (p : List Char → Prop) : Prop where
  nil : p []
  append : ∀ {cs ds : List Char}, p cs → p ds → p (cs ++ ds)
  mark : ∀ c ∈ ['[', ']', '{', '}', ':', ','], p [c]
  null : p ['n', 'u', 'l', 'l']
  yes : p ['t', 'r', 'u', 'e']
  no : p ['f', 'a', 'l', 's', 'e']
  quote : ∀ s, p (quote s)

namespace Composes

variable {p : List Char → Prop} (h : Composes p)

include h

theorem intercalate :
    ∀ {parts : List (List Char)}, (∀ part ∈ parts, p part) → p (List.intercalate [','] parts)
  | [], _ => h.nil
  | [part], hparts => by
    rw [List.intercalate_singleton]
    exact hparts part List.mem_cons_self
  | part :: next :: rest, hparts => by
    obtain ⟨hpart, hrest⟩ := List.forall_mem_cons.1 hparts
    rw [List.intercalate_cons_cons]
    exact h.append (h.append hpart (h.mark ',' (by decide))) (intercalate hrest)

theorem bracket {first last : Char} (hfirst : p [first]) (hlast : p [last])
    {parts : List (List Char)} (hparts : ∀ part ∈ parts, p part) :
    p (Json.bracket first last parts) :=
  h.append (h.append hfirst (h.intercalate hparts)) hlast

/-- A property of the parts of a written value is one of the whole, if its numbers have it. -/
theorem chars {l : Layout} (value : Json) :
    EachNumber (fun n => p (numberChars l n)) value → p (Json.chars l id value) := by
  induction value using Json.induction with
  | null => exact fun _ => h.null
  | bool b =>
    cases b with
    | true => exact fun _ => h.yes
    | false => exact fun _ => h.no
  | num n => exact id
  | str s => exact fun _ => h.quote s
  | arr items ih =>
    rw [eachNumber_arr, chars_arr]
    intro hitems
    refine h.bracket (h.mark '[' (by decide)) (h.mark ']' (by decide)) ?_
    exact List.forall_mem_map.2 fun item hitem => ih item hitem (hitems item hitem)
  | obj members ih =>
    rw [eachNumber_obj, chars_obj, id, List.map_map]
    intro hmembers
    refine h.bracket (h.mark '{' (by decide)) (h.mark '}' (by decide)) ?_
    refine List.forall_mem_map.2 fun m hm => h.append (h.quote m.1) ?_
    exact h.append (h.mark ':' (by decide)) (ih m hm (hmembers m hm))

end Composes

/-! ### Printable characters -/

/-- Characters that take up room on a line. -/
def Printable (cs : List Char) : Prop := ∀ c ∈ cs, 0x20 ≤ c.toNat

instance (cs : List Char) : Decidable (Printable cs) :=
  List.decidableBAll (fun c : Char => 0x20 ≤ c.toNat) cs

theorem Printable.append {cs ds : List Char} (hcs : Printable cs) (hds : Printable ds) :
    Printable (cs ++ ds) :=
  List.forall_mem_append.2 ⟨hcs, hds⟩

theorem Printable.newline_not_mem {cs : List Char} (h : Printable cs) : '\n' ∉ cs :=
  fun hmem => absurd (h '\n' hmem) (by decide)

/-- The bytes of printable characters are no smaller than they are. -/
theorem Printable.le_of_mem_encode {s : String} (h : Printable s.toList) :
    ∀ b ∈ Utf8.encode s, 0x20 ≤ b := by
  intro b hb
  by_contra hlow
  have hlt : b.toNat < 0x20 := UInt8.lt_iff_toNat_lt.1 (UInt8.not_le.1 hlow)
  have hchar := h _ (Utf8.mem_of_mem_encode hb (by omega))
  have hvalid : b.toNat.isValidChar := .inl (by omega)
  rw [Char.toNat_ofNat, if_pos hvalid] at hchar
  omega

theorem printable_digitChar : ∀ d < 16, 0x20 ≤ (Nat.digitChar d).toNat := by decide

theorem printable_escape (c : Char) : Printable (escape c) := by
  rw [escape.eq_def]
  split
  case h_8 =>
    split_ifs with hlow
    · have hhigh := printable_digitChar (c.toNat / 16) (by omega)
      have hrest := printable_digitChar (c.toNat % 16) (by omega)
      have hopening : Printable ['\\', 'u', '0', '0'] := by decide
      exact hopening.append (by simp [Printable, hhigh, hrest])
    · simpa [Printable] using hlow
  all_goals decide

theorem printable_quote (s : String) : Printable (quote s) := by
  have hmark : Printable ['"'] := by decide
  refine (hmark.append fun c hc => ?_).append hmark
  obtain ⟨d, _, hd⟩ := List.mem_flatMap.1 hc
  exact printable_escape d c hd

theorem Printable.composes : Composes Printable where
  nil := by decide
  append := Printable.append
  mark c hc :=
    have hmarks : Printable ['[', ']', '{', '}', ':', ','] := by decide
    List.forall_mem_singleton.2 (hmarks c hc)
  null := by decide
  yes := by decide
  no := by decide
  quote := printable_quote

theorem printable_of_isDigit {c : Char} (h : c.isDigit = true) : 0x20 ≤ c.toNat := by
  rw [Char.isDigit, Bool.and_eq_true, decide_eq_true_eq] at h
  have hzero : (48 : UInt32).toNat ≤ c.toNat := UInt32.le_iff_toNat_le.1 h.1
  exact Nat.le_trans (by decide) hzero

theorem Numeric.printable {cs : List Char} (h : Numeric cs) : Printable cs := by
  intro c hc
  rcases h c hc with hdigit | rfl | rfl | rfl | rfl
  · exact printable_of_isDigit hdigit
  all_goals decide

/-- A value is written with printable characters alone. -/
theorem printable_chars (l : Layout) (value : Json) : Printable (chars l id value) :=
  Printable.composes.chars value (.of_forall fun n => (Numeric.numberChars l n).printable)

theorem printable_compact (value : Json) : Printable value.compact.toList := by
  rw [compact, String.toList_ofList]
  exact printable_chars _ value

theorem newline_not_mem_compact (value : Json) : '\n' ∉ value.compact.toList :=
  (printable_compact value).newline_not_mem

end TestJob.Json
