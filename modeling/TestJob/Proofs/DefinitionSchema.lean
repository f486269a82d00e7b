import Mathlib
import TestJob.Proofs.Projection
import TestJob.Proofs.Validity
import TestJob.Reference.DefinitionSchema

/-!
The schema of job definitions and the checks of the fields. A field's schema accepts a value exactly
when the field finds no fault in it, floats apart: a schema knows no difference between `360` and
`360.0`. From this it follows which records the schema of a definition accepts.
-/

namespace TestJob

namespace DefinitionSchema

open FieldTable

/-! ### The schema of a field -/

/-- The schema of a text that must not be blank. -/
theorem accepts_notBlankText_iff {value : Json} :
    Field.notBlankText.Accepts value ↔ ∃ s, value = .str s ∧ Text.isBlank s = false := by
  have hdeclared : Field.notBlankText.declared = [] := rfl
  rw [Schema.accepts_iff, hdeclared]
  cases value with
  | str s =>
    have hblank : Text.isBlank s = false ↔ ∃ c ∈ s.toList, Text.isWhiteSpace c = false := by
      rw [← Bool.not_eq_true, Text.isBlank_iff]
      simp
    have hlength : (∃ c ∈ s.toList, Text.isWhiteSpace c = false) → 1 ≤ s.length := by
      rintro ⟨c, hc, _⟩
      exact List.length_pos_of_mem hc
    simpa [Field.notBlankText, Keyword.Allows, SchemaType.Describes, hblank] using hlength
  | _ => simp [Field.notBlankText, Keyword.Allows, SchemaType.Describes]

/-! ### Faults and schemas -/

theorem itemFault?_eq_none_iff {name : String} {before : List Json} {item : Json} :
    itemFault? name before item = none ↔ Field.notBlankText.Accepts item ∧ item ∉ before := by
  rw [accepts_notBlankText_iff]
  cases item with
  | str text =>
    simp only [itemFault?, ← Text.isBlank_iff_trim_eq]
    by_cases hblank : Text.isBlank text = true
    · simp [hblank]
    · by_cases hseen : Json.str text ∈ before <;> simp [hblank, hseen]
  | _ => simp [itemFault?]

/-- A list has no fault when each item is a text that is not blank, and no two are equal. -/
theorem listFault?_eq_none_iff {name : String} {items : List Json} :
    listFault? name items = none ↔
      (∀ item ∈ items, Field.notBlankText.Accepts item) ∧ items.Nodup := by
  have hindex : listFault? name items = none ↔
      ∀ index, ∀ h : index < items.length,
        Field.notBlankText.Accepts items[index] ∧ items[index] ∉ items.take index := by
    rw [listFault?, List.findSome?_eq_none_iff]
    simp only [itemFault?_eq_none_iff, Prod.forall, List.mem_zipIdx_iff_getElem?,
      List.getElem?_eq_some_iff]
    constructor
    · exact fun h index hlt => h _ index ⟨hlt, rfl⟩
    · rintro h item index ⟨hlt, hitem⟩
      rw [← hitem]
      exact h index hlt
  have hnodup : items.Nodup ↔ ∀ index, ∀ h : index < items.length,
      items[index] ∉ items.take index := by
    rw [List.Nodup, List.pairwise_iff_getElem]
    simp only [List.mem_take_iff_getElem, not_exists]
    constructor
    · intro h index hindex earlier hearlier
      exact h earlier index (by omega) hindex (by omega)
    · intro h earlier index hearlier hindex hlt
      exact h index hindex earlier (by omega)
  rw [hindex, hnodup, List.forall_mem_iff_forall_getElem]
  exact ⟨fun h => ⟨fun index hindex => (h index hindex).1, fun index hindex => (h index hindex).2⟩,
    fun h index hindex => ⟨h.1 index hindex, h.2 index hindex⟩⟩

theorem values_isOk_iff {record : Record} : ∀ {fields : List Field},
    (∃ settled, values record fields = .ok settled) ↔
      ∀ field ∈ fields, ∃ value, check record field = .ok value
  | [] => by
    refine iff_of_true ⟨[], rfl⟩ (by simp)
  | field :: rest => by
    rw [List.forall_mem_cons, ← values_isOk_iff]
    simp only [values, bind_eq_ok_iff]
    constructor
    · rintro ⟨_, value, hvalue, others, hothers, _⟩
      exact ⟨⟨value, hvalue⟩, others, hothers⟩
    · rintro ⟨⟨value, hvalue⟩, others, hothers⟩
      exact ⟨_, value, hvalue, others, hothers, rfl⟩

/-- A record is accepted when each field passes its check and nothing is there but fields. -/
theorem normalize_isOk_iff {record : Record} :
    (∃ d, record.normalize = .ok d) ↔
      (∀ field ∈ Field.all, ∃ value, check record field = .ok value) ∧ undeclared record = [] := by
  rw [← values_isOk_iff]
  constructor
  · rintro ⟨d, hd⟩
    obtain ⟨hvalues, hundeclared⟩ := interpret_eq_ok_iff.1 (normalize_eq_ok_iff.1 hd)
    exact ⟨⟨_, hvalues⟩, hundeclared⟩
  · rintro ⟨⟨settled, hvalues⟩, hundeclared⟩
    have hsettled := interpret_eq_ok_iff.2 ⟨hvalues, hundeclared⟩
    rw [← fields_normalize] at hsettled
    cases hnormalize : record.normalize with
    | ok d => exact ⟨d, rfl⟩
    | error fault =>
      rw [hnormalize] at hsettled
      cases hsettled

/-! ### Records -/

/-- A value that is there and is not null stands for its field. -/
theorem lookup_of_find? {record : Record} {name : String} {value : Json}
    (h : Members.find? name record = some value) (hnull : value ≠ .null) :
    record.lookup name = some value := by
  rw [Record.lookup, h]
  cases value with
  | null => exact absurd rfl hnull
  | _ => rfl

/-- The whole numbers of a definition. -/
def wholeNumbers : List String := [FieldName.concurrentBuilds, FieldName.timeoutMinutes]

open Projection (sample sampleDescriptor)

end DefinitionSchema

end TestJob
