import Mathlib
import TestJob.Proofs.FieldTypes
import TestJob.Proofs.FirstFault
import TestJob.Proofs.Toml.Shape

/-!
What becomes of the data of a TOML document. Each key of the document stands in the record with a
value that mirrors the one that was written, and since no mirror is null, no check takes the key for
an absent one (`exists_lookup`). A document without dates, times and floats that JSON does not have
is judged as the same data would be that was written as JSON (`exists_sameData`).
-/

namespace TestJob

namespace FieldTable

theorem listFault?_ne_missingField (name : String) (items : List Json) (key : String) :
    listFault? name items ≠ some (.missingField key) := by
  intro h
  obtain ⟨⟨item, index⟩, _, hfault⟩ := List.exists_of_findSome?_eq_some h
  change itemFault? name (items.take index) item = some _ at hfault
  rw [itemFault?.eq_def] at hfault
  split at hfault
  · split_ifs at hfault <;> cases hfault
  · cases hfault

/-- What is wrong with a value is never that there is none. -/
theorem fault?_ne_missingField (field : Field) (value : Json) (key : String) :
    fault? field value ≠ some (.missingField key) := by
  rw [fault?.eq_def]
  split
  · split_ifs <;> simp
  · split_ifs <;> simp
  · simp
  · exact listFault?_ne_missingField _ _ key
  · simp
  · simp

/-- A field is missing where nothing or null is given. -/
theorem lookup_of_missingField {record : Record} {key : String}
    (h : record.normalize = .error (.missingField key)) : record.lookup key = none := by
  rcases faultAt?_cases (first_of_normalize_error h).1 with ⟨field, _, _, hcheck⟩ | ⟨_, hfault⟩
  · rw [check_eq] at hcheck
    cases hlookup : record.lookup field.name with
    | some value =>
      simp only [hlookup, settle] at hcheck
      cases hfault : fault? field value with
      | none => simp [hfault] at hcheck
      | some fault =>
        simp only [hfault, Except.error.injEq] at hcheck
        exact absurd (hcheck ▸ hfault) (fault?_ne_missingField field value key)
    | none =>
      cases hdefault : field.default with
      | some default => simp [hlookup, hdefault] at hcheck
      | none =>
        simp only [hlookup, hdefault, Except.error.injEq, NormalizeError.missingField.injEq]
          at hcheck
        exact hcheck ▸ hlookup
  · cases hfault

end FieldTable

namespace Definition

open Toml (Mirrors Datetime)

variable {text : String} {members : List (String × Toml)} {definition : Definition}
  (hread : Toml.read? text = some members)

include hread

section Parsed

variable (h : parse text .toml = .ok definition)

include h

theorem mirrors_record :
    Mirrors (some ∘ Datetime.text) (.table members) (.obj definition.record) :=
  (Toml.toJson_eq_ok_iff _).1 ((parse_eq_ok_iff hread).1 h).1

/-- Each key of a document has a value in the record that mirrors the one that was written. -/
theorem exists_lookup {m : String × Toml} (hm : m ∈ members) :
    ∃ json, Mirrors (some ∘ Datetime.text) m.2 json ∧
      definition.record.lookup m.1 = some json := by
  obtain ⟨_, hrecord, hforall⟩ := Toml.mirrors_table_iff.1 (mirrors_record hread h)
  obtain rfl := Json.obj.inj hrecord
  obtain ⟨v, hv, hkey, hmirrors⟩ := Json.exists_mem_of_forall₂ hforall.flip m hm
  have hascending := (Json.ordered_obj.1 (ordered_parse h)).1
  have hfind : Members.find? m.1 definition.record = some v.2 :=
    Members.find?_eq_some_of_mem hascending.nodup_keys (hkey ▸ hv)
  have hnull : v.2.isNull = false := by
    cases hvalue : v.2 with
    | null => exact absurd (hvalue ▸ .here) hmirrors.not_occurs_null
    | _ => rfl
  refine ⟨v.2, hmirrors, ?_⟩
  simp [Record.lookup, hfind, hnull]

end Parsed

/-- A document that JSON has everything of is one record, which is judged as if it were written. -/
theorem exists_sameData (hdates : ∀ date, ¬Toml.Occurs (.datetime date) (.table members))
    (hfloats : ∀ x, Toml.Occurs (.float x) (.table members) → x.nonFinite? = none) :
    ∃ record : Record, (∀ json, Toml.SameData (.table members) json ↔ json = .obj record) ∧
      (parse text .toml >>= toDescriptor) = record.normalize.mapError .rejected := by
  cases hjson : (Toml.table members).toJson with
  | error e =>
    obtain ⟨x, e', hx, he'⟩ := Toml.exists_toJson_eq_error_iff.1 ⟨e, hjson⟩
    simp [hfloats x hx] at he'
  | ok json =>
    obtain ⟨record, rfl, _⟩ := Toml.toJson_table_eq_ok_iff.1 hjson
    refine ⟨record, fun json => ?_, ?_⟩
    · rw [Toml.sameData_iff hdates, ← Toml.toJson_eq_ok_iff, hjson, Except.ok.injEq, eq_comm]
    · have hparse : parse text .toml = .ok (ofRecord record) :=
        (parse_eq_ok_iff hread).2 ⟨hjson, rfl⟩
      rw [hparse]
      rfl

omit hread

/-- A conversion to JSON fails when a float that JSON does not have stands in the value, at any
depth, and then for the first of them. Otherwise it gives the JSON value of the same shape with the
same data, where dates and times are their texts, and in which no null stands at any depth. The
tables of a document have their keys in ascending order; a document that has no conversion makes no
definition; and a definition has, for every key of its document, the value that was written, which
is never taken for an absent one and never replaced by a default. A document without dates, times
and floats that JSON does not have is judged as the record with the same data. -/
theorem toml_data_kept :
    (∀ value : Toml,
      ((∃ e, value.toJson = .error e) ↔
        ∃ x e, Toml.Occurs (.float x) value ∧ x.nonFinite? = some e) ∧
      (∀ e, value.toJson = .error e ↔ value.FirstNonFinite e) ∧
      ∀ json, (value.toJson = .ok json ↔ Mirrors (some ∘ Datetime.text) value json) ∧
        (value.toJson = .ok json → ¬Json.Occurs .null json)) ∧
    ∀ text members, Toml.read? text = some members →
      (∀ table, Toml.Occurs (.table table) (.table members) → Members.Ascending table) ∧
      (∀ e, (Toml.table members).toJson = .error e →
        parse text .toml = .error (.invalid (.notFinite e))) ∧
      (∀ definition, parse text .toml = .ok definition → ∀ m ∈ members, ∃ json,
        Mirrors (some ∘ Datetime.text) m.2 json ∧
        definition.record.lookup m.1 = some json ∧
        definition.record.normalize ≠ .error (.missingField m.1) ∧
        ∀ d, definition.toDescriptor = .ok d → Members.find? m.1 d.toRecord = some json) ∧
      ((∀ date, ¬Toml.Occurs (.datetime date) (.table members)) →
        (∀ x, Toml.Occurs (.float x) (.table members) → x.nonFinite? = none) →
        ∃ record : Record, (∀ json, Toml.SameData (.table members) json ↔ json = .obj record) ∧
          (parse text .toml >>= toDescriptor) = record.normalize.mapError .rejected) := by
  constructor
  · intro value
    refine ⟨Toml.exists_toJson_eq_error_iff, fun e => Toml.toJson_eq_error_iff_first,
      fun json => ⟨Toml.toJson_eq_ok_iff value, fun h => ?_⟩⟩
    exact ((Toml.toJson_eq_ok_iff value).1 h).not_occurs_null
  · intro text members hread
    refine ⟨fun table => Toml.ascending_of_occurs hread, fun e => parse_of_toJson_error hread,
      fun definition h m hm => ?_, exists_sameData hread⟩
    obtain ⟨json, hmirrors, hlookup⟩ := exists_lookup hread h hm
    refine ⟨json, hmirrors, hlookup, fun hmissing => ?_, fun d hd => ?_⟩
    · simp [FieldTable.lookup_of_missingField hmissing] at hlookup
    · exact Projection.find?_toRecord_of_lookup (mapError_eq_ok_iff.1 hd) hlookup

/-- A document with arrays and tables in one another. -/
def nested : String :=
  linesText [ "[environment]", "limits = [[1], \x7bretries = 3\x7d]", "verbose = true" ]

/-- Its table. -/
def nestedMembers : List (String × Toml) :=
  [ (FieldName.environment, .table
      [ ("limits", .array [.array [.integer 1 (by decide)],
          .table [("retries", .integer 3 (by decide))]]),
        ("verbose", .boolean true) ]) ]

/-- Its record. -/
def nestedRecord : Record :=
  [ (FieldName.environment, .obj
      [ ("limits", .arr [.arr [.num (.ofUInt32 1)], .obj [("retries", .num (.ofUInt32 3))]]),
        ("verbose", .bool true) ]) ]

theorem read?_nested : Toml.read? nested = some nestedMembers := by
  rw [nested, linesText, Toml.read?, readWritten?_ofList]
  cbv

theorem toml_data_kept_nested :
    parse nested .toml = .ok (ofRecord nestedRecord) ∧
      Toml.SameData (.table nestedMembers) (.obj nestedRecord) ∧
      (∃ json, nestedRecord.lookup FieldName.environment = some json ∧
        Mirrors (some ∘ Datetime.text) nestedMembers[0].2 json) ∧
      (parse nested .toml >>= toDescriptor) =
        .error (.rejected (.missingField FieldName.amiImageId)) := by
  have hdates : ∀ date, ¬Toml.Occurs (.datetime date) (.table nestedMembers) := by
    simp [nestedMembers, Toml.occurs_table_iff, Toml.occurs_array_iff, Toml.occurs_leaf_iff]
  have hfloats : ∀ x, ¬Toml.Occurs (.float x) (.table nestedMembers) := by
    simp [nestedMembers, Toml.occurs_table_iff, Toml.occurs_array_iff, Toml.occurs_leaf_iff]
  have hjson : (Toml.table nestedMembers).toJson = .ok (.obj nestedRecord) := rfl
  have hparse : parse nested .toml = .ok (ofRecord nestedRecord) :=
    (parse_eq_ok_iff read?_nested).2 ⟨hjson, rfl⟩
  obtain ⟨_, _, hkeys, hsame⟩ := toml_data_kept.2 nested nestedMembers read?_nested
  obtain ⟨json, hmirrors, hlookup, _⟩ := hkeys _ hparse _ List.mem_cons_self
  obtain ⟨record, hrecord, hjudged⟩ := hsame hdates fun x hx => absurd hx (hfloats x)
  have hnested : Toml.SameData (.table nestedMembers) (.obj nestedRecord) :=
    (Toml.sameData_iff hdates).2 ((Toml.toJson_eq_ok_iff _).1 hjson)
  obtain rfl := Json.obj.inj ((hrecord _).1 hnested)
  refine ⟨hparse, hnested, ⟨json, hlookup, hmirrors⟩, hjudged.trans ?_⟩
  rfl

end Definition

end TestJob
