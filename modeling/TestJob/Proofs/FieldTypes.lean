import Mathlib
import TestJob.Proofs.FieldTable
import TestJob.Proofs.Parsing

/-!
The types of fields in TOML documents. Whatever a document gives for a field has the type that the
kind of the field declares, where a date or time counts as the text it becomes; a value of another
type is a type mismatch of that field, unless an earlier check fails (`types_kept`). That a date is
not told from a text is seen in `date_fills_text_field`.
-/

namespace TestJob

/-! ### Kinds of fields and kinds of values -/

/-- The kind of value that a kind of field takes. -/
def FieldKind.value : FieldKind → ValueKind
  | string => .string
  | integer _ => .integer
  | boolean => .boolean
  | stringList => .sequence
  | mapping => .mapping

namespace FieldTable

/-- A value of another kind is a type mismatch, whatever else a field asks. -/
theorem fault?_of_kind_ne {field : Field} {value : Json}
    (h : ValueKind.of value ≠ field.kind.value) :
    fault? field value = some (.typeMismatch field.name field.kind.label (.of value)) := by
  obtain ⟨name, kind, default, description⟩ := field
  cases value with
  | num n => cases n <;> cases kind <;> first | rfl | exact absurd rfl h
  | _ => cases kind <;> first | rfl | exact absurd rfl h

theorem fault?_list {field : Field} (h : field.kind = .stringList) (items : List Json) :
    fault? field (.arr items) = listFault? field.name items := by
  rw [fault?.eq_def, h]

theorem itemFault?_of_kind_ne {name : String} {before : List Json} {value : Json}
    (h : ValueKind.of value ≠ .string) :
    itemFault? name before value =
      some (.typeMismatch (Record.itemName name before.length) FieldKind.string.label
        (.of value)) := by
  cases value with
  | str s => exact absurd rfl h
  | _ => rfl

/-- The check of a field that is there, and not null, is that of its value. -/
theorem check_of_find? {record : Record} {field : Field} {value : Json}
    (h : Members.find? field.name record = some value) (hnull : ValueKind.of value ≠ .null) :
    check record field = settle field value := by
  have hlookup : record.lookup field.name = some value := by
    rw [Record.lookup, h, Option.filter_some, if_pos]
    cases value <;> first | rfl | exact absurd rfl hnull
  rw [check_eq, hlookup]

end FieldTable

/-! ### Types in a document -/

namespace Toml.Written

/-- Texts, dates and times, the latter also in the form of a table. -/
def IsText : Written → Prop
  | .string _ => True
  | .datetime _ => True
  | .table members => IsDate members
  | _ => False

/-- The types that a kind of field declares. -/
def OfKind : FieldKind → Written → Prop
  | .string, written => written.IsText
  | .integer _, .integer _ => True
  | .boolean, .boolean _ => True
  | .stringList, .array items => ∀ item ∈ items, item.IsText
  | .mapping, .table members => ¬IsDate members
  | _, _ => False

theorem isText_iff {written : Written} : written.IsText ↔ written.kind = .string := by
  cases written with
  | table members =>
    rw [IsText, kind]
    split <;> simp [*]
  | _ => simp [IsText, kind]

/-- A value is of the types that a kind of field declares when its own kind is right, and in a list
of texts also that of each item. -/
theorem ofKind_iff {field : FieldKind} {written : Written} :
    written.OfKind field ↔ written.kind = field.value ∧
      ∀ items, field = .stringList → written = .array items → ∀ item ∈ items, item.IsText := by
  -- a table is the one type whose kind depends on what it holds
  cases field with
  | string => simp [OfKind, isText_iff, FieldKind.value]
  | stringList => cases written <;> simp [OfKind, kind, FieldKind.value]; split <;> simp
  | mapping => cases written <;> simp [OfKind, kind, FieldKind.value]
  | integer least => cases written <;> simp [OfKind, kind, FieldKind.value]; split <;> simp
  | boolean => cases written <;> simp [OfKind, kind, FieldKind.value]; split <;> simp

theorem kind_ne_null (written : Written) : written.kind ≠ .null := by
  cases written with
  | table members =>
    rw [kind]
    split <;> exact ValueKind.noConfusion
  | _ => exact ValueKind.noConfusion

end Toml.Written

/-! ### From a document to its record -/

namespace FieldTypes

open Toml (Written)

variable {text : String} {definition : Definition} {d : Descriptor}
  {written : List (String × Written)} {field : Field} {value : Written}
  (hmembers : List.Forall₂ (fun m value => m.1 = value.1 ∧ m.2.Gives value.2) written
    definition.record)

theorem toDescriptor_eq_error {fault : NormalizeError}
    (h : definition.record.normalize = .error fault) :
    definition.toDescriptor = .error (.rejected fault) := by
  rw [Definition.toDescriptor, h]
  rfl

/-- A list with an item that is no text is refused for that item, or for one before it. -/
theorem exists_listFault (name : String) {items : List Written} {jsons : List Json}
    (hitems : List.Forall₂ Written.Gives items jsons) {i : Nat} {item : Written}
    (hitem : items[i]? = some item) (htext : ¬item.IsText) :
    ∃ e, FieldTable.listFault? name jsons = some e ∧
      (e = .typeMismatch (Record.itemName name i) FieldKind.string.label item.kind ∨
        FieldTable.listFault? name (jsons.take i) = some e) := by
  obtain ⟨hi, rfl⟩ := List.getElem?_eq_some_iff.1 hitem
  have hi' : i < jsons.length := hitems.length_eq ▸ hi
  have hkind : ValueKind.of jsons[i] = items[i].kind := (hitems.get hi hi').kind_eq
  have hne : ValueKind.of jsons[i] ≠ .string := hkind ▸ fun h => htext (Written.isText_iff.2 h)
  have hfault : FieldTable.itemFault? name (jsons.take i) jsons[i] =
      some (.typeMismatch (Record.itemName name i) FieldKind.string.label items[i].kind) := by
    rw [FieldTable.itemFault?_of_kind_ne hne, List.length_take_of_le hi'.le, hkind]
  exact FieldTable.listFault?_of_item (List.getElem?_eq_getElem hi') hfault

include hmembers

/-- What an accepted document gives for a field has the type that the field declares. -/
theorem ofKind_of_accepted (hd : definition.toDescriptor = .ok d) (hfield : field ∈ Field.all)
    (hvalue : Members.find? field.name written = some value) : value.OfKind field.kind := by
  rw [Definition.toDescriptor, mapError_eq_ok_iff] at hd
  obtain ⟨json, hjson, hgives⟩ := Written.find?_of_forall₂ hmembers hvalue
  have hkind := hgives.kind_eq
  have hcheck := FieldTable.check_of_find? hjson (hkind ▸ value.kind_ne_null)
  have hfault : FieldTable.fault? field json = none := by
    have hvalues := (FieldTable.interpret_eq_ok_iff.1 (FieldTable.normalize_eq_ok_iff.1 hd)).1
    obtain ⟨settled, _, hsettled⟩ := FieldTable.check_of_values hvalues field hfield
    exact (FieldTable.settle_eq_ok_iff.1 (hcheck ▸ hsettled)).1
  refine Written.ofKind_iff.2 ⟨?_, ?_⟩
  · by_contra hne
    rw [FieldTable.fault?_of_kind_ne (hkind ▸ hne)] at hfault
    cases hfault
  · rintro items hlist rfl item hitem
    obtain ⟨jsons, rfl, hitems⟩ := hgives.array
    obtain ⟨i, hi⟩ := List.getElem?_of_mem hitem
    by_contra htext
    obtain ⟨e, hlistFault, _⟩ := exists_listFault field.name hitems hi htext
    rw [FieldTable.fault?_list hlist, hlistFault] at hfault
    cases hfault

/-- A value of another kind is refused as a mismatch, unless a field before it is at fault. -/
theorem exists_fault_of_kind_ne (hfield : field ∈ Field.all)
    (hvalue : Members.find? field.name written = some value)
    (hne : value.kind ≠ field.kind.value) :
    ∃ fault, definition.toDescriptor = .error (.rejected fault) ∧
      (fault = .typeMismatch field.name field.kind.label value.kind ∨
        ∃ other ∈ FieldTable.before field,
          FieldTable.check definition.record other = .error fault) := by
  obtain ⟨json, hjson, hgives⟩ := Written.find?_of_forall₂ hmembers hvalue
  have hkind := hgives.kind_eq
  have hcheck : FieldTable.check definition.record field =
      .error (.typeMismatch field.name field.kind.label value.kind) := by
    rw [FieldTable.check_of_find? hjson (hkind ▸ value.kind_ne_null), FieldTable.settle,
      FieldTable.fault?_of_kind_ne (hkind ▸ hne), hkind]
  obtain ⟨fault, hnormalize, hfault⟩ := FieldTable.normalize_eq_error_of_check hfield hcheck
  exact ⟨fault, toDescriptor_eq_error hnormalize, hfault⟩

/-- An item that is no text is refused as a mismatch, unless an item or a field before it is at
fault. -/
theorem exists_fault_of_item {items : List Written} {i : Nat} {item : Written}
    (hfield : field ∈ Field.all) (hlist : field.kind = .stringList)
    (hvalue : Members.find? field.name written = some (.array items))
    (hitem : items[i]? = some item) (htext : ¬item.IsText) :
    ∃ fault, definition.toDescriptor = .error (.rejected fault) ∧
      (fault = .typeMismatch (Record.itemName field.name i) FieldKind.string.label item.kind ∨
        (∃ jsons, Members.find? field.name definition.record = some (.arr jsons) ∧
          FieldTable.listFault? field.name (jsons.take i) = some fault) ∨
        ∃ other ∈ FieldTable.before field,
          FieldTable.check definition.record other = .error fault) := by
  obtain ⟨json, hjson, hgives⟩ := Written.find?_of_forall₂ hmembers hvalue
  obtain ⟨jsons, rfl, hitems⟩ := hgives.array
  obtain ⟨e, hlistFault, he⟩ := exists_listFault field.name hitems hitem htext
  have hcheck : FieldTable.check definition.record field = .error e := by
    rw [FieldTable.check_of_find? hjson ValueKind.noConfusion, FieldTable.settle,
      FieldTable.fault?_list hlist, hlistFault]
  obtain ⟨fault, hnormalize, hfault⟩ := FieldTable.normalize_eq_error_of_check hfield hcheck
  refine ⟨fault, toDescriptor_eq_error hnormalize, ?_⟩
  rcases hfault with rfl | hbefore
  · exact he.imp_right fun h => .inl ⟨jsons, hjson, h⟩
  · exact .inr (.inr hbefore)

omit hmembers

/-- A TOML document that is read as a definition gives the fields their values as they are written.
If the definition is accepted, every field that the document has was written with the type that its
kind declares, a date or time counting as a text. A value of another type makes the definition fail
with a mismatch of its field, unless a field before it is at fault; an item that is no text makes it
fail with a mismatch of that item, unless an item or a field before it is at fault. -/
theorem types_kept (h : Definition.parse text .toml = .ok definition) :
    ∃ written, Toml.readWritten? text = some written ∧
      (∀ d, definition.toDescriptor = .ok d → ∀ field ∈ Field.all, ∀ value,
        Members.find? field.name written = some value → value.OfKind field.kind) ∧
      (∀ field ∈ Field.all, ∀ value, Members.find? field.name written = some value →
        value.kind ≠ field.kind.value →
        ∃ fault, definition.toDescriptor = .error (.rejected fault) ∧
          (fault = .typeMismatch field.name field.kind.label value.kind ∨
            ∃ other ∈ FieldTable.before field,
              FieldTable.check definition.record other = .error fault)) ∧
      ∀ field ∈ Field.all, field.kind = .stringList → ∀ items i item,
        Members.find? field.name written = some (.array items) → items[i]? = some item →
        ¬item.IsText →
        ∃ fault, definition.toDescriptor = .error (.rejected fault) ∧
          (fault = .typeMismatch (Record.itemName field.name i) FieldKind.string.label item.kind ∨
            (∃ values, Members.find? field.name definition.record = some (.arr values) ∧
              FieldTable.listFault? field.name (values.take i) = some fault) ∨
            ∃ other ∈ FieldTable.before field,
              FieldTable.check definition.record other = .error fault) := by
  obtain ⟨written, hwritten, hmembers⟩ := Definition.exists_written_of_parse h
  refine ⟨written, hwritten, ?_, ?_, ?_⟩
  · exact fun d hd field hfield value hvalue => ofKind_of_accepted hmembers hd hfield hvalue
  · exact fun field hfield value hvalue hne => exists_fault_of_kind_ne hmembers hfield hvalue hne
  · exact fun field hfield hlist items i item hvalue hitem htext =>
      exists_fault_of_item hmembers hfield hlist hvalue hitem htext

/-- A document with a date in the place of a text. -/
def dated : String := Definition.linesText
  [ "amiImageId = 'ami-0f86'",
    "concurrentBuilds = 1",
    "distroName = 'freebsd'",
    "distroVersion = '122'",
    "distroArch = 'amd64'",
    "goldenImagesBranch = 'master'",
    "agentLabel = 'kitchen-slave'",
    "testEnvironmentName = 'pytest-zeromq'",
    "pythonVersion = 1979-05-27",
    "testSplits = ['unit', 07:32:00]",
    "timeoutMinutes = 360",
    "[environment]" ]

/-- The descriptor that is made of it. -/
def datedDescriptor : Descriptor where
  amiImageId := ⟨"ami-0f86"⟩
  concurrentBuilds := 1
  distroName := "freebsd"
  distroVersion := "122"
  distroArch := "amd64"
  environment := []
  goldenImagesBranch := ⟨"master"⟩
  agentLabel := ⟨"kitchen-slave"⟩
  testEnvironmentName := "pytest-zeromq"
  passthroughOptions := ""
  pythonVersion := "1979-05-27"
  testSplits := [⟨"unit"⟩, ⟨"07:32:00"⟩]
  timeoutMinutes := 360
  useSpotInstances := false
  stagedTestRun := false

theorem dated_accepted :
    (Definition.parse dated .toml >>= Definition.toDescriptor) = .ok datedDescriptor := by
  rw [dated, Definition.linesText, Definition.parse_ofList]
  decide +kernel

theorem types_kept_dated :
    ∃ definition written, Definition.parse dated .toml = .ok definition ∧
      definition.toDescriptor = .ok datedDescriptor ∧ Toml.readWritten? dated = some written ∧
      ∀ field ∈ Field.all, ∀ value, Members.find? field.name written = some value →
        value.OfKind field.kind := by
  obtain ⟨definition, hparse, hd⟩ := bind_eq_ok_iff.1 dated_accepted
  obtain ⟨written, hwritten, hkinds, _⟩ := types_kept hparse
  exact ⟨definition, written, hparse, hd, hwritten, hkinds datedDescriptor hd⟩

/-- Whether a value was written as a text. -/
def isString : Written → Bool
  | .string _ => true
  | _ => false

/-- A date where a text is declared is accepted, and handed on as its text. -/
theorem date_fills_text_field :
    (Definition.parse dated .toml >>= Definition.toDescriptor) = .ok datedDescriptor ∧
      ((Toml.readWritten? dated).bind (Members.find? FieldName.pythonVersion)).map isString =
        some false ∧
      (Field.find? FieldName.pythonVersion).map Field.kind = some .string := by
  refine ⟨dated_accepted, ?_, rfl⟩
  rw [dated, Definition.linesText, Definition.readWritten?_ofList]
  decide +kernel

end FieldTypes

end TestJob
