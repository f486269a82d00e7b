import Mathlib
import TestJob.Proofs.FieldTable
import TestJob.Proofs.Members

/-!
A descriptor as a record. `toRecord` has every field and nothing else, and gives each the value
that stands for it in the record that the descriptor was made of. Normalizing it again changes
nothing, since what the table settles once passes the table again; so a descriptor is settled by
its record up to nulls and defaults, and the other way round.
-/

namespace TestJob.Projection

open FieldTable

theorem toRecord_eq (d : Descriptor) : d.toRecord = Members.ofList d.fields := rfl

theorem keys_fields (d : Descriptor) : Members.keys d.fields = Field.all.map Field.name := rfl

theorem names_nodup : (Field.all.map Field.name).Nodup := by decide

theorem keys_toRecord (d : Descriptor) :
    (Members.keys d.toRecord).Perm (Field.all.map Field.name) :=
  (Members.ofList_perm (keys_fields d ▸ names_nodup)).map Prod.fst

theorem find?_toRecord {d : Descriptor} {key : String} {value : Json}
    (h : (key, value) ∈ d.fields) : Members.find? key d.toRecord = some value :=
  Members.find?_ofList (keys_fields d ▸ names_nodup) h

theorem undeclared_toRecord (d : Descriptor) : undeclared d.toRecord = [] := by
  rw [undeclared, List.filter_eq_nil_iff]
  intro key hkey
  simpa using (keys_toRecord d).mem_iff.1 hkey

theorem kind_environment :
    ∀ field ∈ Field.all, field.name = FieldName.environment → field.kind = .mapping := by decide

section Accepted

variable {record : Record} {d : Descriptor} (h : record.normalize = .ok d)

include h

/-- Every field of an accepted record is settled by its check. -/
theorem check_of_normalize {field : Field} (hfield : field ∈ Field.all) :
    ∃ value, (field.name, value) ∈ d.fields ∧ check record field = .ok value :=
  check_of_values (interpret_eq_ok_iff.1 (normalize_eq_ok_iff.1 h)).1 field hfield

theorem undeclared_of_normalize : undeclared record = [] :=
  (interpret_eq_ok_iff.1 (normalize_eq_ok_iff.1 h)).2

theorem find?_toRecord_eq_filled {field : Field} (hfield : field ∈ Field.all) :
    Members.find? field.name d.toRecord = filled record field := by
  obtain ⟨value, hmem, hcheck⟩ := check_of_normalize h hfield
  rw [find?_toRecord hmem, ((check_eq_ok_iff hfield).1 hcheck).1]

/-- No check looks into the environment: with another one in its place the projection is accepted
with that one. -/
theorem normalize_toRecord_environment (environment : Record) :
    { d with environment }.toRecord.normalize = .ok { d with environment } := by
  have hfields : ∀ m ∈ { d with environment }.fields,
      m ∈ d.fields ∨ m = (FieldName.environment, .obj environment) := by
    simp [Descriptor.fields]
  rw [normalize_eq_ok_iff, interpret_eq_ok_iff]
  refine ⟨values_of_check (keys_fields _) fun field hfield value hvalue => ?_,
    undeclared_toRecord _⟩
  have hfault : fault? field value = none := by
    rcases hfields _ hvalue with hgiven | henvironment
    · obtain ⟨given, hmem, hcheck⟩ := check_of_normalize h hfield
      have hsame := (find?_toRecord hgiven).symm.trans (find?_toRecord hmem)
      obtain rfl := Option.some.inj hsame
      exact ((check_eq_ok_iff hfield).1 hcheck).2
    · obtain ⟨hname, rfl⟩ := Prod.mk.inj henvironment
      rw [fault?.eq_def, kind_environment field hfield hname]
  have hnull : value.isNull = false := by
    cases value <;> first | rfl | exact absurd hfault (fault?_null field)
  rw [check_eq_ok_iff hfield, filled, Record.lookup, find?_toRecord hvalue, Option.filter_some,
    hnull]
  exact ⟨rfl, hfault⟩

theorem normalize_toRecord : d.toRecord.normalize = .ok d :=
  normalize_toRecord_environment h d.environment

end Accepted

/-- The record as a mapping, without its nulls and with the defaults filled in. -/
def completed (record : Record) (key : String) : Option Json :=
  (record.lookup key).or ((Field.find? key).bind fun field => field.default.map FieldDefault.toJson)

theorem find?_name : ∀ field ∈ Field.all, Field.find? field.name = some field := by decide

theorem completed_name (record : Record) {field : Field} (hfield : field ∈ Field.all) :
    completed record field.name = filled record field := by
  rw [completed, find?_name field hfield]
  rfl

theorem completed_of_undeclared {record : Record} (h : undeclared record = []) {key : String}
    (hkey : key ∉ Field.all.map Field.name) : completed record key = none := by
  have hfield : Field.find? key = none := Option.isNone_iff_eq_none.1 (find?_isNone_iff.2 hkey)
  have hfind : Members.find? key record = none := by
    rw [Members.find?_eq_none_iff]
    intro hmem
    exact List.filter_eq_nil_iff.1 h key hmem (decide_eq_true hkey)
  rw [completed, Record.lookup, hfind, hfield]
  rfl

/-- What is given to a key of an accepted record stands in the projection. -/
theorem find?_toRecord_of_lookup {record : Record} {d : Descriptor} {key : String} {value : Json}
    (h : record.normalize = .ok d) (hlookup : record.lookup key = some value) :
    Members.find? key d.toRecord = some value := by
  have hcompleted : completed record key = some value := by
    rw [completed, hlookup, Option.some_or]
  by_cases hkey : key ∈ Field.all.map Field.name
  · obtain ⟨field, hfield, rfl⟩ := List.mem_map.1 hkey
    rw [find?_toRecord_eq_filled h hfield, ← completed_name record hfield, hcompleted]
  · rw [completed_of_undeclared (undeclared_of_normalize h) hkey] at hcompleted
    cases hcompleted

/-- Two accepted records with the same completion make the same descriptor. -/
theorem eq_of_completed_eq {record other : Record} {d e : Descriptor}
    (hd : record.normalize = .ok d) (he : other.normalize = .ok e)
    (h : ∀ field ∈ Field.all, filled record field = filled other field) : d = e := by
  have hcheck : ∀ field ∈ Field.all, check record field = check other field := by
    intro field hfield
    obtain ⟨value, _, hvalue⟩ := check_of_normalize hd hfield
    rw [hvalue, eq_comm, check_eq_ok_iff hfield, ← h field hfield]
    exact (check_eq_ok_iff hfield).1 hvalue
  have hvalues := (interpret_eq_ok_iff.1 (normalize_eq_ok_iff.1 hd)).1
  rw [values_congr hcheck, (interpret_eq_ok_iff.1 (normalize_eq_ok_iff.1 he)).1] at hvalues
  exact fields_injective (Except.ok.inj hvalues).symm

/-- The projection of a descriptor has the keys of the table, each with the value that was given or
else the default, and normalizes to the descriptor again; and two descriptors are equal exactly
when the records they were made of agree without their nulls and with the defaults filled in. -/
theorem toRecord_faithful :
    (∀ (record : Record) (d : Descriptor), record.normalize = .ok d →
      (Members.keys d.toRecord).Perm (Field.all.map Field.name) ∧
      (∀ field ∈ Field.all, Members.find? field.name d.toRecord =
        (record.lookup field.name).or (field.default.map FieldDefault.toJson)) ∧
      d.toRecord.normalize = .ok d) ∧
    ∀ (record other : Record) (d e : Descriptor), record.normalize = .ok d →
      other.normalize = .ok e → (d = e ↔ ∀ key, completed record key = completed other key) := by
  refine ⟨fun record d h => ⟨keys_toRecord d, fun field hfield => ?_, normalize_toRecord h⟩, ?_⟩
  · exact find?_toRecord_eq_filled h hfield
  · intro record other d e hd he
    constructor
    · rintro rfl key
      by_cases hkey : key ∈ Field.all.map Field.name
      · obtain ⟨field, hfield, rfl⟩ := List.mem_map.1 hkey
        rw [completed_name record hfield, completed_name other hfield,
          ← find?_toRecord_eq_filled hd hfield, find?_toRecord_eq_filled he hfield]
      · rw [completed_of_undeclared (undeclared_of_normalize hd) hkey,
          completed_of_undeclared (undeclared_of_normalize he) hkey]
    · intro h
      refine eq_of_completed_eq hd he fun field hfield => ?_
      rw [← completed_name record hfield, ← completed_name other hfield, h]

/-- An environment with every kind of value but a float, and with texts that need escapes. -/
def sampleEnvironment : Record :=
  [ ("a\"b", .arr [.null, .num (.ofUInt64 18446744073709551615), .obj []]),
    ("least", .num (.int (-9223372036854775808) (by decide))),
    ("é\n", .bool true) ]

/-- A record with one null, one field left out and a nested environment. -/
def sample : Record :=
  [ ("agentLabel", .str "kitchen-slave"),
    ("amiImageId", .str "ami-0f8692a4a769c17e4"),
    ("concurrentBuilds", .num (.ofUInt32 1)),
    ("distroArch", .str "amd64"),
    ("distroName", .str "freebsd"),
    ("distroVersion", .str "122"),
    ("environment", .obj sampleEnvironment),
    ("goldenImagesBranch", .str "master"),
    ("passthroughOptions", .null),
    ("pythonVersion", .str "py3"),
    ("testEnvironmentName", .str "pytest-zeromq"),
    ("testSplits", .arr [.str "unit", .str "integration"]),
    ("timeoutMinutes", .num (.ofUInt32 360)),
    ("useSpotInstances", .bool true) ]

/-- The descriptor that `sample` stands for. -/
def sampleDescriptor : Descriptor where
  amiImageId := ⟨"ami-0f8692a4a769c17e4"⟩
  concurrentBuilds := 1
  distroName := "freebsd"
  distroVersion := "122"
  distroArch := "amd64"
  environment := sampleEnvironment
  goldenImagesBranch := ⟨"master"⟩
  agentLabel := ⟨"kitchen-slave"⟩
  testEnvironmentName := "pytest-zeromq"
  passthroughOptions := ""
  pythonVersion := "py3"
  testSplits := [⟨"unit"⟩, ⟨"integration"⟩]
  timeoutMinutes := 360
  useSpotInstances := true
  stagedTestRun := false

theorem toRecord_faithful_sample :
    sample.normalize = .ok sampleDescriptor ∧
      Members.find? FieldName.passthroughOptions sampleDescriptor.toRecord = some (.str "") ∧
      sampleDescriptor.toRecord.normalize = .ok sampleDescriptor ∧
      ∀ key, completed sample key = completed sampleDescriptor.toRecord key := by
  have haccepted : sample.normalize = .ok sampleDescriptor := rfl
  obtain ⟨_, hfields, hagain⟩ := toRecord_faithful.1 sample sampleDescriptor haccepted
  have hmem : (⟨FieldName.passthroughOptions, .string, some (.string ""),
      "Opaque arguments forwarded to the test harness."⟩ : Field) ∈ Field.all := by decide
  exact ⟨haccepted, hfields _ hmem, hagain,
    (toRecord_faithful.2 _ _ _ _ haccepted hagain).1 rfl⟩

end TestJob.Projection
