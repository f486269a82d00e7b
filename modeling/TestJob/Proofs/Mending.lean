import Mathlib
import TestJob.Proofs.FirstFault

/-!
Mending a refused record. A record that is refused is mended by giving the field at fault a value
that it takes, or by taking away the undeclared key (`Mends`). What stands under later keys has no
part in the fault, and the fault after a repair, if there is one, is of a later key
(`accepted_or_later_of_mends`); so repairs come to an end in an accepted record, and there are no
more of them than fields and undeclared keys (`MendedIn.steps_add_repairs_le`).
-/

namespace TestJob

/-- The values that a field takes: of its kind and within its bounds, or null where the field may
be left out. -/
inductive Field.Takes (field : Field) : Json → Prop
  | text {text : String} (kind : field.kind = .string)
      (not_blank : field.isRequired = true → Text.isBlank text = false) : field.Takes (.str text)
  | number {least : UInt32} {n : Int} {fits : Number.Fits n} (kind : field.kind = .integer least)
      (least_le : least.toNat ≤ n) (le_most : n ≤ 4294967295) : field.Takes (.num (.int n fits))
  | flag {flag : Bool} (kind : field.kind = .boolean) : field.Takes (.bool flag)
  | texts {texts : List String} (kind : field.kind = .stringList)
      (not_blank : ∀ text ∈ texts, Text.isBlank text = false) (nodup : texts.Nodup) :
      field.Takes (.arr (texts.map .str))
  | members {members : Record} (kind : field.kind = .mapping) : field.Takes (.obj members)
  | absent (optional : field.isRequired = false) : field.Takes .null

namespace FieldTable

/-- One repair of a refused record. -/
inductive Mends (record : Record) : Record → Prop
  | value {fault : NormalizeError} {field : Field} {value : Json}
      (refused : record.normalize = .error fault) (declared : field ∈ Field.all)
      (blamed : fault.key = field.name) (taken : field.Takes value) :
      Mends record (Members.insert field.name value record)
  | key {key : String} (refused : record.normalize = .error (.unknownField key)) :
      Mends record (Members.erase key record)

/-- Repairs in a row, and how many they are. -/
inductive MendedIn : Nat → Record → Record → Prop
  | none (record : Record) : MendedIn 0 record record
  | more {steps : Nat} {record next last : Record} (first : Mends record next)
      (rest : MendedIn steps next last) : MendedIn (steps + 1) record last

/-! ### Values that a field takes -/

section Values

variable {record : Record} {field : Field} {value : Json}

theorem listFault?_texts {name : String} {texts : List String}
    (hblank : ∀ text ∈ texts, Text.isBlank text = false) (hnodup : texts.Nodup) :
    listFault? name (texts.map .str) = none := by
  refine DefinitionSchema.listFault?_eq_none_iff.2 ⟨?_, ?_⟩
  · rw [List.forall_mem_map]
    exact fun text htext =>
      DefinitionSchema.accepts_notBlankText_iff.2 ⟨text, rfl, hblank text htext⟩
  · exact hnodup.map fun _ _ => Json.str.inj

theorem fault?_of_takes (h : field.Takes value) (hnull : value ≠ .null) :
    fault? field value = none := by
  rw [fault?.eq_def]
  cases h with
  | text kind not_blank =>
    rw [kind]
    refine if_neg ?_
    rintro ⟨hrequired, htrim⟩
    rw [Text.isBlank_iff_trim_eq.2 htrim] at not_blank
    exact Bool.noConfusion (not_blank hrequired)
  | number kind least_le le_most =>
    rw [kind]
    exact if_pos ⟨least_le, le_most⟩
  | flag kind => rw [kind]
  | texts kind not_blank nodup =>
    rw [kind]
    exact listFault?_texts not_blank nodup
  | members kind => rw [kind]
  | absent optional => exact absurd rfl hnull

/-- A field with a value that it takes is not at fault. -/
theorem faultOf?_of_takes (h : field.Takes value)
    (hfind : Members.find? field.name record = some value) : faultOf? record field = none := by
  rw [faultOf?_eq_none_iff, check_eq]
  by_cases hnull : value = .null
  · subst hnull
    have hlookup : record.lookup field.name = none := by
      rw [Record.lookup, hfind]
      rfl
    obtain ⟨default, hdefault⟩ : ∃ default, field.default = some default := by
      cases h with
      | absent optional => exact Option.isSome_iff_exists.1 (Option.isNone_eq_false_iff.1 optional)
    rw [hlookup, hdefault]
    exact ⟨_, rfl⟩
  · rw [DefinitionSchema.lookup_of_find? hfind hnull]
    exact ⟨value, settle_eq_ok_iff.2 ⟨fault?_of_takes h hnull, rfl⟩⟩

/-- Every field takes some value. -/
theorem exists_takes (field : Field) : ∃ value, field.Takes value := by
  cases hkind : field.kind with
  | string => exact ⟨.str "master", .text hkind fun _ => rfl⟩
  | integer least =>
    have hlt := least.toNat_lt
    exact ⟨.num (.ofUInt32 least), .number hkind le_rfl (by omega)⟩
  | boolean => exact ⟨.bool false, .flag hkind⟩
  | stringList => exact ⟨.arr ([].map .str), .texts hkind (by simp) List.nodup_nil⟩
  | mapping => exact ⟨.obj [], .members hkind⟩

end Values

/-! ### One repair -/

section Repair

variable {record next last : Record} {fault : NormalizeError} {key : String}

theorem undeclared_insert (hkey : key ∈ Field.all.map Field.name) (value : Json) :
    undeclared (Members.insert key value record) = undeclared record := by
  fun_induction Members.insert key value record <;>
    simp_all [undeclared, Members.keys, List.filter_cons]

theorem undeclared_erase (key : String) (record : Record) :
    undeclared (Members.erase key record) =
      (undeclared record).filter fun other => other ≠ key := by
  have hkeys : Members.keys (Members.erase key record) =
      (Members.keys record).filter fun other => other ≠ key := by
    rw [Members.keys, Members.keys, Members.erase, List.filter_map]
    rfl
  rw [undeclared, hkeys, List.filter_comm]
  rfl

/-- A repair settles the key at fault and leaves all others as they are. -/
theorem Mends.settles (h : Mends record next) (hfault : record.normalize = .error fault) :
    faultAt? next fault.key = none ∧
      ∀ key, key ≠ fault.key → Members.find? key next = Members.find? key record := by
  cases h with
  | value refused declared blamed taken =>
    obtain rfl := Except.error.inj (hfault.symm.trans refused)
    rw [blamed, faultAt?_name declared]
    exact ⟨faultOf?_of_takes taken (Members.find?_insert_self _ _ _),
      fun key hkey => Members.find?_insert_of_ne hkey _ _⟩
  | key refused =>
    obtain rfl := Except.error.inj (hfault.symm.trans refused)
    have hdeclared := (mem_undeclared_iff.1 (mem_undeclared_of_normalize_error hfault)).2
    refine ⟨?_, fun other hother => Members.find?_erase_of_ne hother record⟩
    refine (faultAt?_of_undeclared hdeclared).trans (if_neg ?_)
    exact Members.find?_eq_none_iff.1 (Members.find?_erase_self _ _)

/-- After a repair the record is accepted, or its fault is of a later key. -/
theorem accepted_or_later_of_mends (h : Mends record next)
    (hfault : record.normalize = .error fault) :
    (∃ d, next.normalize = .ok d) ∨
      ∃ later, next.normalize = .error later ∧ Precedes fault.key later.key := by
  obtain ⟨hsettled, hothers⟩ := h.settles hfault
  cases hnext : next.normalize with
  | ok d => exact .inl ⟨d, rfl⟩
  | error later =>
    have hlater := (first_of_normalize_error hnext).1
    rcases precedes_or_eq_or_precedes fault.key later.key with hlt | heq | hgt
    · exact .inr ⟨later, rfl, hlt⟩
    · rw [← heq, hsettled] at hlater
      cases hlater
    · -- what precedes the fault had none before, and is as it was
      have hne : later.key ≠ fault.key := by
        rintro heq
        exact not_precedes_self _ (heq ▸ hgt)
      rw [faultAt?_congr (hothers _ hne), (first_of_normalize_error hfault).2 _ hgt] at hlater
      cases hlater

/-! ### Repairs in a row -/

/-- How many fields and undeclared keys are left to look at, from the first fault on. -/
def repairs (record : Record) : Nat :=
  match record.normalize with
  | .ok _ => 0
  | .error fault => (15 - rank fault.key) + (undeclared record).length

theorem repairs_of_ok {d : Descriptor} (h : record.normalize = .ok d) : repairs record = 0 := by
  rw [repairs, h]

theorem repairs_of_error (h : record.normalize = .error fault) :
    repairs record = (15 - rank fault.key) + (undeclared record).length := by
  rw [repairs, h]

theorem repairs_le (record : Record) : repairs record ≤ 15 + (undeclared record).length := by
  cases h : record.normalize with
  | ok d =>
    rw [repairs_of_ok h]
    exact Nat.zero_le _
  | error fault =>
    rw [repairs_of_error h]
    omega

/-- Each repair leaves less to look at: a field is passed for good, and an undeclared key is gone
once all fields are passed. -/
theorem Mends.repairs_lt (h : Mends record next) : repairs next < repairs record := by
  cases h with
  | @value fault field value refused declared blamed taken =>
    have hlt := rank_name_lt declared
    rw [repairs_of_error refused, blamed]
    rcases accepted_or_later_of_mends (.value refused declared blamed taken) refused with
      ⟨d, hd⟩ | ⟨later, hlater, hprecedes⟩
    · rw [repairs_of_ok hd]
      omega
    · rw [repairs_of_error hlater, undeclared_insert (List.mem_map_of_mem declared)]
      have hrank := rank_lt_of_precedes declared (blamed ▸ hprecedes)
      omega
  | @key key refused =>
    have hmem := mem_undeclared_of_normalize_error refused
    have hrank : rank key = 15 := rank_eq_of_undeclared (mem_undeclared_iff.1 hmem).2
    have hfewer : (undeclared (Members.erase key record)).length < (undeclared record).length := by
      rw [undeclared_erase, List.length_filter_lt_length_iff_exists]
      exact ⟨key, hmem, by simp⟩
    rw [repairs_of_error refused]
    rcases accepted_or_later_of_mends (.key refused) refused with
      ⟨d, hd⟩ | ⟨later, hlater, hprecedes⟩
    · rw [repairs_of_ok hd]
      omega
    · rw [repairs_of_error hlater]
      have hle : rank key ≤ rank later.key := rank_le_of_precedes hprecedes
      omega

theorem MendedIn.steps_add_repairs_le {steps : Nat} (h : MendedIn steps record last) :
    steps + repairs last ≤ repairs record := by
  induction h with
  | none record => exact (Nat.zero_add _).le
  | more first rest ih =>
    have hlt := first.repairs_lt
    omega

/-- A refused record can be mended. -/
theorem exists_mends (h : record.normalize = .error fault) : ∃ next, Mends record next := by
  rcases faultAt?_cases (first_of_normalize_error h).1 with
    ⟨field, hfield, hname, _⟩ | ⟨_, hunknown⟩
  · obtain ⟨value, htaken⟩ := exists_takes field
    exact ⟨_, .value h hfield hname.symm htaken⟩
  · exact ⟨_, .key (hunknown ▸ h)⟩

/-- What a record is refused for: a field, told by its name or by that of an item of its list, or an
undeclared key that is there. -/
theorem blamed_of_normalize_error (h : record.normalize = .error fault) :
    (∃ field ∈ Field.all, fault.key = field.name ∧ Blames fault field) ∨
      fault = .unknownField fault.key ∧ fault.key ∈ undeclared record := by
  rcases faultAt?_cases (first_of_normalize_error h).1 with
    ⟨field, hfield, hname, hcheck⟩ | ⟨hmem, hunknown⟩
  · exact .inl ⟨field, hfield, hname.symm, blames_of_check hfield hcheck⟩
  · exact .inr ⟨hunknown, hmem⟩

/-- A refusal names a field, or an undeclared key that is there. No later key has a part in it: with
other values under later keys, or none, or more of them, the record is refused alike. Once what is
named has a value that it takes, or is gone if it is no field, the record is accepted or refused for
a later key; and however a record is mended from fault to fault, it takes no more repairs than there
are fields and undeclared keys, and the next repair is there until the record is accepted. -/
theorem refused_until_mended (h : record.normalize = .error fault) :
    ((∃ field ∈ Field.all, fault.key = field.name ∧ Blames fault field) ∨
      fault = .unknownField fault.key ∧ fault.key ∈ undeclared record) ∧
    (∀ other : Record,
      (∀ key, ¬Precedes fault.key key → Members.find? key other = Members.find? key record) →
      other.normalize = .error fault) ∧
    (∀ next, Mends record next → (∃ d, next.normalize = .ok d) ∨
      ∃ later, next.normalize = .error later ∧ Precedes fault.key later.key) ∧
    ∀ steps last, MendedIn steps record last →
      steps ≤ 15 + (undeclared record).length ∧
      ((∃ d, last.normalize = .ok d) ∨ ∃ next, Mends last next) := by
  obtain ⟨hfault, hbefore⟩ := first_of_normalize_error h
  refine ⟨blamed_of_normalize_error h, fun other hsame => ?_,
    fun next hnext => accepted_or_later_of_mends hnext h, fun steps last hlast => ⟨?_, ?_⟩⟩
  · refine normalize_eq_error_iff_first.2 ⟨?_, fun key hkey => ?_⟩
    · rw [faultAt?_congr (hsame _ (not_precedes_self _)), hfault]
    · rw [faultAt?_congr (hsame key (not_precedes_of_precedes hkey)), hbefore key hkey]
  · have hle := hlast.steps_add_repairs_le
    have hrepairs := repairs_le record
    omega
  · cases hnormalize : last.normalize with
    | ok d => exact .inl ⟨d, rfl⟩
    | error later => exact .inr (exists_mends hnormalize)

end Repair

/-- A record with a number out of range, an item that is no text and an undeclared key. -/
def faulty : Record :=
  Members.insert "testSplit" .null
    (Members.insert FieldName.testSplits (.arr [.str "unit", .null])
      (Members.insert FieldName.concurrentBuilds (Descriptor.count 0) Projection.sample))

/-- The record with the number in range. -/
def lessFaulty : Record :=
  Members.insert FieldName.concurrentBuilds (Descriptor.count 1) faulty

theorem refused_until_mended_faulty :
    faulty.normalize = .error (.invalidRange FieldName.concurrentBuilds 0) ∧
      Mends faulty lessFaulty ∧
      lessFaulty.normalize = .error (.typeMismatch "testSplits[1]" "string" .null) ∧
      Precedes FieldName.concurrentBuilds FieldName.testSplits ∧
      ∀ steps last, MendedIn steps faulty last → steps ≤ 16 := by
  have hfault : faulty.normalize = .error (.invalidRange FieldName.concurrentBuilds 0) := rfl
  have hnext : lessFaulty.normalize = .error (.typeMismatch "testSplits[1]" "string" .null) := rfl
  have hkeys : NormalizeError.key (.invalidRange FieldName.concurrentBuilds 0) =
        FieldName.concurrentBuilds ∧
      NormalizeError.key (.typeMismatch "testSplits[1]" "string" .null) = FieldName.testSplits := by
    decide +kernel
  have hdeclared : ∃ field ∈ Field.all, field.name = FieldName.concurrentBuilds ∧
      field.kind = .integer 1 := by decide
  obtain ⟨field, hfield, hname, hkind⟩ := hdeclared
  have hmends : Mends faulty (Members.insert field.name (Descriptor.count 1) faulty) :=
    .value hfault hfield (hkeys.1.trans hname.symm) (.number hkind (by decide) (by decide))
  rw [hname] at hmends
  obtain ⟨_, _, hlater, hrepairs⟩ := refused_until_mended hfault
  refine ⟨hfault, hmends, hnext, ?_, fun steps last hlast => (hrepairs steps last hlast).1⟩
  rcases hlater lessFaulty hmends with ⟨d, hd⟩ | ⟨later, hnormalize, hprecedes⟩
  · rw [hnext] at hd
    cases hd
  · rw [hnext] at hnormalize
    rw [← Except.error.inj hnormalize, hkeys.1, hkeys.2] at hprecedes
    exact hprecedes

end FieldTable

end TestJob
