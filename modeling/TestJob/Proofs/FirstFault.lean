import Mathlib
import TestJob.Proofs.DefinitionSchema

/-!
The fault that a record is refused with. Keys are looked at in one order, the fields as they are
declared and then the undeclared keys by their bytes (`Precedes`), and whether a key is at fault
hangs on its own value alone (`faultAt?`). A record is refused with the fault of the first key that
has one (`normalize_eq_error_iff_first`).
-/

namespace TestJob

namespace NormalizeError

/-- A name without the index of an item. -/
def withoutIndex (name : String) : String :=
  String.ofList (name.toList.takeWhile fun c => c ≠ '[')

/-- The key at fault; an item of a list counts as the list. -/
def key : NormalizeError → String
  | unknownField key => key
  | fault => withoutIndex fault.field

theorem withoutIndex_itemName (name : String) (index : Nat) :
    withoutIndex (Record.itemName name index) = withoutIndex name := by
  have hbracket : "[".toList = ['['] := rfl
  rw [withoutIndex, withoutIndex, Record.itemName, String.toList_append, String.toList_append,
    String.toList_append, hbracket, List.append_assoc, List.append_assoc, List.singleton_append]
  congr 1
  induction name.toList with
  | nil => rfl
  | cons c cs ih => rw [List.cons_append, List.takeWhile_cons, List.takeWhile_cons, ih]

end NormalizeError

namespace FieldTable

open NormalizeError (withoutIndex)

theorem withoutIndex_name : ∀ field ∈ Field.all, withoutIndex field.name = field.name := by
  decide +kernel

theorem name_of_list : ∀ field ∈ Field.all, field.kind = .stringList →
    field.name = FieldName.testSplits := by
  decide

/-! ### The order of keys -/

/-- The place of a key in the table, and the end of the table for a key that is not there. -/
def rank (key : String) : Nat := (Field.all.map Field.name).idxOf key

/-- Whether a key is looked at before another: in the order of the table, and outside of it in the
order of the bytes. -/
def Precedes (key other : String) : Prop :=
  rank key < rank other ∨ rank key = rank other ∧ Utf8.encode key < Utf8.encode other

theorem not_precedes_self (key : String) : ¬Precedes key key := by
  rintro (h | ⟨_, h⟩)
  · exact Nat.lt_irrefl _ h
  · exact List.lt_irrefl _ h

theorem not_precedes_of_precedes {key other : String} (h : Precedes key other) :
    ¬Precedes other key := by
  rintro (hrank | ⟨hrank, hlt⟩)
  · rcases h with h | ⟨h, _⟩ <;> omega
  · rcases h with h | ⟨_, h⟩
    · omega
    · exact List.lt_asymm hlt h

theorem precedes_or_eq_or_precedes (key other : String) :
    Precedes key other ∨ key = other ∨ Precedes other key := by
  rcases Nat.lt_trichotomy (rank key) (rank other) with h | h | h
  · exact .inl (.inl h)
  · rcases lt_trichotomy key other with hlt | heq | hlt
    · exact .inl (.inr ⟨h, Utf8.encode_lt_iff.2 hlt⟩)
    · exact .inr (.inl heq)
    · exact .inr (.inr (.inr ⟨h.symm, Utf8.encode_lt_iff.2 hlt⟩))
  · exact .inr (.inr (.inl h))

theorem rank_name_lt {field : Field} (hfield : field ∈ Field.all) : rank field.name < 15 :=
  List.idxOf_lt_length_iff.2 (List.mem_map_of_mem hfield)

theorem rank_eq_of_undeclared {key : String} (h : key ∉ Field.all.map Field.name) :
    rank key = 15 :=
  List.idxOf_of_notMem h

/-- No two fields have one place. -/
theorem eq_of_rank_name_eq {field : Field} (hfield : field ∈ Field.all) {key : String}
    (h : rank key = rank field.name) : key = field.name :=
  ((List.idxOf_inj (List.mem_map_of_mem hfield)).1 h.symm).symm

theorem rank_le_of_precedes {key other : String} (h : Precedes key other) :
    rank key ≤ rank other :=
  h.elim Nat.le_of_lt fun h => h.1.le

/-- What comes after a field comes after it in the table. -/
theorem rank_lt_of_precedes {field : Field} (hfield : field ∈ Field.all) {key : String}
    (h : Precedes field.name key) : rank field.name < rank key := by
  rcases h with hlt | ⟨heq, hlt⟩
  · exact hlt
  · rw [eq_of_rank_name_eq hfield heq.symm] at hlt
    exact absurd hlt (List.lt_irrefl _)

/-- The fields before a field are those that are looked at before it. -/
theorem mem_before_of_rank_lt : ∀ field ∈ Field.all, ∀ other ∈ Field.all,
    rank other.name < rank field.name → other ∈ before field := by
  decide +kernel

theorem mem_before_of_precedes {field other : Field} (hfield : field ∈ Field.all)
    (hother : other ∈ Field.all) (h : Precedes other.name field.name) : other ∈ before field := by
  rcases h with hlt | ⟨heq, hlt⟩
  · exact mem_before_of_rank_lt field hfield other hother hlt
  · rw [eq_of_rank_name_eq hfield heq] at hlt
    exact absurd hlt (List.lt_irrefl _)

/-! ### The fault of a key -/

/-- What the check of a field finds. -/
def faultOf? (record : Record) (field : Field) : Option NormalizeError :=
  match check record field with
  | .error fault => some fault
  | .ok _ => none

/-- What is wrong with a key: for a field what its check finds, and for any other key that it is
there. -/
def faultAt? (record : Record) (key : String) : Option NormalizeError :=
  match Field.find? key with
  | some field => faultOf? record field
  | none => if key ∈ Members.keys record then some (.unknownField key) else none

section Keys

variable {record other : Record} {field : Field} {key : String} {fault : NormalizeError}

theorem faultOf?_eq_some_iff :
    faultOf? record field = some fault ↔ check record field = .error fault := by
  rw [faultOf?.eq_def]
  cases check record field <;> simp

theorem faultOf?_eq_none_iff :
    faultOf? record field = none ↔ ∃ value, check record field = .ok value := by
  rw [faultOf?.eq_def]
  cases check record field <;> simp

theorem faultAt?_name (hfield : field ∈ Field.all) :
    faultAt? record field.name = faultOf? record field := by
  rw [faultAt?, Projection.find?_name field hfield]

theorem faultAt?_of_undeclared (h : key ∉ Field.all.map Field.name) :
    faultAt? record key = if key ∈ Members.keys record then some (.unknownField key) else none := by
  rw [faultAt?, Option.isNone_iff_eq_none.1 (find?_isNone_iff.2 h)]

theorem mem_undeclared_iff :
    key ∈ undeclared record ↔ key ∈ Members.keys record ∧ key ∉ Field.all.map Field.name := by
  rw [undeclared, List.mem_filter, decide_eq_true_iff]

theorem faultAt?_cases (h : faultAt? record key = some fault) :
    (∃ field ∈ Field.all, field.name = key ∧ check record field = .error fault) ∨
      key ∈ undeclared record ∧ fault = .unknownField key := by
  by_cases hkey : key ∈ Field.all.map Field.name
  · obtain ⟨field, hfield, rfl⟩ := List.mem_map.1 hkey
    rw [faultAt?_name hfield, faultOf?_eq_some_iff] at h
    exact .inl ⟨field, hfield, rfl, h⟩
  · rw [faultAt?_of_undeclared hkey] at h
    split_ifs at h with hmem
    exact .inr ⟨mem_undeclared_iff.2 ⟨hmem, hkey⟩, (Option.some.inj h).symm⟩

/-- Whether a key is at fault hangs on its own value alone. -/
theorem faultAt?_congr (h : Members.find? key other = Members.find? key record) :
    faultAt? other key = faultAt? record key := by
  by_cases hkey : key ∈ Field.all.map Field.name
  · obtain ⟨field, hfield, rfl⟩ := List.mem_map.1 hkey
    have hcheck : check other field = check record field := by
      rw [check_eq, check_eq, Record.lookup, Record.lookup, h]
    rw [faultAt?_name hfield, faultAt?_name hfield, faultOf?, faultOf?, hcheck]
  · have hmem : key ∈ Members.keys other ↔ key ∈ Members.keys record := by
      rw [← not_iff_not, ← Members.find?_eq_none_iff, ← Members.find?_eq_none_iff, h]
    rw [faultAt?_of_undeclared hkey, faultAt?_of_undeclared hkey, if_congr hmem rfl rfl]

/-- The faults that the check of a field can find: in the field itself, or in an item of its list.
All but the name of a split that comes twice is told in words of the table. -/
inductive Told (field : Field) : NormalizeError → Prop where
  | missing : Told field (.missingField field.name)
  | empty : Told field (.emptyField field.name)
  | range (n : Int) : Told field (.invalidRange field.name n)
  | mismatch (kind : FieldKind) (actual : ValueKind) :
    Told field (.typeMismatch field.name kind.label actual)
  | item (hlist : field.kind = .stringList) (index : Nat) (actual : ValueKind) :
    Told field (.typeMismatch (Record.itemName field.name index) FieldKind.string.label actual)
  | emptySplit (hname : field.name = FieldName.testSplits) : Told field .emptySplitName
  | duplicateSplit (hname : field.name = FieldName.testSplits) (text : String) :
    Told field (.duplicateSplit text)

theorem told_of_listFault {items : List Json} (hfield : field ∈ Field.all)
    (hlist : field.kind = .stringList) (h : listFault? field.name items = some fault) :
    Told field fault := by
  obtain ⟨⟨item, index⟩, _, hitem⟩ := List.exists_of_findSome?_eq_some h
  have hname := name_of_list field hfield hlist
  cases item with
  | str text =>
    have hfault : fault = .emptySplitName ∨ fault = .duplicateSplit text := by
      simp only [itemFault?] at hitem
      split_ifs at hitem <;> simp_all
    rcases hfault with rfl | rfl
    · exact .emptySplit hname
    · exact .duplicateSplit hname text
  | _ =>
    obtain rfl := Option.some.inj hitem
    exact .item hlist _ _

theorem told_of_fault {value : Json} (hfield : field ∈ Field.all)
    (h : fault? field value = some fault) : Told field fault := by
  rw [fault?.eq_def] at h
  split at h
  · split_ifs at h
    exact Option.some.inj h ▸ .empty
  · split_ifs at h
    exact Option.some.inj h ▸ .range _
  · cases h
  · next hlist => exact told_of_listFault hfield hlist h
  · cases h
  · exact Option.some.inj h ▸ .mismatch _ _

theorem told_of_check (hfield : field ∈ Field.all) (h : check record field = .error fault) :
    Told field fault := by
  rw [check_eq] at h
  split at h
  · rw [settle] at h
    split at h
    · next hfault => exact Except.error.inj h ▸ told_of_fault hfield hfault
    · cases h
  · cases h
  · exact Except.error.inj h ▸ .missing

/-- A fault is told of a field: of the field itself, or of an item of its list. -/
def Blames (fault : NormalizeError) (field : Field) : Prop :=
  (fault.field = field.name ∨
    field.kind = .stringList ∧ ∃ index, fault.field = Record.itemName field.name index) ∧
  ∀ key, fault ≠ .unknownField key

theorem Blames.key_eq (hfield : field ∈ Field.all) (h : Blames fault field) :
    fault.key = field.name := by
  have hkey : fault.key = withoutIndex fault.field := by
    cases fault with
    | unknownField key => exact absurd rfl (h.2 key)
    | _ => rfl
  rw [hkey]
  rcases h.1 with heq | ⟨_, index, heq⟩
  · rw [heq, withoutIndex_name field hfield]
  · rw [heq, NormalizeError.withoutIndex_itemName, withoutIndex_name field hfield]

theorem Told.blames (h : Told field fault) : Blames fault field := by
  cases h with
  | missing | empty | range n | mismatch kind actual => exact ⟨.inl rfl, by simp⟩
  | item hlist index actual => exact ⟨.inr ⟨hlist, index, rfl⟩, by simp⟩
  | emptySplit hname | duplicateSplit hname text => exact ⟨.inl hname.symm, by simp⟩

/-- The check of a field blames the field. -/
theorem blames_of_check (hfield : field ∈ Field.all) (h : check record field = .error fault) :
    Blames fault field :=
  (told_of_check hfield h).blames

end Keys

/-! ### The first fault -/

section Records

variable {record : Record} {d : Descriptor} {fault : NormalizeError} {key : String}

theorem leastUndeclared?_spec (h : leastUndeclared? record = some key) :
    key ∈ undeclared record ∧
      ∀ other ∈ undeclared record, Utf8.encode key ≤ Utf8.encode other := by
  rw [leastUndeclared?] at h
  exact ⟨List.mem_of_find?_eq_some h, by simpa using List.find?_some h⟩

/-- No key of an accepted record is at fault. -/
theorem faultAt?_of_normalize_ok (h : record.normalize = .ok d) (key : String) :
    faultAt? record key = none := by
  obtain ⟨hchecks, hundeclared⟩ := DefinitionSchema.normalize_isOk_iff.1 ⟨d, h⟩
  by_cases hkey : key ∈ Field.all.map Field.name
  · obtain ⟨field, hfield, rfl⟩ := List.mem_map.1 hkey
    rw [faultAt?_name hfield, faultOf?_eq_none_iff]
    exact hchecks field hfield
  · rw [faultAt?_of_undeclared hkey, if_neg]
    intro hmem
    exact List.not_mem_nil (hundeclared ▸ mem_undeclared_iff.2 ⟨hmem, hkey⟩)

/-- A key that is looked at before a field is a field before it. -/
theorem faultAt?_of_before {field : Field} (hfield : field ∈ Field.all)
    (hbefore : ∀ other ∈ before field, ∃ value, check record other = .ok value)
    (hkey : Precedes key field.name) : faultAt? record key = none := by
  have hdeclared : key ∈ Field.all.map Field.name := by
    by_contra hkeyless
    have hlt := rank_name_lt hfield
    rw [Precedes, rank_eq_of_undeclared hkeyless] at hkey
    omega
  obtain ⟨other, hother, rfl⟩ := List.mem_map.1 hdeclared
  rw [faultAt?_name hother, faultOf?_eq_none_iff]
  exact hbefore other (mem_before_of_precedes hfield hother hkey)

/-- An undeclared key that is looked at before the least one is not there. -/
theorem faultAt?_of_least {least : String} (hleast : leastUndeclared? record = some least)
    (hchecks : ∀ field ∈ Field.all, ∃ value, check record field = .ok value)
    (hkey : Precedes key least) : faultAt? record key = none := by
  by_cases hdeclared : key ∈ Field.all.map Field.name
  · obtain ⟨field, hfield, rfl⟩ := List.mem_map.1 hdeclared
    rw [faultAt?_name hfield, faultOf?_eq_none_iff]
    exact hchecks field hfield
  · obtain ⟨hmem, hle⟩ := leastUndeclared?_spec hleast
    rw [faultAt?_of_undeclared hdeclared, if_neg]
    intro hthere
    have hle := hle key (mem_undeclared_iff.2 ⟨hthere, hdeclared⟩)
    rw [Precedes, rank_eq_of_undeclared hdeclared,
      rank_eq_of_undeclared (mem_undeclared_iff.1 hmem).2] at hkey
    exact hle (hkey.resolve_left (Nat.lt_irrefl _)).2

/-- A record is refused with a fault of one of its keys, and the keys before it have none. -/
theorem first_of_normalize_error (h : record.normalize = .error fault) :
    faultAt? record fault.key = some fault ∧
      ∀ key, Precedes key fault.key → faultAt? record key = none := by
  rw [normalize_eq_error_iff, interpret] at h
  cases hvalues : values record Field.all with
  | error found =>
    rw [hvalues] at h
    obtain rfl := Except.error.inj h
    obtain ⟨field, hfield, hcheck, hbefore⟩ := first_of_values_error hvalues
    rw [(blames_of_check hfield hcheck).key_eq hfield, faultAt?_name hfield, faultOf?_eq_some_iff]
    exact ⟨hcheck, fun key hkey => faultAt?_of_before hfield hbefore hkey⟩
  | ok settled =>
    rw [hvalues] at h
    cases hleast : leastUndeclared? record with
    | none =>
      rw [hleast] at h
      cases h
    | some least =>
      rw [hleast] at h
      obtain rfl := Except.error.inj h
      obtain ⟨hmem, hdeclared⟩ := mem_undeclared_iff.1 (leastUndeclared?_spec hleast).1
      have hchecks := DefinitionSchema.values_isOk_iff.1 ⟨settled, hvalues⟩
      refine ⟨?_, fun key hkey => faultAt?_of_least hleast hchecks hkey⟩
      exact (faultAt?_of_undeclared hdeclared).trans (if_pos hmem)

/-- A record that is refused for an unknown key has the key, and no field is named so. -/
theorem mem_undeclared_of_normalize_error (h : record.normalize = .error (.unknownField key)) :
    key ∈ undeclared record := by
  rcases faultAt?_cases (first_of_normalize_error h).1 with ⟨field, hfield, _, hcheck⟩ | ⟨hmem, _⟩
  · exact absurd rfl ((blames_of_check hfield hcheck).2 key)
  · exact hmem

theorem normalize_eq_error_iff_first :
    record.normalize = .error fault ↔ faultAt? record fault.key = some fault ∧
      ∀ key, Precedes key fault.key → faultAt? record key = none := by
  refine ⟨first_of_normalize_error, fun ⟨hfault, hbefore⟩ => ?_⟩
  cases hnormalize : record.normalize with
  | ok d =>
    rw [faultAt?_of_normalize_ok hnormalize] at hfault
    cases hfault
  | error found =>
    -- of two keys at fault neither comes before the other
    obtain ⟨hfound, hearlier⟩ := first_of_normalize_error hnormalize
    rcases precedes_or_eq_or_precedes found.key fault.key with h | h | h
    · rw [hbefore _ h] at hfound
      cases hfound
    · rw [h, hfault] at hfound
      rw [Option.some.inj hfound]
    · rw [hearlier _ h] at hfault
      cases hfault

theorem normalize_isOk_iff_faultless :
    (∃ d, record.normalize = .ok d) ↔ ∀ key, faultAt? record key = none := by
  constructor
  · rintro ⟨d, h⟩
    exact faultAt?_of_normalize_ok h
  · intro h
    cases hnormalize : record.normalize with
    | ok d => exact ⟨d, rfl⟩
    | error fault =>
      have hfault := (first_of_normalize_error hnormalize).1
      rw [h] at hfault
      cases hfault

end Records

/-! ### One field given another value -/

section Replaced

variable {record : Record} {d : Descriptor} {field : Field} {value : Json} {fault : NormalizeError}
  (h : record.normalize = .ok d) (hfield : field ∈ Field.all)

theorem check_insert (hnull : value ≠ .null) :
    check (Members.insert field.name value record) field = settle field value := by
  rw [check_eq, DefinitionSchema.lookup_of_find? (Members.find?_insert_self _ _ _) hnull]

include h hfield

/-- An accepted record is refused for the one field whose value is at fault. -/
theorem normalize_insert_of_fault (hnull : value ≠ .null)
    (hfault : fault? field value = some fault) :
    Record.normalize (Members.insert field.name value record) = .error fault := by
  have hcheck : check (Members.insert field.name value record) field = .error fault := by
    rw [check_insert hnull, settle, hfault]
  rw [normalize_eq_error_iff_first, (blames_of_check hfield hcheck).key_eq hfield]
  refine ⟨(faultAt?_name hfield).trans (faultOf?_eq_some_iff.2 hcheck), fun key hkey => ?_⟩
  have hne : key ≠ field.name := by
    rintro rfl
    exact not_precedes_self _ hkey
  rw [faultAt?_congr (Members.find?_insert_of_ne hne _ _), faultAt?_of_normalize_ok h]

/-- An accepted record with another value for one field, not at fault either, makes the descriptor
that has this value and is the same otherwise. -/
theorem normalize_insert_of_faultless (hfault : fault? field value = none) :
    ∃ made, Record.normalize (Members.insert field.name value record) = .ok made ∧
      made.toRecord = Members.insert field.name value d.toRecord := by
  have hnull : value ≠ .null := by
    rintro rfl
    exact fault?_null field hfault
  have hcheck : check (Members.insert field.name value record) field = .ok value := by
    rw [check_insert hnull, settle, hfault]
  obtain ⟨made, hmade⟩ : ∃ made,
      Record.normalize (Members.insert field.name value record) = .ok made := by
    refine normalize_isOk_iff_faultless.2 fun key => ?_
    by_cases hkey : key = field.name
    · rw [hkey, faultAt?_name hfield, faultOf?_eq_none_iff]
      exact ⟨value, hcheck⟩
    · rw [faultAt?_congr (Members.find?_insert_of_ne hkey _ _), faultAt?_of_normalize_ok h]
  refine ⟨made, hmade, Members.eq_of_find?_eq (Members.ascending_ofList _)
    (Members.ascending_insert _ _ (Members.ascending_ofList _)) fun key => ?_⟩
  by_cases hkey : key = field.name
  · rw [hkey, Members.find?_insert_self, Projection.find?_toRecord_eq_filled hmade hfield]
    exact ((check_eq_ok_iff hfield).1 hcheck).1
  · rw [Members.find?_insert_of_ne hkey]
    by_cases hdeclared : key ∈ Field.all.map Field.name
    · obtain ⟨other, hother, rfl⟩ := List.mem_map.1 hdeclared
      rw [Projection.find?_toRecord_eq_filled hmade hother,
        Projection.find?_toRecord_eq_filled h hother, filled, filled, Record.lookup, Record.lookup,
        Members.find?_insert_of_ne hkey]
    · have hnone : ∀ e : Descriptor, Members.find? key e.toRecord = none := fun e =>
        Members.find?_eq_none_iff.2 fun hmem =>
          hdeclared ((Projection.keys_toRecord e).mem_iff.1 hmem)
      rw [hnone, hnone]

end Replaced

end FieldTable

end TestJob
