import Mathlib
import TestJob.Normalize
import TestJob.Proofs.Outcome
import TestJob.Proofs.SplitList
import TestJob.Proofs.Text

/-!
The field table as a rule of its own. `FieldTable.interpret` judges a record by walking
`Field.all`: what is wrong with a value is read off the kind in the declaration, what stands in for
an absent one off the default, and the first field at fault decides. `fields_normalize` says that
`normalize`, which reads the fifteen fields one by one, is this interpreter.
-/

namespace TestJob

/-- The fields of a descriptor as values, in the order in which they are declared. -/
def Descriptor.fields (d : Descriptor) : List (String × Json) :=
  [ (FieldName.amiImageId, d.amiImageId.toJson),
    (FieldName.concurrentBuilds, count d.concurrentBuilds),
    (FieldName.distroName, .str d.distroName),
    (FieldName.distroVersion, .str d.distroVersion),
    (FieldName.distroArch, .str d.distroArch),
    (FieldName.environment, .obj d.environment),
    (FieldName.goldenImagesBranch, d.goldenImagesBranch.toJson),
    (FieldName.agentLabel, d.agentLabel.toJson),
    (FieldName.testEnvironmentName, .str d.testEnvironmentName),
    (FieldName.passthroughOptions, .str d.passthroughOptions),
    (FieldName.pythonVersion, .str d.pythonVersion),
    (FieldName.testSplits, .arr (d.testSplits.map Identifier.toJson)),
    (FieldName.timeoutMinutes, count d.timeoutMinutes),
    (FieldName.useSpotInstances, .bool d.useSpotInstances),
    (FieldName.stagedTestRun, .bool d.stagedTestRun) ]

namespace FieldTable

/-- The fault of an item of a list, the items in front of it being given. -/
def itemFault? (name : String) (before : List Json) : Json → Option NormalizeError
  | .str text =>
    if Text.trim text = "" then some .emptySplitName
    else if .str text ∈ before then some (.duplicateSplit text)
    else none
  | value =>
    some (.typeMismatch (name ++ "[" ++ toString before.length ++ "]") FieldKind.string.label
      (.of value))

/-- The fault of the first item that has one. -/
def listFault? (name : String) (items : List Json) : Option NormalizeError :=
  items.zipIdx.findSome? fun (item, index) => itemFault? name (items.take index) item

/-- What is wrong with the value of a field. -/
def fault? (field : Field) (value : Json) : Option NormalizeError :=
  match field.kind, value with
  | .string, .str text =>
    if field.isRequired ∧ Text.trim text = "" then some (.emptyField field.name) else none
  | .integer least, .num (.int n _) =>
    if least.toNat ≤ n ∧ n ≤ 4294967295 then none else some (.invalidRange field.name n)
  | .boolean, .bool _ => none
  | .stringList, .arr items => listFault? field.name items
  | .mapping, .obj _ => none
  | kind, value => some (.typeMismatch field.name kind.label (.of value))

/-- The value that a field may take, or its fault. -/
def settle (field : Field) (value : Json) : Except NormalizeError Json :=
  match fault? field value with
  | some fault => .error fault
  | none => .ok value

/-- The value of a field, or its default where it is absent or null. -/
def check (record : Record) (field : Field) : Except NormalizeError Json :=
  match Members.find? field.name record, field.default with
  | none, none => .error (.missingField field.name)
  | some .null, none => .error (.missingField field.name)
  | none, some default => .ok default.toJson
  | some .null, some default => .ok default.toJson
  | some value, _ => settle field value

/-- The values of fields in order, or the fault of the first that has one. -/
def values (record : Record) : List Field → Except NormalizeError (List (String × Json))
  | [] => pure []
  | field :: rest => do
    let value ← check record field
    let others ← values record rest
    return (field.name, value) :: others

/-- The keys that no field declares. -/
def undeclared (record : Record) : List String :=
  (Members.keys record).filter fun key => key ∉ Field.all.map Field.name

/-- The undeclared key whose bytes come first. -/
def leastUndeclared? (record : Record) : Option String :=
  (undeclared record).find? fun key =>
    ∀ other ∈ undeclared record, Utf8.encode key ≤ Utf8.encode other

/-- The values of all fields, or the first fault; an undeclared key comes last. -/
def interpret (record : Record) : Except NormalizeError (List (String × Json)) := do
  let values ← values record Field.all
  match leastUndeclared? record with
  | some key => throw (.unknownField key)
  | none => return values

/-! ### Lists -/

section Lists

variable {items : List Json} {item : Json} {i : Nat} {fault : NormalizeError}

/-- An item that the table finds at fault is at fault in its place. -/
theorem faultAt_of_itemFault? (hitem : items[i]? = some item)
    (h : itemFault? FieldName.testSplits (items.take i) item = some fault) :
    SplitList.FaultAt items i fault := by
  obtain ⟨hi, _⟩ := List.getElem?_eq_some_iff.1 hitem
  cases item with
  | str text =>
    rw [itemFault?] at h
    split_ifs at h with hblank hseen
    · exact Option.some.inj h ▸ .blank hitem hblank
    · obtain ⟨j, hj, hget⟩ := List.mem_take_iff_getElem.1 hseen
      have hsame : items[j]? = some (.str text) := List.getElem?_eq_some_iff.2 ⟨by omega, hget⟩
      exact Option.some.inj h ▸ .repeated hitem hblank (by omega) hsame
  | _ =>
    simp only [itemFault?, List.length_take_of_le hi.le] at h
    exact Option.some.inj h ▸ .notText hitem nofun

theorem exists_itemFault? (h : SplitList.FaultAt items i fault) :
    ∃ item, items[i]? = some item ∧
      itemFault? FieldName.testSplits (items.take i) item = some fault := by
  have hlength : (items.take i).length = i := List.length_take_of_le h.lt_length.le
  cases h with
  | @notText item hitem hkind =>
    refine ⟨item, hitem, ?_⟩
    cases item with
    | str text => exact absurd rfl (hkind text)
    | _ =>
      simp only [itemFault?, hlength]
      rfl
  | @blank text hitem hblank => exact ⟨.str text, hitem, by rw [itemFault?, if_pos hblank]⟩
  | @repeated text j hitem hblank hearlier hsame =>
    have hseen : .str text ∈ items.take i :=
      List.mem_of_getElem? ((List.getElem?_take_of_lt hearlier).trans hsame)
    exact ⟨.str text, hitem, by rw [itemFault?, if_neg hblank, if_pos hseen]⟩

/-- The item that is found is at the first place at fault. -/
theorem firstFault_of_listFault? (h : listFault? FieldName.testSplits items = some fault) :
    ∃ i, SplitList.FirstFault items i fault := by
  obtain ⟨before, _, after, hsplit, hfault, hbefore⟩ := List.findSome?_eq_some_iff.1 h
  obtain ⟨front, back, rfl, rfl, hback⟩ := List.zipIdx_eq_append_iff.1 hsplit
  obtain ⟨item, rest, rfl, rfl, _⟩ := List.zipIdx_eq_cons_iff.1 hback.symm
  rw [Nat.zero_add] at hfault
  refine ⟨front.length, faultAt_of_itemFault? (by simp) hfault, fun j hj other hother => ?_⟩
  obtain ⟨earlier, hearlier, hfound⟩ := exists_itemFault? hother
  rw [List.getElem?_append_left hj] at hearlier
  have hnone := hbefore (earlier, j) (List.mk_mem_zipIdx_iff_getElem?.2 hearlier)
  cases hnone.symm.trans hfound

/-- Reading the names of splits is looking for the first item at fault. -/
theorem splits_nil (items : List Json) :
    (fun splits => splits.map Identifier.toJson) <$> Record.splits [] items =
      match listFault? FieldName.testSplits items with
      | some fault => .error fault
      | none => .ok items := by
  cases hlist : listFault? FieldName.testSplits items with
  | some fault =>
    rw [SplitList.splits_eq_error_iff.2 (firstFault_of_listFault? hlist)]
    rfl
  | none =>
    rcases SplitList.splits_ends items with ⟨names, hread, haccepted⟩ | ⟨_, i, _, hfirst⟩
    · rw [hread]
      exact congrArg Except.ok haccepted.verbatim
    · obtain ⟨item, hitem, hfault⟩ := exists_itemFault? hfirst.here
      have hnone := List.findSome?_eq_none_iff.1 hlist (item, i)
        (List.mk_mem_zipIdx_iff_getElem?.2 hitem)
      cases hnone.symm.trans hfault

end Lists

/-! ### Each reader is its declaration -/

section Readers

variable (record : Record) (name description : String)

/-- Null and absence are one case. -/
theorem check_eq (field : Field) :
    check record field =
      match record.lookup field.name, field.default with
      | some value, _ => settle field value
      | none, some default => .ok default.toJson
      | none, none => .error (.missingField field.name) := by
  rw [check, Record.lookup]
  cases Members.find? field.name record with
  | none => cases field.default <;> rfl
  | some value => cases value <;> cases field.default <;> rfl

theorem fault?_requiredString (text : String) :
    fault? ⟨name, .string, none, description⟩ (.str text) =
      if Text.isBlank text then some (.emptyField name) else none := by
  simp only [fault?, Field.isRequired, Option.isNone_none, true_and, Text.isBlank_iff_trim_eq]

theorem check_requiredString :
    check record ⟨name, .string, none, description⟩ = Json.str <$> record.requiredString name := by
  rw [check_eq, Record.requiredString]
  cases record.lookup name with
  | none => rfl
  | some value =>
    cases value with
    | str text =>
      dsimp only
      rw [settle, fault?_requiredString]
      cases Text.isBlank text <;> rfl
    | _ => rfl

theorem fault?_optionalString (default : FieldDefault) (text : String) :
    fault? ⟨name, .string, some default, description⟩ (.str text) = none := by
  simp [fault?, Field.isRequired]

theorem check_optionalString (default : String) :
    check record ⟨name, .string, some (.string default), description⟩ =
      Json.str <$> record.optionalString name default := by
  rw [check_eq, Record.optionalString]
  cases record.lookup name with
  | none => rfl
  | some value =>
    cases value with
    | str text =>
      dsimp only
      rw [settle, fault?_optionalString]
      rfl
    | _ => rfl

theorem check_optionalBool (default : Bool) :
    check record ⟨name, .boolean, some (.boolean default), description⟩ =
      Json.bool <$> record.optionalBool name default := by
  rw [check_eq, Record.optionalBool]
  rcases record.lookup name with _ | _ | _ | _ | _ | _ | _ <;> rfl

theorem check_requiredMapping :
    check record ⟨name, .mapping, none, description⟩ =
      Json.obj <$> record.requiredMapping name := by
  rw [check_eq, Record.requiredMapping]
  rcases record.lookup name with _ | _ | _ | _ | _ | _ | _ <;> rfl

theorem check_requiredInteger (least : UInt32) :
    check record ⟨name, .integer least, none, description⟩ =
      Descriptor.count <$> record.requiredInteger name least := by
  rw [check_eq, Record.requiredInteger]
  cases record.lookup name with
  | none => rfl
  | some value =>
    cases value with
    | num number =>
      cases number with
      | float => rfl
      | int n fits =>
        dsimp only [settle, fault?]
        by_cases hrange : least.toNat ≤ n ∧ n < 4294967296
        · have hcount : Descriptor.count (UInt32.ofNat n.toNat) = .num (.int n fits) := by
            rw [Descriptor.count, Number.ofUInt32]
            congr 2
            rw [UInt32.toNat_ofNat']
            omega
          rw [if_pos hrange, if_pos ⟨hrange.1, by omega⟩, ← hcount]
          rfl
        · rw [if_neg hrange, if_neg fun h => hrange ⟨h.1, by omega⟩]
          rfl
    | _ => rfl

theorem check_optionalSplits :
    check record ⟨FieldName.testSplits, .stringList, some .emptyList, description⟩ =
      (fun splits => Json.arr (splits.map Identifier.toJson)) <$> record.optionalSplits := by
  rw [check_eq, Record.optionalSplits]
  cases record.lookup FieldName.testSplits with
  | none => rfl
  | some value =>
    cases value with
    | arr items =>
      have hsplits : (fun splits => Json.arr (splits.map Identifier.toJson)) <$>
            Record.splits [] items =
          Json.arr <$> (fun splits => splits.map Identifier.toJson) <$> Record.splits [] items :=
        (Functor.map_map _ _ _).symm
      dsimp only [settle, fault?]
      rw [hsplits, splits_nil]
      cases listFault? FieldName.testSplits items <;> rfl
    | _ => rfl

end Readers

/-! ### Undeclared keys -/

theorem find?_isNone_iff {key : String} :
    (Field.find? key).isNone = true ↔ key ∉ Field.all.map Field.name := by
  rw [Field.find?, Option.isNone_iff_eq_none, List.find?_eq_none, List.mem_map]
  simp only [decide_eq_true_eq, not_exists, not_and]

/-- The fold keeps the least of the keys that it has met. -/
theorem foldl_lesser : ∀ (keys : List String) (first : String),
    ∃ least ∈ first :: keys, keys.foldl Record.lesser (some first) = some least ∧
      ∀ other ∈ first :: keys, least ≤ other
  | [], first => ⟨first, List.mem_singleton_self _, rfl, by simp⟩
  | key :: rest, first => by
    obtain ⟨least, hmem, hfold, hle⟩ := foldl_lesser rest (min first key)
    have hstep : Record.lesser (some first) key = some (min first key) := by
      rw [Record.lesser]
      by_cases hlt : key < first
      · rw [if_pos hlt, min_eq_right hlt.le]
      · rw [if_neg hlt, min_eq_left (not_lt.1 hlt)]
    refine ⟨least, ?_, by rw [List.foldl_cons, hstep, hfold], ?_⟩
    · rcases List.mem_cons.1 hmem with rfl | hmem
      · rcases min_choice first key with h | h <;> rw [h] <;> simp
      · exact List.mem_cons_of_mem _ (List.mem_cons_of_mem _ hmem)
    · have hmin := hle _ List.mem_cons_self
      intro other hother
      rcases List.mem_cons.1 hother with rfl | hother
      · exact hmin.trans (min_le_left _ _)
      · rcases List.mem_cons.1 hother with rfl | hother
        · exact hmin.trans (min_le_right _ _)
        · exact hle _ (List.mem_cons_of_mem _ hother)

theorem leastUndeclared?_eq (record : Record) :
    leastUndeclared? record = (undeclared record).foldl Record.lesser none := by
  rw [leastUndeclared?]
  cases undeclared record with
  | nil => rfl
  | cons first rest =>
    obtain ⟨least, hmem, hfold, hle⟩ := foldl_lesser rest first
    refine Eq.trans ?_ hfold.symm
    cases hfind : (first :: rest).find? _ with
    | none =>
      refine absurd ?_ (List.find?_eq_none.1 hfind least hmem)
      exact decide_eq_true fun other hother => Utf8.encode_le_iff.2 (hle other hother)
    | some key =>
      have hkey := of_decide_eq_true (List.find?_some (p := fun key => decide _) hfind)
      have hle' := Utf8.encode_le_iff.1 (hkey least hmem)
      rw [hle'.antisymm (hle key (List.mem_of_find?_eq_some hfind))]

theorem leastUndeclared?_eq_none_iff {record : Record} :
    leastUndeclared? record = none ↔ undeclared record = [] := by
  rw [leastUndeclared?_eq]
  cases undeclared record with
  | nil => exact iff_of_true rfl rfl
  | cons first rest =>
    obtain ⟨least, _, hfold, _⟩ := foldl_lesser rest first
    refine iff_of_false ?_ (List.cons_ne_nil _ _)
    intro hnone
    exact Option.some_ne_none least (hfold.symm.trans hnone)

theorem unknown?_eq (record : Record) : record.unknown? = leastUndeclared? record := by
  have hkeys : ((Members.keys record).filter fun key => (Field.find? key).isNone) =
      undeclared record := by
    refine List.filter_congr fun key _ => ?_
    rw [Bool.eq_iff_iff, find?_isNone_iff, decide_eq_true_iff]
  rw [Record.unknown?, hkeys, leastUndeclared?_eq]

/-! ### The table and the reading of a record -/

theorem count_injective : Function.Injective Descriptor.count := by
  intro m n h
  exact UInt32.toNat_inj.1 (Int.ofNat_inj.1 (Number.int.inj (Json.num.inj h)))

/-- The values of the fields settle a descriptor. -/
theorem fields_injective : Function.Injective Descriptor.fields := by
  intro d e h
  simp only [Descriptor.fields, List.cons.injEq, Prod.mk.injEq, true_and, and_true, Json.str.injEq,
    Json.obj.injEq, Json.arr.injEq, Json.bool.injEq, Identifier.toJson_injective.eq_iff,
    count_injective.eq_iff, (List.map_injective_iff.2 Identifier.toJson_injective).eq_iff] at h
  obtain ⟨h1, h2, h3, h4, h5, h6, h7, h8, h9, h10, h11, h12, h13, h14, h15⟩ := h
  cases d
  cases e
  congr

/-- Reading a record field by field is walking the table. -/
theorem fields_normalize (record : Record) :
    Descriptor.fields <$> record.normalize = interpret record := by
  rw [interpret, Record.normalize, Field.all]
  -- both sides are the same fifteen readers in a row; they differ in what is done at the end
  simp only [values, check_requiredString, check_requiredInteger, check_requiredMapping,
    check_optionalString, check_optionalSplits, check_optionalBool, bind_assoc, map_bind,
    bind_map_left, pure_bind, map_pure, Record.refuseUnknown, unknown?_eq]
  cases leastUndeclared? record <;> rfl

theorem normalize_eq_ok_iff {record : Record} {d : Descriptor} :
    record.normalize = .ok d ↔ interpret record = .ok d.fields := by
  rw [← fields_normalize]
  cases record.normalize with
  | error fault => exact iff_of_false (by simp) (by simp)
  | ok made => rw [Except.map_ok, Except.ok.injEq, Except.ok.injEq, fields_injective.eq_iff]

theorem normalize_eq_error_iff {record : Record} {fault : NormalizeError} :
    record.normalize = .error fault ↔ interpret record = .error fault := by
  rw [← fields_normalize]
  cases record.normalize with
  | error other => rw [Except.map_error, Except.error.injEq, Except.error.injEq]
  | ok made => exact iff_of_false (by simp) (by simp)

/-- A record is refused with a fault exactly when the table finds that fault first, and a
descriptor is made of it exactly when the table settles the values of its fields. -/
theorem normalize_iff_interpret (record : Record) :
    (∀ fault, record.normalize = .error fault ↔ interpret record = .error fault) ∧
      ∀ d, record.normalize = .ok d ↔ interpret record = .ok d.fields :=
  ⟨fun _ => normalize_eq_error_iff, fun _ => normalize_eq_ok_iff⟩

/-! ### What is settled in an accepted record -/

/-- What stands for a field in a record: the value that is given, or the default. -/
def filled (record : Record) (field : Field) : Option Json :=
  (record.lookup field.name).or (field.default.map FieldDefault.toJson)

theorem settle_eq_ok_iff {field : Field} {value settled : Json} :
    settle field value = .ok settled ↔ fault? field value = none ∧ value = settled := by
  rw [settle]
  cases fault? field value <;> simp

/-- Every default passes the check of its field. -/
theorem fault?_default : ∀ field ∈ Field.all, ∀ default ∈ field.default,
    fault? field default.toJson = none := by
  decide

theorem fault?_null (field : Field) : fault? field .null ≠ none := by
  obtain ⟨name, kind, default, description⟩ := field
  cases kind <;> exact Option.some_ne_none _

/-- The check settles what stands for the field, provided that it has no fault. -/
theorem check_eq_ok_iff {record : Record} {field : Field} (hfield : field ∈ Field.all)
    {value : Json} :
    check record field = .ok value ↔
      filled record field = some value ∧ fault? field value = none := by
  rw [check_eq, filled]
  cases record.lookup field.name with
  | some given =>
    rw [settle_eq_ok_iff, Option.some_or, Option.some.injEq]
    exact ⟨fun ⟨hfault, heq⟩ => ⟨heq, heq ▸ hfault⟩, fun ⟨heq, hfault⟩ => ⟨heq ▸ hfault, heq⟩⟩
  | none =>
    cases hdefault : field.default with
    | none => exact iff_of_false (by simp) (by simp)
    | some default =>
      rw [Option.none_or, Option.map_some, Option.some.injEq, Except.ok.injEq]
      exact ⟨fun heq => ⟨heq, heq ▸ fault?_default field hfield default hdefault⟩, And.left⟩

theorem values_congr {record other : Record} :
    ∀ {fields : List Field}, (∀ field ∈ fields, check record field = check other field) →
      values record fields = values other fields
  | [], _ => rfl
  | field :: rest, h => by
    rw [values, values, h field List.mem_cons_self,
      values_congr fun f hf => h f (List.mem_cons_of_mem _ hf)]

theorem check_of_values {record : Record} :
    ∀ {fields : List Field} {settled : List (String × Json)}, values record fields = .ok settled →
      ∀ field ∈ fields, ∃ value, (field.name, value) ∈ settled ∧ check record field = .ok value
  | first :: rest, settled, h, field, hfield => by
    rw [values, bind_eq_ok_iff] at h
    obtain ⟨value, hvalue, h⟩ := h
    obtain ⟨others, hothers, h⟩ := bind_eq_ok_iff.1 h
    obtain rfl : (first.name, value) :: others = settled := Except.ok.inj h
    rcases List.mem_cons.1 hfield with rfl | hfield
    · exact ⟨value, List.mem_cons_self, hvalue⟩
    · obtain ⟨v, hmem, hcheck⟩ := check_of_values hothers field hfield
      exact ⟨v, List.mem_cons_of_mem _ hmem, hcheck⟩

/-- Fields that are checked with the values that are listed for them have these values. -/
theorem values_of_check {record : Record} :
    ∀ {fields : List Field} {settled : List (String × Json)},
      Members.keys settled = fields.map Field.name →
      (∀ field ∈ fields, ∀ value, (field.name, value) ∈ settled →
        check record field = .ok value) →
      values record fields = .ok settled
  | [], settled, hkeys, _ => by
    rw [List.map_eq_nil_iff.1 hkeys]
    rfl
  | field :: rest, (key, value) :: others, hkeys, h => by
    obtain ⟨rfl, hrest⟩ := List.cons.inj hkeys
    have hothers := values_of_check hrest fun f hf v hv =>
      h f (List.mem_cons_of_mem _ hf) v (List.mem_cons_of_mem _ hv)
    rw [values, h field List.mem_cons_self value List.mem_cons_self, hothers]
    rfl

/-- A walk that ends in a fault ends at a field that has it, past fields that have none. -/
theorem first_of_values_error {record : Record} {fault : NormalizeError} :
    ∀ {fields : List Field}, values record fields = .error fault →
      ∃ field ∈ fields, check record field = .error fault ∧
        ∀ other ∈ fields.takeWhile fun other => other ≠ field,
          ∃ value, check record other = .ok value
  | first :: rest, h => by
    rw [values] at h
    cases hfirst : check record first with
    | error found =>
      rw [hfirst] at h
      obtain rfl := Except.error.inj h
      exact ⟨first, List.mem_cons_self, hfirst, by simp⟩
    | ok value =>
      rw [hfirst] at h
      cases hrest : values record rest with
      | ok others =>
        rw [hrest] at h
        cases h
      | error found =>
        rw [hrest] at h
        obtain rfl := Except.error.inj h
        obtain ⟨field, hfield, hcheck, hbefore⟩ := first_of_values_error hrest
        have hne : first ≠ field := by
          rintro rfl
          rw [hfirst] at hcheck
          cases hcheck
        refine ⟨field, List.mem_cons_of_mem _ hfield, hcheck, ?_⟩
        rw [List.takeWhile_cons_of_pos (by simpa using hne), List.forall_mem_cons]
        exact ⟨⟨value, hfirst⟩, hbefore⟩

/-- Where every key is declared, a fault is one of a field. -/
theorem check_of_interpret_error {record : Record} {fault : NormalizeError}
    (hdeclared : undeclared record = []) (h : interpret record = .error fault) :
    ∃ field ∈ Field.all, check record field = .error fault := by
  rw [interpret, leastUndeclared?_eq_none_iff.2 hdeclared] at h
  cases hvalues : values record Field.all with
  | ok settled =>
    rw [hvalues] at h
    cases h
  | error found =>
    rw [hvalues] at h
    cases h
    obtain ⟨field, hfield, hcheck, _⟩ := first_of_values_error hvalues
    exact ⟨field, hfield, hcheck⟩

theorem interpret_eq_ok_iff {record : Record} {settled : List (String × Json)} :
    interpret record = .ok settled ↔
      values record Field.all = .ok settled ∧ undeclared record = [] := by
  rw [interpret, ← leastUndeclared?_eq_none_iff, bind_eq_ok_iff]
  cases leastUndeclared? record with
  | none =>
    constructor
    · rintro ⟨made, hmade, h⟩
      cases h
      exact ⟨hmade, rfl⟩
    · exact fun h => ⟨settled, h.1, rfl⟩
  | some key =>
    refine iff_of_false ?_ nofun
    rintro ⟨_, _, h⟩
    cases h

/-! ### Which fault comes first -/

/-- The fields that are checked before a field. -/
def before (field : Field) : List Field := Field.all.takeWhile fun other => other ≠ field

/-- Where a field is at fault, the walk ends there or at a field before it. -/
theorem values_eq_error_of_check {record : Record} {field : Field} {fault : NormalizeError}
    (h : check record field = .error fault) :
    ∀ {fields : List Field}, field ∈ fields →
      ∃ e, values record fields = .error e ∧
        (e = fault ∨ ∃ other ∈ fields.takeWhile fun other => other ≠ field,
          check record other = .error e)
  | first :: rest, hfield => by
    by_cases hfirst : first = field
    · refine ⟨fault, ?_, .inl rfl⟩
      rw [values, hfirst, h]
      rfl
    · have hrest := (List.mem_cons.1 hfield).resolve_left (Ne.symm hfirst)
      rw [List.takeWhile_cons_of_pos (by simpa using hfirst), values]
      cases hcheck : check record first with
      | error e => exact ⟨e, rfl, .inr ⟨first, List.mem_cons_self, hcheck⟩⟩
      | ok value =>
        obtain ⟨e, hvalues, he⟩ := values_eq_error_of_check h hrest
        refine ⟨e, by rw [hvalues]; rfl, he.imp_right ?_⟩
        rintro ⟨other, hother, hother'⟩
        exact ⟨other, List.mem_cons_of_mem _ hother, hother'⟩

/-- A field at fault makes its record refused, with its own fault or that of a field before it. -/
theorem normalize_eq_error_of_check {record : Record} {field : Field} {fault : NormalizeError}
    (hfield : field ∈ Field.all) (h : check record field = .error fault) :
    ∃ e, record.normalize = .error e ∧
      (e = fault ∨ ∃ other ∈ before field, check record other = .error e) := by
  obtain ⟨e, hvalues, he⟩ := values_eq_error_of_check h hfield
  refine ⟨e, normalize_eq_error_iff.2 ?_, he⟩
  rw [interpret, hvalues]
  rfl

theorem findSome?_congr {α β : Type} {f g : α → Option β} :
    ∀ {xs : List α}, (∀ x ∈ xs, f x = g x) → xs.findSome? f = xs.findSome? g
  | [], _ => rfl
  | x :: xs, h => by
    obtain ⟨hx, hxs⟩ := List.forall_mem_cons.1 h
    rw [List.findSome?_cons, List.findSome?_cons, hx, findSome?_congr hxs]

theorem listFault?_append (name : String) (front back : List Json) :
    listFault? name (front ++ back) = (listFault? name front).or
      ((back.zipIdx front.length).findSome? fun (item, index) =>
        itemFault? name ((front ++ back).take index) item) := by
  have hfront : (front.zipIdx.findSome? fun (item, index) =>
      itemFault? name ((front ++ back).take index) item) = listFault? name front := by
    refine findSome?_congr fun m hm => ?_
    have hindex : m.2 ≤ front.length := by
      have := (List.mem_zipIdx hm).2.1
      omega
    dsimp only
    rw [List.take_append_of_le_length hindex]
  rw [listFault?, List.zipIdx_append, List.findSome?_append, hfront, Nat.zero_add]

/-- Where an item is at fault, the list has its fault or that of the items before it. -/
theorem listFault?_of_item {name : String} {items : List Json} {i : Nat} {item : Json}
    {fault : NormalizeError} (hitem : items[i]? = some item)
    (hfault : itemFault? name (items.take i) item = some fault) :
    ∃ e, listFault? name items = some e ∧
      (e = fault ∨ listFault? name (items.take i) = some e) := by
  obtain ⟨hi, hget⟩ := List.getElem?_eq_some_iff.1 hitem
  have hsplit : items = items.take i ++ item :: items.drop (i + 1) := by
    rw [← hget, List.getElem_cons_drop, List.take_append_drop]
  have hlength : (items.take i).length = i := List.length_take_of_le hi.le
  have hlist : listFault? name items = (listFault? name (items.take i)).or (some fault) := by
    conv_lhs => rw [hsplit]
    rw [listFault?_append, List.zipIdx_cons, List.findSome?_cons, ← hsplit]
    simp only [hlength, hfault]
  rw [hlist]
  cases hbefore : listFault? name (items.take i) with
  | none => exact ⟨fault, rfl, .inl rfl⟩
  | some e => exact ⟨e, rfl, .inr rfl⟩

end FieldTable

end TestJob
