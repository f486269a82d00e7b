import Mathlib
import TestJob.Builder
import TestJob.Proofs.Projection

/-!
What a builder builds. A row of calls leaves a record with the last value that was set for each
field (`holdsLast_record`), so `build` is the check of that record. Since every setter puts a value
of the right kind under the name of a field, a fault of the record is one of values and not of kinds
or names (`mild_of_build_error`); and the fields of a descriptor are values to set, so that every
descriptor can be built (`record_settingsOf`).
-/

namespace TestJob

open FieldTable

/-- A call of a builder. -/
inductive BuilderCall where
  | set (setting : Setting)
  | build

namespace BuilderCall

/-- The setting of a call, if it is one. -/
def setting? : BuilderCall → Option Setting
  | set setting => some setting
  | build => none

end BuilderCall

/-- The last value that settings give to a key. -/
def Setting.last? (settings : List Setting) (key : String) : Option Json :=
  ((settings.flatMap members).reverse.find? fun m => m.1 = key).map Prod.snd

/-- The keys that a setting gives values to. -/
def Setting.keys (setting : Setting) : List String := Members.keys setting.members

namespace Builder

/-- The builder that settings leave, one after the other. -/
def after (settings : List Setting) : Builder := settings.foldl set empty

/-- What the `build` calls in a row of calls give, and the builder in the end. -/
def runCalls (b : Builder) : List BuilderCall → List (Except NormalizeError Descriptor) × Builder
  | [] => ([], b)
  | .set setting :: calls => (b.set setting).runCalls calls
  | .build :: calls => (b.build :: (b.runCalls calls).1, (b.runCalls calls).2)

/-- A mapping that gives each key the last value set for it, and no other key a value. -/
def HoldsLast (settings : List Setting) (record : Record) : Prop :=
  Members.Ascending record ∧ ∀ key, Members.find? key record = Setting.last? settings key

/-! ### The record -/

theorem record_after (settings : List Setting) :
    (after settings).record = Members.ofList (settings.flatMap Setting.members) := by
  suffices h : ∀ b : Builder, (settings.foldl set b).record =
      (settings.flatMap Setting.members).foldl
        (fun record m => Members.insert m.1 m.2 record) b.record from h empty
  induction settings with
  | nil => intro b; rfl
  | cons setting settings ih =>
    intro b
    rw [List.foldl_cons, ih, List.flatMap_cons, List.foldl_append]
    rfl

theorem holdsLast_record (settings : List Setting) :
    HoldsLast settings (after settings).record := by
  rw [record_after]
  exact ⟨Members.ascending_ofList _, fun key => Members.find?_ofList_eq key _⟩

/-- The last values settle the record. -/
theorem HoldsLast.eq {settings : List Setting} {record other : Record}
    (h : HoldsLast settings record) (h' : HoldsLast settings other) : record = other :=
  Members.eq_of_find?_eq h.1 h'.1 fun key => (h.2 key).trans (h'.2 key).symm

/-! ### Calls in a row -/

theorem runCalls_append (b : Builder) (calls more : List BuilderCall) :
    b.runCalls (calls ++ more) =
      ((b.runCalls calls).1 ++ ((b.runCalls calls).2.runCalls more).1,
        ((b.runCalls calls).2.runCalls more).2) := by
  induction calls generalizing b with
  | nil => rfl
  | cons call calls ih =>
    cases call with
    | set setting => exact ih (b.set setting)
    | build => simp [runCalls, ih]

/-- A builder is left as the settings alone leave it. -/
theorem runCalls_snd (b : Builder) (calls : List BuilderCall) :
    (b.runCalls calls).2 = (calls.filterMap BuilderCall.setting?).foldl set b := by
  induction calls generalizing b with
  | nil => rfl
  | cons call calls ih =>
    cases call with
    | set setting => exact ih (b.set setting)
    | build => exact ih b

/-! ### The order of settings -/

theorem find?_members_eq_none {setting : Setting} {key : String} (h : key ∉ setting.keys) :
    (setting.members.reverse.find? fun m => m.1 = key) = none := by
  rw [List.find?_eq_none]
  intro m hm hkey
  refine h ?_
  rw [← of_decide_eq_true hkey]
  exact List.mem_map_of_mem (List.mem_reverse.1 hm)

/-- Where two settings give values to different keys, the last values do not depend on which of
them comes first. -/
theorem last?_swap {s t : Setting} (hkeys : s.keys.Disjoint t.keys) (before later : List Setting)
    (key : String) :
    Setting.last? (before ++ s :: t :: later) key =
      Setting.last? (before ++ t :: s :: later) key := by
  have hor : ((t.members.reverse.find? fun m => m.1 = key).or
        (s.members.reverse.find? fun m => m.1 = key)) =
      ((s.members.reverse.find? fun m => m.1 = key).or
        (t.members.reverse.find? fun m => m.1 = key)) := by
    by_cases hs : key ∈ s.keys
    · rw [find?_members_eq_none (hkeys hs), Option.none_or, Option.or_none]
    · rw [find?_members_eq_none hs, Option.none_or, Option.or_none]
  simp only [Setting.last?, List.flatMap_append, List.flatMap_cons, List.reverse_append,
    List.find?_append]
  congr 2
  rw [Option.or_assoc, hor, ← Option.or_assoc]

theorem after_swap {s t : Setting} (hkeys : s.keys.Disjoint t.keys)
    (before later : List Setting) :
    after (before ++ s :: t :: later) = after (before ++ t :: s :: later) := by
  have hleft := holdsLast_record (before ++ s :: t :: later)
  have hright := holdsLast_record (before ++ t :: s :: later)
  have hrecord : (after (before ++ s :: t :: later)).record =
      (after (before ++ t :: s :: later)).record := by
    refine Members.eq_of_find?_eq hleft.1 hright.1 fun key => ?_
    rw [hleft.2, hright.2, last?_swap hkeys]
  exact congrArg Builder.mk hrecord

/-! ### Faults -/

/-- A fault of a value that has the kind of its field. -/
def Mild : NormalizeError → Prop
  | .typeMismatch _ _ _ => False
  | .unknownField _ => False
  | .invalidRange _ value => value = 0
  | _ => True

/-- A value that a setter gives to a field of a kind. -/
def Typed : FieldKind → Json → Prop
  | .string, value => ∃ text, value = .str text
  | .integer _, value => ∃ n, value = Descriptor.count n
  | .boolean, value => ∃ flag, value = .bool flag
  | .stringList, value => ∃ names : List String, value = .arr (names.map Json.str)
  | .mapping, value => ∃ members, value = .obj members

/-- A setter gives values to fields, each a value of the kind of the field. -/
theorem typed_of_mem_members {setting : Setting} :
    ∀ m ∈ setting.members, ∃ field ∈ Field.all, field.name = m.1 ∧ Typed field.kind m.2 := by
  cases setting <;>
    simp [Setting.members, Field.all, Typed, FieldName.amiImageId]

theorem mild_of_typed {field : Field} (hfield : field ∈ Field.all) {value : Json}
    (h : Typed field.kind value) {fault : NormalizeError} (hfault : fault? field value = some fault) :
    Mild fault := by
  obtain ⟨name, kind, default, description⟩ := field
  cases kind with
  | string =>
    obtain ⟨text, rfl⟩ := h
    simp only [fault?] at hfault
    split_ifs at hfault
    cases hfault
    trivial
  | integer least =>
    obtain ⟨n, rfl⟩ := h
    have hone : least.toNat = 1 := by
      simp only [Field.all, List.mem_cons, Field.mk.injEq, FieldKind.integer.injEq, reduceCtorEq,
        false_and, and_false, false_or, or_false, List.not_mem_nil] at hfield
      rcases hfield with ⟨_, rfl, _⟩ | ⟨_, rfl, _⟩ <;> rfl
    have hlt := n.toNat_lt
    simp only [fault?, Descriptor.count, Number.ofUInt32] at hfault
    split_ifs at hfault with hrange
    cases hfault
    change (n.toNat : Int) = 0
    omega
  | boolean =>
    obtain ⟨flag, rfl⟩ := h
    cases hfault
  | stringList =>
    obtain ⟨names, rfl⟩ := h
    obtain ⟨⟨item, index⟩, hmem, hitem⟩ := List.exists_of_findSome?_eq_some hfault
    obtain ⟨text, _, rfl⟩ := List.mem_map.1 (List.fst_mem_of_mem_zipIdx hmem)
    simp only [itemFault?] at hitem
    split_ifs at hitem <;> cases hitem <;> trivial
  | mapping =>
    obtain ⟨members, rfl⟩ := h
    cases hfault

/-- Every member of the record was put there by a setter. -/
theorem typed_of_mem_record {settings : List Setting} {m : String × Json}
    (h : m ∈ (after settings).record) : ∃ field ∈ Field.all, field.name = m.1 ∧
      Typed field.kind m.2 := by
  rw [record_after] at h
  obtain ⟨setting, _, hm⟩ := List.mem_flatMap.1 (Members.mem_of_mem_ofList h)
  exact typed_of_mem_members m hm

theorem undeclared_after (settings : List Setting) : undeclared (after settings).record = [] := by
  rw [undeclared, List.filter_eq_nil_iff]
  intro key hkey
  obtain ⟨m, hm, rfl⟩ := List.mem_map.1 hkey
  obtain ⟨field, hfield, hname, _⟩ := typed_of_mem_record hm
  simpa [← hname] using ⟨field, hfield, rfl⟩

/-- The faults of a builder are those of values of the right kind: one that is missing or blank, a
number that is zero, a split that is blank or named twice. -/
theorem mild_of_build_error {settings : List Setting} {fault : NormalizeError}
    (h : (after settings).build = .error fault) : Mild fault := by
  obtain ⟨field, hfield, hcheck⟩ :=
    check_of_interpret_error (undeclared_after settings) (normalize_eq_error_iff.1 h)
  rw [check_eq] at hcheck
  cases hlookup : (after settings).record.lookup field.name with
  | none =>
    rw [hlookup] at hcheck
    cases hdefault : field.default with
    | none =>
      rw [hdefault] at hcheck
      cases hcheck
      trivial
    | some default =>
      rw [hdefault] at hcheck
      cases hcheck
  | some value =>
    rw [hlookup] at hcheck
    have hmem := Members.mem_of_find? (Option.eq_some_of_filter_eq_some hlookup)
    obtain ⟨other, hother, hname, htyped⟩ := typed_of_mem_record hmem
    obtain rfl : other = field := by
      have hfind := Projection.find?_name other hother
      rw [hname, Projection.find?_name field hfield] at hfind
      exact (Option.some.inj hfind).symm
    change settle other value = .error fault at hcheck
    cases hfault : fault? other value with
    | none =>
      rw [settle, hfault] at hcheck
      cases hcheck
    | some found =>
      rw [settle, hfault] at hcheck
      cases hcheck
      exact mild_of_typed hother htyped hfault

/-! ### Every descriptor -/

/-- The settings that stand for a descriptor. -/
def settingsOf (d : Descriptor) : List Setting :=
  [ .amiImageId d.amiImageId.text,
    .concurrentBuilds d.concurrentBuilds,
    .distro d.distroName d.distroVersion d.distroArch,
    .environment d.environment,
    .goldenImagesBranch d.goldenImagesBranch.text,
    .agentLabel d.agentLabel.text,
    .testEnvironmentName d.testEnvironmentName,
    .passthroughOptions d.passthroughOptions,
    .pythonVersion d.pythonVersion,
    .testSplits (d.testSplits.map Identifier.text),
    .timeoutMinutes d.timeoutMinutes,
    .useSpotInstances d.useSpotInstances,
    .stagedTestRun d.stagedTestRun ]

theorem record_settingsOf (d : Descriptor) : (after (settingsOf d)).record = d.toRecord := by
  have hsplits : (d.testSplits.map Identifier.text).map Json.str =
      d.testSplits.map Identifier.toJson := List.map_map
  have hmembers : (settingsOf d).flatMap Setting.members = d.fields := by
    simp only [settingsOf, List.flatMap_cons, Setting.members, hsplits]
    rfl
  rw [record_after, hmembers, Projection.toRecord_eq]

/-- What is built after a row of calls from an empty builder is the check of the record with the
last value set for each field, of which there is one. Settings for different fields may change
places, and a `build` among the calls changes no answer but adds its own. What is built fails for
values alone, and what can be built is what records are checked to be. -/
theorem build_is_normalize :
    (∀ calls, ∃ record, (∀ other, HoldsLast (calls.filterMap BuilderCall.setting?) other ↔
        other = record) ∧ (empty.runCalls calls).2.build = record.normalize) ∧
    (∀ (s t : Setting), s.keys.Disjoint t.keys → ∀ calls later,
      empty.runCalls (calls ++ .set s :: .set t :: later) =
        empty.runCalls (calls ++ .set t :: .set s :: later)) ∧
    (∀ calls later, ∃ answers,
      empty.runCalls (calls ++ later) =
        ((empty.runCalls calls).1 ++ answers, (empty.runCalls (calls ++ later)).2) ∧
      empty.runCalls (calls ++ .build :: later) =
        ((empty.runCalls calls).1 ++ (empty.runCalls calls).2.build :: answers,
          (empty.runCalls (calls ++ later)).2)) ∧
    (∀ calls fault, (empty.runCalls calls).2.build = .error fault →
      (∀ field expected actual, fault ≠ .typeMismatch field expected actual) ∧
        (∀ field, fault ≠ .unknownField field) ∧
        ∀ field value, fault = .invalidRange field value → value = 0) ∧
    ∀ d, (∃ record : Record, record.normalize = .ok d) ↔
      ∃ calls, (empty.runCalls calls).2.build = .ok d := by
  refine ⟨fun calls => ?_, fun s t hkeys calls later => ?_, fun calls later => ?_,
    fun calls fault h => ?_, fun d => ⟨?_, ?_⟩⟩
  · have hlast := holdsLast_record (calls.filterMap BuilderCall.setting?)
    refine ⟨_, fun other => ⟨fun h => h.eq hlast, ?_⟩, by rw [runCalls_snd]; rfl⟩
    rintro rfl
    exact hlast
  · have hswap : ((empty.runCalls calls).2.set s).set t = ((empty.runCalls calls).2.set t).set s := by
      have h := after_swap hkeys (calls.filterMap BuilderCall.setting?) []
      simpa [after, runCalls_snd] using h
    simp only [runCalls_append, runCalls, hswap]
  · refine ⟨((empty.runCalls calls).2.runCalls later).1, ?_, ?_⟩
    · rw [runCalls_append]
    · simp only [runCalls_append, runCalls]
  · rw [runCalls_snd] at h
    have hmild := mild_of_build_error h
    refine ⟨?_, ?_, ?_⟩
    · rintro field expected actual rfl
      exact hmild
    · rintro field rfl
      exact hmild
    · rintro field value rfl
      exact hmild
  · rintro ⟨record, h⟩
    refine ⟨(settingsOf d).map .set, ?_⟩
    have hsettings : ((settingsOf d).map .set).filterMap BuilderCall.setting? = settingsOf d := by
      rw [List.filterMap_map]
      exact List.filterMap_some
    rw [runCalls_snd, hsettings]
    change (after (settingsOf d)).record.normalize = .ok d
    rw [record_settingsOf, Projection.normalize_toRecord h]
  · rintro ⟨calls, h⟩
    exact ⟨_, h⟩

/-- Calls that set two fields, the first of them twice, with a `build` in between. -/
def sampleCalls : List BuilderCall :=
  [.set (.amiImageId " "), .build, .set (.amiImageId "ami"), .set (.concurrentBuilds 0)]

theorem build_is_normalize_sample :
    (Setting.amiImageId "ami").keys.Disjoint (Setting.concurrentBuilds 0).keys ∧
      empty.runCalls sampleCalls = empty.runCalls
        [.set (.amiImageId " "), .build, .set (.concurrentBuilds 0), .set (.amiImageId "ami")] ∧
      (∃ fault, (empty.runCalls sampleCalls).2.build = .error fault ∧
        fault = .invalidRange FieldName.concurrentBuilds 0 ∧
        ∀ field value, fault = .invalidRange field value → value = 0) ∧
      Projection.sample.normalize = .ok Projection.sampleDescriptor ∧
      ∃ calls, (empty.runCalls calls).2.build = .ok Projection.sampleDescriptor := by
  have hkeys : (Setting.amiImageId "ami").keys.Disjoint (Setting.concurrentBuilds 0).keys := by
    rw [← List.disjoint_toFinset_iff_disjoint]
    decide
  have hfault : (empty.runCalls sampleCalls).2.build =
      .error (.invalidRange FieldName.concurrentBuilds 0) := by
    decide +kernel
  have haccepted : Projection.sample.normalize = .ok Projection.sampleDescriptor := rfl
  obtain ⟨_, hswap, _, hmild, hsame⟩ := build_is_normalize
  exact ⟨hkeys, hswap _ _ hkeys [.set (.amiImageId " "), .build] [],
    ⟨_, hfault, rfl, (hmild _ _ hfault).2.2⟩, haccepted, (hsame _).1 ⟨_, haccepted⟩⟩

end Builder

end TestJob
