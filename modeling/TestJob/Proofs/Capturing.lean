import Mathlib
import TestJob.Definition.Basic
import TestJob.Proofs.Projection

/-!
Captures one after the other, on a definition that is kept from call to call. `captureInPlace` is a
capture that changes the definition where it stands; `run_captureInPlace` says that it succeeds with
the definition that `capture` gives and otherwise leaves everything as it is. So the environment is
written once at most: by nobody if it is authored, else by the first call whose variables can be
taken (`captures_write_once`).
-/

namespace TestJob

/-- A call: which variables to take, and the listing to take them from. -/
structure CaptureCall where
  filter : Capture
  listing : List (Bytes × Bytes)

/-- The variables that a call takes. -/
def CaptureCall.collected (call : CaptureCall) : Except DefinitionFault Record :=
  call.filter.collect call.listing

namespace Definition

/-- The definition with an environment. -/
def filled (definition : Definition) (taken : Record) : Definition :=
  ⟨Members.insert FieldName.environment (.obj taken) definition.record, definition.source⟩

/-- Fills in the environment of the definition that is kept, unless it has one. -/
def fillIn (call : CaptureCall) (definition : Definition) :
    ExceptT DefinitionFault (StateM Definition) Unit :=
  match definition.record.lookup FieldName.environment with
  | some _ => return ()
  | none => do
    let taken ← ExceptT.mk (pure call.collected)
    set (definition.filled taken)

/-- A capture that changes the definition where it stands. -/
def captureInPlace (call : CaptureCall) : ExceptT DefinitionFault (StateM Definition) Unit := do
  fillIn call (← get)

/-- What calls answer one after the other, each with the definition that it leaves. -/
def captures (definition : Definition) :
    List CaptureCall → List (Except DefinitionFault Unit × Definition)
  | [] => []
  | call :: calls =>
    let outcome := (captureInPlace call).run.run definition
    outcome :: outcome.2.captures calls

/-- The definition that the last of the calls leaves. -/
def afterCaptures (definition : Definition) (calls : List CaptureCall) : Definition :=
  ((definition.captures calls).getLast?.map Prod.snd).getD definition

variable {definition : Definition} {call : CaptureCall} {taken : Record}

/-! ### One call -/

/-- A call in place leaves the definition that a capture gives, or the one it was made on. -/
theorem run_captureInPlace (definition : Definition) (call : CaptureCall) :
    (captureInPlace call).run.run definition =
      match definition.capture call.filter call.listing with
      | .ok after => (.ok (), after)
      | .error fault => (.error fault, definition) := by
  change (fillIn call definition).run.run definition = _
  rw [fillIn, capture, CaptureCall.collected]
  cases definition.record.lookup FieldName.environment with
  | some value => rfl
  | none => cases call.filter.collect call.listing <;> rfl

/-- An environment that is there already stays, whatever the listing is. -/
theorem run_captureInPlace_of_some {value : Json}
    (h : definition.record.lookup FieldName.environment = some value) :
    (captureInPlace call).run.run definition = (.ok (), definition) := by
  rw [run_captureInPlace, capture, h]

theorem run_captureInPlace_of_none (h : definition.record.lookup FieldName.environment = none) :
    (captureInPlace call).run.run definition =
      match call.collected with
      | .ok taken => (.ok (), definition.filled taken)
      | .error fault => (.error fault, definition) := by
  rw [run_captureInPlace, capture, h, CaptureCall.collected]
  cases call.filter.collect call.listing <;> rfl

/-! ### Calls one after the other -/

/-- Calls of which none takes anything: each fails and leaves the definition as it is. -/
def AllFail (definition : Definition) (calls : List CaptureCall) : Prop :=
  ∃ faults : List DefinitionFault, calls.map CaptureCall.collected = faults.map Except.error ∧
    definition.captures calls = faults.map fun fault => (.error fault, definition)

/-- Calls that fill in the environment once: those before the first that takes anything fail and
leave the definition as it is, that one fills in what it takes, and those after it change nothing
more. -/
def FillsOnce (definition : Definition) (calls : List CaptureCall) (taken : Record) : Prop :=
  ∃ (failing : List CaptureCall) (first : CaptureCall) (later : List CaptureCall),
    calls = failing ++ first :: later ∧ definition.AllFail failing ∧
      first.collected = .ok taken ∧
      definition.captures calls = definition.captures failing ++
        (first :: later).map fun _ => (.ok (), definition.filled taken)

theorem captures_of_some {value : Json}
    (h : definition.record.lookup FieldName.environment = some value) (calls : List CaptureCall) :
    definition.captures calls = calls.map fun _ => (.ok (), definition) := by
  induction calls with
  | nil => rfl
  | cons call calls ih => simp [captures, run_captureInPlace_of_some h, ih]

@[simp] theorem lookup_filled (definition : Definition) (taken : Record) :
    (definition.filled taken).record.lookup FieldName.environment = some (.obj taken) := by
  simp [filled, Record.lookup, Json.isNull]

/-- What is filled in is the environment and nothing else. -/
theorem find?_filled_of_ne {key : String} (h : key ≠ FieldName.environment)
    (definition : Definition) (taken : Record) :
    Members.find? key (definition.filled taken).record = Members.find? key definition.record :=
  Members.find?_insert_of_ne h _ _

/-- Either no call takes anything, or the first that does is the only one to change anything. -/
theorem allFail_or_fillsOnce (h : definition.record.lookup FieldName.environment = none)
    (calls : List CaptureCall) :
    definition.AllFail calls ∨ ∃ taken, definition.FillsOnce calls taken := by
  induction calls with
  | nil => exact .inl ⟨[], rfl, rfl⟩
  | cons call calls ih =>
    have hrun : (captureInPlace call).run.run definition = _ := run_captureInPlace_of_none h
    cases hcollected : call.collected with
    | ok taken =>
      rw [hcollected] at hrun
      refine .inr ⟨taken, [], call, calls, rfl, ⟨[], rfl, rfl⟩, hcollected, ?_⟩
      -- from here on the environment is there
      simp [captures, hrun, captures_of_some (lookup_filled definition taken)]
    | error fault =>
      rw [hcollected] at hrun
      rcases ih with ⟨faults, hfaults, hcaptures⟩ |
        ⟨taken, failing, first, later, rfl, ⟨faults, hfaults, hfailing⟩, hfirst, hcaptures⟩
      · refine .inl ⟨fault :: faults, ?_, ?_⟩
        · simp [hcollected, hfaults]
        · simp [captures, hrun, hcaptures]
      · refine .inr ⟨taken, call :: failing, first, later, rfl, ⟨fault :: faults, ?_, ?_⟩, hfirst, ?_⟩
        · simp [hcollected, hfaults]
        · simp [captures, hrun, hfailing]
        · simp [captures, hrun, hcaptures]

/-! ### The definition in the end -/

theorem afterCaptures_of_some {value : Json}
    (h : definition.record.lookup FieldName.environment = some value) (calls : List CaptureCall) :
    definition.afterCaptures calls = definition := by
  rw [afterCaptures, captures_of_some h, List.getLast?_map]
  cases calls.getLast? <;> rfl

theorem AllFail.afterCaptures_eq {calls : List CaptureCall} (h : definition.AllFail calls) :
    definition.afterCaptures calls = definition := by
  obtain ⟨faults, _, hcaptures⟩ := h
  rw [afterCaptures, hcaptures, List.getLast?_map]
  cases faults.getLast? <;> rfl

theorem FillsOnce.afterCaptures_eq {calls : List CaptureCall}
    (h : definition.FillsOnce calls taken) :
    definition.afterCaptures calls = definition.filled taken := by
  obtain ⟨failing, first, later, _, _, _, hcaptures⟩ := h
  rw [afterCaptures, hcaptures, List.getLast?_append, List.getLast?_map, List.getLast?_cons]
  rfl

/-- The environment of a descriptor is the one that the definition has. -/
theorem lookup_environment_of_toDescriptor {d : Descriptor} (h : definition.toDescriptor = .ok d) :
    definition.record.lookup FieldName.environment = some (.obj d.environment) := by
  have hnormalize : definition.record.normalize = .ok d := mapError_eq_ok_iff.1 h
  have hfield : (⟨FieldName.environment, .mapping, none,
      "Build-context variables forwarded unmodified to the orchestration engine."⟩ : Field) ∈
        Field.all := by
    decide
  have hfilled := Projection.find?_toRecord_eq_filled hnormalize hfield
  have hmem : (FieldName.environment, .obj d.environment) ∈ d.fields := by
    simp [Descriptor.fields]
  rw [Projection.find?_toRecord hmem, FieldTable.filled] at hfilled
  simpa using hfilled.symm

/-- The environment is written once. Each call leaves what a capture gives, or fails and changes
nothing. If the environment is there, with any value but null, every call succeeds and changes
nothing. If not, calls fail and change nothing until one can take its variables; that call changes
the environment and nothing else, and all later ones succeed and change nothing. So the environment
of a descriptor is the one that was authored, or the first that was taken. -/
theorem captures_write_once (definition : Definition) (calls : List CaptureCall) :
    (∀ call, (captureInPlace call).run.run definition =
      match definition.capture call.filter call.listing with
      | .ok after => (.ok (), after)
      | .error fault => (.error fault, definition)) ∧
    (∀ value, definition.record.lookup FieldName.environment = some value →
      definition.captures calls = calls.map fun _ => (.ok (), definition)) ∧
    (definition.record.lookup FieldName.environment = none →
      (definition.AllFail calls ∨ ∃ taken, definition.FillsOnce calls taken) ∧
      ∀ taken, definition.filled taken ≠ definition ∧
        Members.find? FieldName.environment (definition.filled taken).record = some (.obj taken) ∧
        ∀ key ≠ FieldName.environment, Members.find? key (definition.filled taken).record =
          Members.find? key definition.record) ∧
    ∀ d, (definition.afterCaptures calls).toDescriptor = .ok d →
      definition.record.lookup FieldName.environment = some (.obj d.environment) ∨
        definition.record.lookup FieldName.environment = none ∧
          definition.FillsOnce calls d.environment := by
  refine ⟨run_captureInPlace definition, fun value h => captures_of_some h calls, fun h => ?_,
    fun d hd => ?_⟩
  · refine ⟨allFail_or_fillsOnce h calls, fun taken => ⟨fun heq => ?_, ?_, fun key hkey => ?_⟩⟩
    · have hfilled := lookup_filled definition taken
      rw [heq, h] at hfilled
      cases hfilled
    · exact Members.find?_insert_self _ _ _
    · exact find?_filled_of_ne hkey definition taken
  · have henvironment := lookup_environment_of_toDescriptor hd
    cases hlookup : definition.record.lookup FieldName.environment with
    | some value =>
      rw [afterCaptures_of_some hlookup, hlookup] at henvironment
      exact .inl henvironment
    | none =>
      refine .inr ⟨rfl, ?_⟩
      rcases allFail_or_fillsOnce hlookup calls with hfail | ⟨taken, hfills⟩
      · rw [hfail.afterCaptures_eq, hlookup] at henvironment
        cases henvironment
      · rw [hfills.afterCaptures_eq, lookup_filled] at henvironment
        cases henvironment
        exact hfills

/-- A filter for the variables of a build. -/
def sampleFilter : Capture := ⟨["BUILD_"], by decide, by decide⟩

/-- A call that takes a variable, and one that comes too late. -/
def sampleCalls : List CaptureCall :=
  [ ⟨sampleFilter, [(Utf8.encode "HOME", Utf8.encode "/"),
      (Utf8.encode "BUILD_NUMBER", Utf8.encode "1742")]⟩,
    ⟨sampleFilter, [(Utf8.encode "BUILD_NUMBER", Utf8.encode "1743")]⟩ ]

/-- A definition whose environment is null. -/
def unsetDefinition : Definition :=
  .ofRecord (Members.insert FieldName.environment .null Projection.sample)

theorem captures_write_once_sample :
    (Definition.ofRecord Projection.sample).captures sampleCalls =
        sampleCalls.map (fun _ => (.ok (), .ofRecord Projection.sample)) ∧
      unsetDefinition.record.lookup FieldName.environment = none ∧
      ∃ d, (unsetDefinition.afterCaptures sampleCalls).toDescriptor = .ok d ∧
        unsetDefinition.FillsOnce sampleCalls d.environment ∧
        d.environment = [("BUILD_NUMBER", .str "1742")] := by
  have hauthored : (Definition.ofRecord Projection.sample).record.lookup FieldName.environment =
      some (.obj Projection.sampleEnvironment) := rfl
  have hunset : unsetDefinition.record.lookup FieldName.environment = none := rfl
  have hbuilt : ∃ d, (unsetDefinition.afterCaptures sampleCalls).toDescriptor = .ok d ∧
      d.environment = [("BUILD_NUMBER", .str "1742")] := by
    refine ⟨{ Projection.sampleDescriptor with environment := [("BUILD_NUMBER", .str "1742")] },
      ?_, rfl⟩
    decide +kernel
  obtain ⟨d, hd, henvironment⟩ := hbuilt
  refine ⟨(captures_write_once _ _).2.1 _ hauthored, hunset, d, hd, ?_, henvironment⟩
  rcases (captures_write_once _ _).2.2.2 d hd with h | ⟨_, hfills⟩
  · rw [hunset] at h
    cases h
  · exact hfills

end Definition

end TestJob
