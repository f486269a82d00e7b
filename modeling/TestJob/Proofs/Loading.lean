import Mathlib
import TestJob.CommandLine.Run
import TestJob.Proofs.Machine
import TestJob.Proofs.Outcome

/-!
Loading a definition only asks: what it gives is a function of the machine that answers, which is
left as it is (`Definition.run_load`, `Command.run_loadChoice`). A definition that was loaded comes
from the path that the choice of a definition resolves to (`Command.source_of_loaded`).
-/

namespace TestJob

/-- The value of a variable on a machine. -/
def Machine.lookupVariable (m : Machine) (name : Bytes) : Option Bytes :=
  (m.answer (.variableValue name)).1

namespace Definition

/-- What loading gives on a machine. -/
def loaded (m : Machine) (given : Option Path) : Except DefinitionError Definition := do
  let path ← (resolve given (m.lookupVariable pathVariable)).mapError .invalid
  (checkPath path).mapError .invalid
  let contents ← (m.read path).mapError .io
  ofContents path contents

variable {m : Machine}

theorem run_step {α : Type} (result : Except DefinitionFault α) :
    (step result).run.run m = (result.mapError .invalid, m) := rfl

theorem run_readFile (path : Path) :
    (readFile path).run.run m = ((m.read path).mapError .io, m) := rfl

theorem run_captureVariables (definition : Definition) (filter : Capture) :
    (definition.captureVariables filter).run.run m =
      ((definition.capture filter m.environment).mapError .invalid, m) := rfl

theorem run_load (given : Option Path) : (load given).run.run m = (loaded m given, m) := by
  change (step (resolve given (m.lookupVariable pathVariable)) >>= fun path => do
    step (checkPath path)
    let contents ← readFile path
    ExceptT.mk (.done (ofContents path contents))).run.run m = _
  refine Program.run_run_bind (run_step _) fun path => ?_
  refine Program.run_run_bind (run_step _) fun _ => ?_
  exact Program.run_run_bind (run_readFile path) fun contents => rfl

theorem run_loadDescriptor (given : Option Path) (filter : Option Capture) :
    (loadDescriptor given filter).run.run m = ((do
      let definition ← loaded m given
      let definition ← match filter with
        | none => .ok definition
        | some filter => (definition.capture filter m.environment).mapError .invalid
      definition.toDescriptor), m) := by
  refine Program.run_run_bind (run_load given) fun definition => ?_
  cases filter with
  | none => rfl
  | some filter => exact Program.run_run_bind (run_captureVariables definition filter) fun _ => rfl

/-! ### Files are left alone -/

theorem sparesFiles_step {α : Type} (result : Except DefinitionFault α) (m : Machine) :
    (step result).run.SparesFiles m := Program.sparesFiles_pure _ m

theorem sparesFiles_load (given : Option Path) (m : Machine) :
    (load given).run.SparesFiles m := by
  refine Program.SparesFiles.bind (Program.sparesFiles_request rfl m) ?_
  refine Program.sparesFiles_run_bind (sparesFiles_step _ _) fun path m => ?_
  refine Program.sparesFiles_run_bind (sparesFiles_step _ _) fun _ m => ?_
  refine Program.sparesFiles_run_bind (Program.sparesFiles_request rfl m) fun contents m => ?_
  exact Program.sparesFiles_pure _ m

theorem sparesFiles_captureVariables (definition : Definition) (filter : Capture) (m : Machine) :
    (definition.captureVariables filter).run.SparesFiles m :=
  Program.SparesFiles.bind (Program.sparesFiles_request rfl m) (sparesFiles_step _ _)

/-! ### Where a definition comes from -/

theorem source_of_ofContents {path : Path} {contents : Bytes} {definition : Definition}
    (h : ofContents path contents = .ok definition) : definition.source = some path := by
  rw [ofContents] at h
  by_cases hlarge : sizeLimit < contents.length
  · rw [if_pos hlarge] at h
    cases h
  rw [if_neg hlarge] at h
  cases hdecode : Utf8.decode? contents with
  | none =>
    rw [hdecode] at h
    cases h
  | some text =>
    rw [hdecode] at h
    obtain ⟨_, _, h⟩ := bind_eq_ok_iff.1 h
    obtain rfl := Except.ok.inj h
    rfl

theorem source_of_loaded {given : Option Path} {definition : Definition}
    (h : loaded m given = .ok definition) :
    ∃ path, resolve given (m.lookupVariable pathVariable) = .ok path ∧
      definition.source = some path := by
  obtain ⟨path, hpath, h⟩ := bind_eq_ok_iff.1 h
  obtain ⟨_, _, h⟩ := bind_eq_ok_iff.1 h
  obtain ⟨contents, _, h⟩ := bind_eq_ok_iff.1 h
  exact ⟨path, mapError_eq_ok_iff.1 hpath, source_of_ofContents h⟩

theorem source_of_capture {definition captured : Definition} {filter : Capture}
    {listing : List (Bytes × Bytes)} (h : definition.capture filter listing = .ok captured) :
    captured.source = definition.source := by
  rw [capture] at h
  cases hlookup : definition.record.lookup FieldName.environment with
  | some value =>
    rw [hlookup] at h
    rw [← Except.ok.inj h]
  | none =>
    rw [hlookup] at h
    obtain ⟨_, _, h⟩ := bind_eq_ok_iff.1 h
    rw [← Except.ok.inj h]

end Definition

namespace Command

/-- What loading the definition that is chosen gives on a machine. -/
def loaded (m : Machine) (choice : DefinitionChoice) : Except DefinitionError Definition := do
  let definition ← Definition.loaded m choice.path
  if choice.prefixes = [] then return definition
  else
    let filter ← (Capture.ofPrefixes choice.prefixes).mapError .invalid
    (definition.capture filter m.environment).mapError .invalid

variable {m : Machine}

theorem run_loadChoice (choice : DefinitionChoice) :
    (loadChoice choice).run.run m = (loaded m choice, m) := by
  rw [loadChoice, loaded]
  refine Program.run_run_bind (Definition.run_load choice.path) fun definition => ?_
  by_cases hprefixes : choice.prefixes = []
  · rw [if_pos hprefixes, if_pos hprefixes]
    rfl
  · rw [if_neg hprefixes, if_neg hprefixes]
    refine Program.run_run_bind (Definition.run_step _) fun filter => ?_
    exact Definition.run_captureVariables definition filter

theorem sparesFiles_loadChoice (choice : DefinitionChoice) (m : Machine) :
    (loadChoice choice).run.SparesFiles m := by
  refine Program.sparesFiles_run_bind (Definition.sparesFiles_load _ m) fun definition m => ?_
  by_cases hprefixes : choice.prefixes = []
  · rw [if_pos hprefixes]
    exact Program.sparesFiles_pure _ m
  · rw [if_neg hprefixes]
    refine Program.sparesFiles_run_bind (Definition.sparesFiles_step _ m) fun filter m => ?_
    exact Definition.sparesFiles_captureVariables definition filter m

theorem source_of_loaded {choice : DefinitionChoice} {definition : Definition}
    (h : loaded m choice = .ok definition) :
    ∃ path, Definition.resolve choice.path (m.lookupVariable Definition.pathVariable) = .ok path ∧
      definition.source = some path := by
  obtain ⟨read, hread, h⟩ := bind_eq_ok_iff.1 h
  obtain ⟨path, hpath, hsource⟩ := Definition.source_of_loaded hread
  refine ⟨path, hpath, ?_⟩
  rw [← hsource]
  by_cases hprefixes : choice.prefixes = []
  · rw [if_pos hprefixes] at h
    rw [← Except.ok.inj h]
  · rw [if_neg hprefixes] at h
    obtain ⟨filter, _, h⟩ := bind_eq_ok_iff.1 h
    exact Definition.source_of_capture (mapError_eq_ok_iff.1 h)

end Command

end TestJob
