import Mathlib
import TestJob.Proofs.Commands
import TestJob.Proofs.LoadOutcome
import TestJob.Proofs.Submission

/-!
The commands agree. Whether a definition is checked, written out or handed off, it is loaded and
its fields are checked in the same way (`Command.settle`), so the commands fail with the same
message and go on with the same descriptor (`Command.commands_agree`). A definition that is in order
is no guarantee of success: the line that tells of it may not be written, which fails the command
(`Command.Writes`). A hand-off that succeeds leaves the canonical text at its path, whatever stood
there or at the place of the staging file (`Handoff.delivers_submit`).
-/

namespace TestJob

namespace Command

/-- The descriptor of the definition that is chosen, or why there is none: the definition is
loaded, with captured variables if prefixes are given, and its fields are checked. -/
def settle (m : Machine) (choice : DefinitionChoice) : Except DefinitionError Descriptor :=
  ((loadChoice choice).run.run m).1 >>= Definition.toDescriptor

variable {m : Machine} {choice : DefinitionChoice} {e : DefinitionError} {d : Descriptor}

theorem verdict_of_settle_error (h : settle m choice = .error e) :
    verdict (loaded m choice) = .error (.definition e) := by
  rw [settle, run_loadChoice] at h
  cases hloaded : loaded m choice with
  | error e' =>
    rw [hloaded] at h
    rw [← Except.error.inj h, verdict]
  | ok definition =>
    rw [hloaded] at h
    change definition.record.normalize.mapError .rejected = .error e at h
    rw [verdict]
    cases hnormalize : definition.record.normalize with
    | error fault =>
      rw [hnormalize] at h
      rw [← Except.error.inj h]
    | ok d =>
      rw [hnormalize] at h
      cases h

theorem verdict_of_settle_ok (h : settle m choice = .ok d) :
    ∃ source, verdict (loaded m choice) = .ok (d, source) := by
  rw [settle, run_loadChoice] at h
  obtain ⟨definition, hloaded, h⟩ := bind_eq_ok_iff.1 h
  change loaded m choice = .ok definition at hloaded
  rw [hloaded, verdict, mapError_eq_ok_iff.1 h]
  exact ⟨definition.source, rfl⟩

/-- A command fails with the error of its definition, and leaves all files alone. -/
theorem run_of_settle_error (h : settle m choice = .error e) {command : Command}
    (hchoice : command.choice? = some choice) :
    (Invocation.run ⟨none, command⟩).run m =
      (.failure, (m.print .error (e.message ++ "\n")).2) := by
  rw [Invocation.run_none, run_perform_none hchoice, verdict_of_settle_error h]
  rfl

theorem sparesFiles_of_settle_error (h : settle m choice = .error e) {command : Command}
    (hchoice : command.choice? = some choice) :
    (Invocation.run ⟨none, command⟩).SparesFiles m := by
  have hperform : (command.perform .none).run.SparesFiles m := by
    rw [perform_eq .none hchoice, Program.bind_cases, ExceptT.run_mk]
    refine Program.SparesFiles.bind ?_ ?_
    · rw [check_eq]
      refine (sparesFiles_loadChoice choice m).bind ?_
      exact Program.sparesFiles_pure _ _
    · rw [run_check, verdict_of_settle_error h]
      exact Program.sparesFiles_pure _ _
  rw [Invocation.run_eq]
  change ((command.perform .none).run >>= Invocation.finish).SparesFiles m
  refine hperform.bind ?_
  rw [run_perform_none hchoice, verdict_of_settle_error h]
  exact (Program.sparesFiles_request rfl m).bind (Program.sparesFiles_pure _ _)

/-- What is handed off stands at its path, also where the line that tells of it is not written. -/
theorem read_of_submit_ok {path : Path} {source : Option Path} {result : RunResult}
    (hverdict : verdict (loaded m choice) = .ok (d, source))
    (hok : ((Handoff.submit path d).run m).1 = .ok result) :
    ((Invocation.run ⟨none, .submit choice path⟩).run m).2.disk.read m.directory path =
      .ok (Handoff.payload d) := by
  have hchoice : (submit choice path).choice? = some choice := rfl
  rw [Invocation.run_none, run_perform_none hchoice, hverdict]
  dsimp only
  rw [run_conclude_submit_ok .none choice source (Prod.ext hok rfl), Invocation.disk_run_finish,
    disk_run_endWith]
  exact Handoff.delivers_submit path d m result hok

theorem read_of_submit_success (h : settle m choice = .ok d) (path : Path)
    (hexit : ((Invocation.run ⟨none, .submit choice path⟩).run m).1 = .success) :
    ((Invocation.run ⟨none, .submit choice path⟩).run m).2.disk.read m.directory path =
      .ok (Utf8.encode (d.canonical ++ "\n")) := by
  obtain ⟨source, hverdict⟩ := verdict_of_settle_ok h
  cases hsubmit : ((Handoff.submit path d).run m).1 with
  | error e =>
    -- without a hand-off there is no success
    rw [Invocation.run_none, run_perform_none rfl, hverdict] at hexit
    dsimp only at hexit
    rw [run_conclude_submit_error .none choice source (Prod.ext hsubmit rfl)] at hexit
    cases hexit
  | ok result => exact read_of_submit_ok hverdict hsubmit

theorem settle_eq (m : Machine) (choice : DefinitionChoice) :
    settle m choice = loaded m choice >>= Definition.toDescriptor := by
  rw [settle, run_loadChoice]

/-- Where no prefix is blank, the prefixes make a filter, or there are none. -/
theorem exists_loadDescriptor_eq_settle (hblank : ∀ p ∈ choice.prefixes, Text.isBlank p = false) :
    ∃ filter : Option Capture, filter.elim [] Capture.prefixes = choice.prefixes ∧
      ((Definition.loadDescriptor choice.path filter).run.run m).1 = settle m choice := by
  by_cases hprefixes : choice.prefixes = []
  · refine ⟨none, hprefixes.symm, ?_⟩
    simp only [Definition.run_loadDescriptor, settle_eq, loaded, hprefixes, if_true]
    cases Definition.loaded m choice.path <;> rfl
  · have hfilter : Capture.ofPrefixes choice.prefixes =
        .ok ⟨choice.prefixes, hprefixes, hblank⟩ := by
      rw [Capture.ofPrefixes, dif_neg hprefixes, dif_pos hblank]
    refine ⟨some ⟨choice.prefixes, hprefixes, hblank⟩, rfl, ?_⟩
    simp only [Definition.run_loadDescriptor, settle_eq, loaded, hprefixes, if_false, hfilter]
    cases Definition.loaded m choice.path <;> rfl

theorem settle_of_blank (hblank : ∃ p ∈ choice.prefixes, Text.isBlank p = true) :
    settle m choice =
      ((Definition.load choice.path).run.run m).1 >>= fun _ => .error (.invalid .blankPrefix) := by
  obtain ⟨p, hp, hblank⟩ := hblank
  have hprefixes : choice.prefixes ≠ [] := List.ne_nil_of_mem hp
  have hfilter : Capture.ofPrefixes choice.prefixes = .error .blankPrefix := by
    rw [Capture.ofPrefixes, dif_neg hprefixes, dif_neg]
    intro h
    rw [h p hp] at hblank
    cases hblank
  simp only [Definition.run_load, settle_eq, loaded, hprefixes, if_false, hfilter]
  cases Definition.loaded m choice.path <;> rfl

/-- What the commands that work on a definition do on a machine, when no audit log is kept. -/
structure Agreement (m : Machine) (choice : DefinitionChoice) : Prop where
  /-- They fail alike. -/
  failed : ∀ e, settle m choice = .error e → ∀ command : Command, command.choice? = some choice →
    (Invocation.run ⟨none, command⟩).run m = (.failure, (m.print .error (e.message ++ "\n")).2) ∧
      (Invocation.run ⟨none, command⟩).SparesFiles m
  validated : ∀ d, settle m choice = .ok d →
    Writes m (validLine d) ((Invocation.run ⟨none, .validate choice⟩).run m).1
      ((Invocation.run ⟨none, .validate choice⟩).run m).2
  normalized : ∀ d, settle m choice = .ok d →
    Writes m d.canonical ((Invocation.run ⟨none, .normalize choice⟩).run m).1
      ((Invocation.run ⟨none, .normalize choice⟩).run m).2
  /-- What is handed off is what would be written out. -/
  submitted : ∀ d, settle m choice = .ok d → ∀ path,
    ((Invocation.run ⟨none, .submit choice path⟩).run m).1 = .success →
      ((Invocation.run ⟨none, .submit choice path⟩).run m).2.disk.read m.directory path =
        .ok (Utf8.encode (d.canonical ++ "\n"))
  /-- The descriptor is the one that the library loads. -/
  library : (∀ p ∈ choice.prefixes, Text.isBlank p = false) →
    ∃ filter : Option Capture, filter.elim [] Capture.prefixes = choice.prefixes ∧
      ((Definition.loadDescriptor choice.path filter).run.run m).1 = settle m choice
  /-- A prefix is refused only after the definition has been loaded. -/
  blank : (∃ p ∈ choice.prefixes, Text.isBlank p = true) →
    settle m choice =
      ((Definition.load choice.path).run.run m).1 >>= fun _ => .error (.invalid .blankPrefix)

/-- The commands agree, on every machine and for every choice of a definition. -/
theorem commands_agree (m : Machine) (choice : DefinitionChoice) : Agreement m choice where
  failed _ h _ hchoice := ⟨run_of_settle_error h hchoice, sparesFiles_of_settle_error h hchoice⟩
  validated d h := by
    obtain ⟨source, hverdict⟩ := verdict_of_settle_ok h
    rw [Invocation.run_none, run_perform_none rfl, hverdict]
    exact writes_endWith m (validLine d)
  normalized d h := by
    obtain ⟨source, hverdict⟩ := verdict_of_settle_ok h
    rw [Invocation.run_none, run_perform_none rfl, hverdict]
    exact writes_endWith m d.canonical
  submitted _ := read_of_submit_success
  library := exists_loadDescriptor_eq_settle
  blank := settle_of_blank

/-- Where the output takes nothing, all that is printed is the reason. -/
theorem Writes.on_full_output {record : Record} {line : String} {exit : ExitCode} {after : Machine}
    (h : Writes (fullOutput (jobMachine record)) line exit after) :
    exit = .failure ∧ after.output = [] ∧ after.error =
      Utf8.encode "failed to write to stdout: No space left on device (os error 28)\n" := by
  obtain ⟨hexit, rfl⟩ := h.unwritten _ rfl
  rw [Machine.print_error]
  refine ⟨hexit, rfl, ?_⟩
  change Machine.taken [] ["failed to write to stdout: " ++
    "No space left on device (os error 28)" ++ "\n"] = _
  decide +kernel

/-- A machine without files, whose error stream takes nothing. -/
def closedError : Machine :=
  { Machine.start Disk.empty [] [] 7 with
    errorFailures := [some ⟨.other "Broken pipe (os error 32)", 0⟩] }

/-- Where the output takes nothing, both commands fail on a definition that is in order; where the
error stream takes nothing, they fail without a message. -/
theorem full_streams_fail :
    (settle (fullOutput (jobMachine Projection.sample)) jobChoice = .ok Projection.sampleDescriptor ∧
      ∀ command : Command, command = .validate jobChoice ∨ command = .normalize jobChoice →
        ((Invocation.run ⟨none, command⟩).run (fullOutput (jobMachine Projection.sample))).1 =
            .failure ∧
          ((Invocation.run ⟨none, command⟩).run
            (fullOutput (jobMachine Projection.sample))).2.output = [] ∧
          ((Invocation.run ⟨none, command⟩).run
            (fullOutput (jobMachine Projection.sample))).2.error =
            Utf8.encode "failed to write to stdout: No space left on device (os error 28)\n") ∧
    settle closedError jobChoice = .error (.io .notFound) ∧
      ∀ command : Command, command.choice? = some jobChoice →
        ((Invocation.run ⟨none, command⟩).run closedError).1 = .failure ∧
          ((Invocation.run ⟨none, command⟩).run closedError).2.error = [] := by
  refine ⟨?_, rfl, fun command hchoice => ?_⟩
  · have hloaded : loaded (fullOutput (jobMachine Projection.sample)) jobChoice =
        .ok ⟨Projection.sample, some (.ofString "job.json")⟩ :=
      loaded_job (read_jobMachine _) (by decide) (by decide) (by decide) (by decide +kernel)
    have hsettle : settle (fullOutput (jobMachine Projection.sample)) jobChoice =
        .ok Projection.sampleDescriptor := by
      rw [settle_eq, hloaded]
      rfl
    obtain ⟨source, hverdict⟩ := verdict_of_settle_ok hsettle
    refine ⟨hsettle, fun command hcommand => ?_⟩
    rcases hcommand with rfl | rfl
    · rw [Invocation.run_none, run_perform_none rfl, hverdict]
      exact (writes_endWith _ _).on_full_output
    · rw [Invocation.run_none, run_perform_none rfl, hverdict]
      exact (writes_endWith _ _).on_full_output
  · have hsettle : settle closedError jobChoice = .error (.io .notFound) := rfl
    rw [run_of_settle_error hsettle hchoice]
    exact ⟨rfl, rfl⟩

end Command

end TestJob
