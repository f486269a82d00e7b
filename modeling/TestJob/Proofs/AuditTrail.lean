import Mathlib
import TestJob.Proofs.Commands
import TestJob.Proofs.LoadOutcome
import TestJob.Proofs.Logging
import TestJob.Proofs.Recording
import TestJob.Proofs.Submission

/-!
The audit trail of a run. `Command.Trail` says which events a command is to record, with everything
that they tell: one for the check of a definition, and one for the hand-off if the check finds the
definition in order. A run leaves in its log what was there before and then a line for each
of these events, with the time at which it was recorded, and succeeds exactly when each of them
tells of a success and the output takes the line of the command (`log_after_run`).
-/

namespace TestJob

open Audit (Event Sink dated logged)

namespace Command

/-- Whether two paths lead to the same file. -/
def SameFile (m : Machine) (p q : Path) : Prop :=
  ∃ object, m.disk.object? m.directory p = some object ∧ m.disk.object? m.directory q = some object

/-- The paths of the files that a command changes. -/
def targets (processId : Nat) : Command → List Path
  | submit _ path => path :: (Handoff.stagingPath? path processId).toList
  | page (.write path) => [path]
  | _ => []

/-- The event that tells of the check of a definition on a machine, and what the check finds: the
descriptor and the path that the definition was read from, or the error. -/
inductive Finding (m : Machine) (choice : DefinitionChoice) :
    Event → Except DefinitionError (Path × Descriptor) → Prop where
  | loadFailed {e : DefinitionError} (hload : ((loadChoice choice).run.run m).1 = .error e) :
    Finding m choice
      { name := "job_load_failed", definitionPath := choice.path.map Path.display, outcome := .error
        errorKind := none, field := none, message := some e.message
        amiImageId := none, agentLabel := none, runStatus := none, runReference := none }
      (.error e)
  | rejected {definition : Definition} {path : Path} {fault : NormalizeError}
    (hload : ((loadChoice choice).run.run m).1 = .ok definition)
    (hpath : Definition.resolve choice.path (m.lookupVariable Definition.pathVariable) = .ok path)
    (hfault : definition.record.normalize = .error fault) :
    Finding m choice
      { name := "job_rejected", definitionPath := some path.display, outcome := .rejected
        errorKind := some fault.kind, field := some fault.field, message := some fault.message
        amiImageId := none, agentLabel := none, runStatus := none, runReference := none }
      (.error (.rejected fault))
  | validated {definition : Definition} {path : Path} {d : Descriptor}
    (hload : ((loadChoice choice).run.run m).1 = .ok definition)
    (hpath : Definition.resolve choice.path (m.lookupVariable Definition.pathVariable) = .ok path)
    (hdescriptor : definition.record.normalize = .ok d) :
    Finding m choice
      { name := "job_validated", definitionPath := some path.display, outcome := .ok
        errorKind := none, field := none, message := none
        amiImageId := some d.amiImageId.text, agentLabel := some d.agentLabel.text
        runStatus := none, runReference := none }
      (.ok (path, d))

/-- The events that a command records in a sink, one after the other. -/
inductive Trail (m : Machine) (sink : Sink) : Command → List Event → Prop where
  | validate {choice event found} : Finding m choice event found →
    Trail m sink (validate choice) [event]
  | normalize {choice event found} : Finding m choice event found →
    Trail m sink (normalize choice) [event]
  | refused {choice handoff event e} : Finding m choice event (.error e) →
    Trail m sink (submit choice handoff) [event]
  | submitted {choice handoff event path d result} : Finding m choice event (.ok (path, d)) →
    ((Handoff.submit handoff d).run ((sink.record event).run m).2).1 = .ok result →
    Trail m sink (submit choice handoff)
      [ event,
        { name := "job_submitted", definitionPath := some path.display, outcome := .ok
          errorKind := none, field := none, message := none
          amiImageId := some d.amiImageId.text, agentLabel := some d.agentLabel.text
          runStatus := some result.status, runReference := result.reference } ]
  | submitFailed {choice handoff event path d e} : Finding m choice event (.ok (path, d)) →
    ((Handoff.submit handoff d).run ((sink.record event).run m).2).1 = .error e →
    Trail m sink (submit choice handoff)
      [ event,
        { name := "job_submit_failed", definitionPath := some path.display, outcome := .error
          errorKind := none, field := none, message := some e.message
          amiImageId := none, agentLabel := none, runStatus := none, runReference := none } ]
  | schema : Trail m sink schema []
  | sample : Trail m sink sample []
  | page {action} : Trail m sink (page action) []

/-! ### The events of a command -/

/-- The events that follow the check of a definition. -/
def laterEvents (m : Machine) : Command → Descriptor × Option Path → List Event
  | submit _ path, (d, source) => [closing source d ((Handoff.submit path d).run m).1]
  | _, _ => []

/-- The events that a command records on a machine. -/
def events (sink : Sink) (m : Machine) (command : Command) : List Event :=
  match command.choice? with
  | none => []
  | some choice =>
    finding choice (loaded m choice) ::
      match verdict (loaded m choice) with
      | .error _ => []
      | .ok found =>
        command.laterEvents ((sink.record (finding choice (loaded m choice))).run m).2 found

variable {m : Machine} {log : Path} {handle : Handle} {object : Nat} {choice : DefinitionChoice}
  {command : Command}

theorem continues_loadChoice : (loadChoice choice).run.Continues handle object [] m := by
  intro _
  rw [run_loadChoice]
  exact .refl object m

theorem continues_endWith (line : String) (code : ExitCode) :
    (endWith line code).run.Continues handle object [] m := by
  intro _
  rw [run_endWith]
  exact Machine.appends_print .output (line ++ "\n")

theorem continues_check (hlog : m.Holds log handle object) :
    (check (.file handle) choice).Continues handle object
      (logged (dated m.times [finding choice (loaded m choice)])) m := by
  rw [check_eq, ← List.nil_append (logged _)]
  refine continues_loadChoice.bind fun _ => ?_
  rw [run_loadChoice, ← List.append_nil (logged _)]
  exact (Audit.continues_record hlog _).bind fun _ => Program.continues_pure _ _

theorem continues_conclude (hlog : m.Holds log handle object)
    (hapart : m.Apart object (command.targets m.processId)) (found : Descriptor × Option Path) :
    (command.conclude (.file handle) found).run.Continues handle object
      (logged (dated m.times (command.laterEvents m found))) m := by
  obtain ⟨d, source⟩ := found
  cases command with
  | submit choice path =>
    refine Program.Continues.run_bind ?_ fun _ _ _ => continues_endWith _ _
    rw [ExceptT.run_mk, handOff_eq, ← List.nil_append (logged _)]
    refine (Handoff.continues_submit hlog d hapart).bind fun happends => ?_
    -- nobody looks at the clock during a hand-off
    rw [laterEvents, ← ((Handoff.silent_submit path d).quiet_run m).times,
      ← List.append_nil (logged _)]
    exact (Audit.continues_record (happends.holds hlog) _).bind fun _ => Program.continues_pure _ _
  | validate | normalize | schema | sample | page => exact continues_endWith _ _

/-- A command that works on no definition adds nothing to the log. -/
theorem continues_perform_of_choice?_eq_none (hlog : m.Holds log handle object)
    (hapart : m.Apart object (command.targets m.processId)) (hchoice : command.choice? = none) :
    (command.perform (.file handle)).run.Continues handle object [] m := by
  cases command with
  | validate | normalize | submit => cases hchoice
  | schema | sample => exact continues_endWith _ _
  | page action =>
    cases action with
    | «show» => exact continues_endWith _ _
    | write path =>
      exact (Reference.continues_writePage hlog hapart).adapt.run_bind fun _ _ _ =>
        Program.continues_pure _ _
    | check path =>
      exact (Reference.continues_checkPage hlog path).adapt.run_bind fun _ _ _ =>
        continues_endWith _ _

/-- A command adds the lines of its events to the log. -/
theorem continues_perform (hlog : m.Holds log handle object)
    (hapart : m.Apart object (command.targets m.processId)) :
    (command.perform (.file handle)).run.Continues handle object
      (logged (dated m.times (command.events (.file handle) m))) m := by
  rw [events]
  cases hchoice : command.choice? with
  | none => exact continues_perform_of_choice?_eq_none hlog hapart hchoice
  | some choice =>
    have hcons : ∀ event later, logged (dated m.times (event :: later)) =
        logged (dated m.times [event]) ++ logged (dated m.times.tail later) :=
      fun _ _ => Audit.logged_append [_] _
    rw [perform_eq _ hchoice, Program.bind_cases, hcons, ExceptT.run_mk]
    refine (continues_check hlog).bind fun happends => ?_
    -- the rest runs on the machine that the check leaves, where the log is still apart
    rw [run_check] at happends ⊢
    cases verdict (loaded m choice) with
    | error e => exact Program.continues_pure _ _
    | ok found =>
      rw [← Sink.times_record_file handle (finding choice (loaded m choice)) m]
      refine continues_conclude (happends.holds hlog) ?_ found
      rw [happends.processId]
      exact happends.apart hapart

/-! ### The trail -/

/-- What is recorded of a check tells how it went. -/
theorem finding_cases (m : Machine) (choice : DefinitionChoice) :
    (∃ e, verdict (loaded m choice) = .error (.definition e) ∧
      Finding m choice (finding choice (loaded m choice)) (.error e)) ∨
    ∃ path d, verdict (loaded m choice) = .ok (d, some path) ∧
      Finding m choice (finding choice (loaded m choice)) (.ok (path, d)) := by
  have hload : ((loadChoice choice).run.run m).1 = loaded m choice := by rw [run_loadChoice]
  cases hloaded : loaded m choice with
  | error e => exact .inl ⟨e, rfl, .loadFailed (hload.trans hloaded)⟩
  | ok definition =>
    obtain ⟨path, hpath, hsource⟩ := source_of_loaded hloaded
    rw [verdict, finding, hsource]
    cases hnormalize : definition.record.normalize with
    | error fault =>
      exact .inl ⟨.rejected fault, rfl, .rejected (hload.trans hloaded) hpath hnormalize⟩
    | ok d => exact .inr ⟨path, d, rfl, .validated (hload.trans hloaded) hpath hnormalize⟩

theorem exists_finding (m : Machine) (choice : DefinitionChoice) :
    ∃ found, Finding m choice (finding choice (loaded m choice)) found := by
  rcases finding_cases m choice with ⟨e, _, hfinding⟩ | ⟨path, d, _, hfinding⟩
  · exact ⟨_, hfinding⟩
  · exact ⟨_, hfinding⟩

/-- The events of a command are its trail. -/
theorem trail_events (sink : Sink) (m : Machine) (command : Command) :
    Trail m sink command (command.events sink m) := by
  cases command with
  | schema => exact .schema
  | sample => exact .sample
  | page action => exact .page
  | validate choice =>
    obtain ⟨found, hfinding⟩ := exists_finding m choice
    rw [events, choice?]
    dsimp only
    cases verdict (loaded m choice) with
    | error e => exact .validate hfinding
    | ok checked => exact .validate hfinding
  | normalize choice =>
    obtain ⟨found, hfinding⟩ := exists_finding m choice
    rw [events, choice?]
    dsimp only
    cases verdict (loaded m choice) with
    | error e => exact .normalize hfinding
    | ok checked => exact .normalize hfinding
  | submit choice handoff =>
    rw [events, choice?]
    dsimp only
    rcases finding_cases m choice with ⟨e, hverdict, hfinding⟩ | ⟨path, d, hverdict, hfinding⟩
    · rw [hverdict]
      exact .refused hfinding
    · rw [hverdict]
      dsimp only [laterEvents]
      cases hsubmit : ((Handoff.submit handoff d).run
          ((sink.record (finding choice (loaded m choice))).run m).2).1 with
      | error e => exact .submitFailed hfinding hsubmit
      | ok result => exact .submitted hfinding hsubmit

/-! ### The exit code -/

theorem Finding.outcome_eq_ok_iff {event : Event}
    {found : Except DefinitionError (Path × Descriptor)} (h : Finding m choice event found) :
    event.outcome = .ok ↔ ∃ checked, found = .ok checked := by
  cases h <;> simp

/-- Going on with a descriptor succeeds exactly when all that is recorded of it does and its line is
written. -/
theorem conclude_eq_success_iff (sink : Sink) (hchoice : command.choice? = some choice)
    (found : Descriptor × Option Path) :
    ((command.conclude sink found).run.run m).1 = .ok .success ↔
      (∀ event ∈ command.laterEvents m found, event.outcome = .ok) ∧
        m.printFailure? .output = none := by
  obtain ⟨d, source⟩ := found
  cases command with
  | schema | sample | page => cases hchoice
  | validate | normalize =>
    exact run_endWith_eq_ok_iff.trans (and_iff_right (List.forall_mem_nil _)).symm
  | submit other path =>
    rw [laterEvents, List.forall_mem_singleton]
    have hquiet := (Handoff.silent_submit path d).quiet_run m
    rcases hsubmit : (Handoff.submit path d).run m with ⟨e | result, after⟩
    · rw [run_conclude_submit_error sink other source hsubmit]
      exact iff_of_false nofun fun h => nomatch h.1
    -- no hand-off that succeeds has a status that fails the run
    · have haccepted := Handoff.eq_of_submit_ok (congrArg Prod.fst hsubmit)
      rw [hsubmit] at hquiet
      rw [run_conclude_submit_ok sink other source hsubmit, haccepted, ← hquiet.printFailure?_eq,
        ← sink.printFailure?_record]
      exact run_endWith_eq_ok_iff.trans (and_iff_right rfl).symm

theorem perform_eq_success_iff (sink : Sink) (hchoice : command.choice? = some choice) :
    ((command.perform sink).run.run m).1 = .ok .success ↔
      (∀ event ∈ command.events sink m, event.outcome = .ok) ∧
        m.printFailure? .output = none := by
  rw [run_perform sink hchoice, events, hchoice, List.forall_mem_cons]
  rcases finding_cases m choice with ⟨e, hverdict, hfinding⟩ | ⟨path, d, hverdict, hfinding⟩
  · rw [hverdict, hfinding.outcome_eq_ok_iff]
    exact iff_of_false nofun (by rintro ⟨⟨⟨_, ⟨⟩⟩, _⟩, _⟩)
  · rw [hverdict, hfinding.outcome_eq_ok_iff, and_assoc, and_iff_right ⟨_, rfl⟩,
      ← sink.printFailure?_record]
    exact conclude_eq_success_iff sink hchoice (d, some path)

end Command

/-! ### A run with a log -/

namespace Invocation

variable {m : Machine} {log : Path} {handle : Handle} {command : Command} {object : Nat}

theorem run_of_openFile (hlog : log ≠ errorStream) (hopen : (m.openFile log .append).1 = .ok handle)
    (command : Command) :
    (run ⟨some log, command⟩).run m =
      ((command.perform (.file handle)).run >>= finish).run (m.openFile log .append).2 := by
  have hok : (m.answer (.openFile log .append)).1 = .ok handle := hopen
  rw [run_some hlog, Program.run, hok]
  rfl

theorem writesWork_of_openFile (hlog : log ≠ errorStream)
    (hopen : (m.openFile log .append).1 = .ok handle)
    (hwork : (run ⟨some log, command⟩).WritesWork handle m) :
    ((command.perform (.file handle)).run >>= finish).WritesWork handle
      (m.openFile log .append).2 := by
  have hok : (m.answer (.openFile log .append)).1 = .ok handle := hopen
  rw [run_some hlog, Program.WritesWork, Program.requests, hok] at hwork
  exact fun asked hasked => hwork asked (List.mem_cons_of_mem _ hasked)

theorem continues_finish (result : Except CommandError ExitCode) :
    (finish result).Continues handle object [] m := by
  cases result with
  | error e => exact fun _ => Machine.appends_print .error (e.message ++ "\n")
  | ok code => exact Program.continues_pure _ _

/-- A run leaves the log with the lines of its events at the end. -/
theorem read_log (hlog : log ≠ errorStream) (hopen : (m.openFile log .append).1 = .ok handle)
    (hapart : ∀ path ∈ command.targets m.processId,
      ¬Command.SameFile (m.openFile log .append).2 log path)
    (hwork : (run ⟨some log, command⟩).WritesWork handle m) :
    ((run ⟨some log, command⟩).run m).2.disk.read m.directory log =
      .ok ((m.disk.read m.directory log).toOption.getD [] ++
        logged (dated m.times (command.events (.file handle) (m.openFile log .append).2))) := by
  obtain ⟨object, hholds, hbefore⟩ := Machine.holds_openFile hopen
  obtain ⟨disk, opened, hopened⟩ := m.openFile_eq log .append
  rw [run_of_openFile hlog hopen]
  have hwork := writesWork_of_openFile hlog hopen hwork
  rw [hopened] at hholds hbefore hapart hwork ⊢
  have hcontinues := (Command.continues_perform hholds fun path hpath hobject =>
    hapart path hpath ⟨object, hholds.named, hobject⟩).bind fun _ => continues_finish _
  have happends := hcontinues hwork
  have hread := Disk.read_of_object? (happends.holds hholds).named
  rw [happends.directory, happends.contents_eq, hbefore, List.append_nil] at hread
  exact hread

end Invocation

/-- A run whose log can be opened, and is none of the files that it changes, records the trail of
its command, each event in a line of its own and at the time that the clock gives then. As long as
the log can be written, its contents are what was there before and these lines. The run of a command
that works on a definition succeeds exactly when each of its events tells of a success and the
output takes the line of the command. -/
theorem log_after_run {m : Machine} {log : Path} {handle : Handle} {command : Command}
    (hlog : log ≠ Invocation.errorStream) (hopen : (m.openFile log .append).1 = .ok handle)
    (hapart : ∀ path ∈ command.targets m.processId,
      ¬Command.SameFile (m.openFile log .append).2 log path) :
    ∃ events, Command.Trail (m.openFile log .append).2 (.file handle) command events ∧
      ((Invocation.run ⟨some log, command⟩).WritesWork handle m →
        ((Invocation.run ⟨some log, command⟩).run m).2.disk.read m.directory log =
          .ok ((m.disk.read m.directory log).toOption.getD [] ++ logged (dated m.times events))) ∧
      (∀ entry ∈ dated m.times events, '\n' ∉ entry.line.toList ∧
        Json.read? entry.line = some (.obj entry.members)) ∧
      (command.choice?.isSome →
        (((Invocation.run ⟨some log, command⟩).run m).1 = .success ↔
          (∀ event ∈ events, event.outcome = .ok) ∧ m.printFailure? .output = none)) := by
  refine ⟨command.events (.file handle) (m.openFile log .append).2, Command.trail_events _ _ _,
    Invocation.read_log hlog hopen hapart, fun entry _ =>
      ⟨entry.event.newline_not_mem_line entry.milliseconds, entry.read?_line⟩, fun hsome => ?_⟩
  obtain ⟨choice, hchoice⟩ := Option.isSome_iff_exists.1 hsome
  rw [Invocation.run_of_openFile hlog hopen, Program.run_bind, Invocation.finish_eq_success_iff,
    Command.perform_eq_success_iff _ hchoice]
  have hquiet := m.quiet_answer (rfl : (Request.openFile log .append).quiet = true)
  rw [← hquiet.printFailure?_eq]
  rfl

/-- A definition without fields, which is the audit log as well. -/
def emptyDefinition : Path := .ofString "job.json"

/-- A machine with no other file, and a clock that goes on. -/
def emptyMachine : Machine :=
  { Machine.start (Disk.empty.addFile [Utf8.encode "job.json"] (Utf8.encode "{}")) [] [] 7 with
    times := [1700000000000, 1700000000007] }

/-- The command that hands the definition off. -/
def emptySubmit : Command := .submit ⟨some emptyDefinition, []⟩ (.ofString "out.json")

theorem log_after_run_empty :
    emptyDefinition ≠ Invocation.errorStream ∧
      (emptyMachine.openFile emptyDefinition .append).1 = .ok ⟨0⟩ ∧
      (∀ path ∈ emptySubmit.targets emptyMachine.processId,
        ¬Command.SameFile (emptyMachine.openFile emptyDefinition .append).2 emptyDefinition path) ∧
      (Invocation.run ⟨some emptyDefinition, emptySubmit⟩).WritesWork ⟨0⟩ emptyMachine ∧
      ∃ events, Command.Trail (emptyMachine.openFile emptyDefinition .append).2 (.file ⟨0⟩)
          emptySubmit events ∧
        ((Invocation.run ⟨some emptyDefinition, emptySubmit⟩).run emptyMachine).2.disk.read []
          emptyDefinition = .ok (Utf8.encode "{}" ++
            logged (dated [1700000000000, 1700000000007] events)) ∧
        ¬∀ event ∈ events, event.outcome = .ok := by
  have hlog : emptyDefinition ≠ Invocation.errorStream := by decide
  have hopen : (emptyMachine.openFile emptyDefinition .append).1 = .ok ⟨0⟩ := rfl
  have hnone : ∀ path ∈ emptySubmit.targets emptyMachine.processId,
      (emptyMachine.openFile emptyDefinition .append).2.disk.object? [] path = none := by
    decide +kernel
  have hapart : ∀ path ∈ emptySubmit.targets emptyMachine.processId,
      ¬Command.SameFile (emptyMachine.openFile emptyDefinition .append).2 emptyDefinition path := by
    rintro path hpath ⟨object, _, hobject⟩
    exact absurd ((hnone path hpath).symm.trans hobject) nofun
  have hwork : (Invocation.run ⟨some emptyDefinition, emptySubmit⟩).WritesWork ⟨0⟩
      emptyMachine := by
    decide +kernel
  have hexit : ((Invocation.run ⟨some emptyDefinition, emptySubmit⟩).run emptyMachine).1 =
      .failure := by
    decide +kernel
  obtain ⟨events, htrail, hread, _, hsuccess⟩ := log_after_run hlog hopen hapart
  refine ⟨hlog, hopen, hapart, hwork, events, htrail, hread hwork, fun hevents => ?_⟩
  rw [(hsuccess rfl).2 ⟨hevents, rfl⟩] at hexit
  cases hexit

namespace Command

variable {m : Machine} {log : Path} {handle : Handle} {choice : DefinitionChoice}

/-- A definition in order is logged as such, but it makes no run a success whose line is not
written. -/
theorem logged_of_unwritten {found : Definition} {d : Descriptor} {failure : Failure}
    (hlog : log ≠ Invocation.errorStream) (hopen : (m.openFile log .append).1 = .ok handle)
    (hloaded : loaded (m.openFile log .append).2 choice = .ok found)
    (hdescriptor : found.record.normalize = .ok d)
    (hwork : (Invocation.run ⟨some log, validate choice⟩).WritesWork handle m)
    (hfailure : m.printFailure? .output = some failure) :
    ((Invocation.run ⟨some log, validate choice⟩).run m).1 = .failure ∧
      ((Invocation.run ⟨some log, validate choice⟩).run m).2.disk.read m.directory log =
        .ok ((m.disk.read m.directory log).toOption.getD [] ++
          logged (dated m.times [.validated found.source d])) := by
  have hverdict : verdict (loaded (m.openFile log .append).2 choice) = .ok (d, found.source) := by
    rw [hloaded, verdict, hdescriptor]
  have hfinding : finding choice (loaded (m.openFile log .append).2 choice) =
      .validated found.source d := by
    rw [hloaded, finding, hdescriptor]
  have hevents : (validate choice).events (.file handle) (m.openFile log .append).2 =
      [.validated found.source d] := by
    rw [events]
    dsimp only [choice?]
    rw [hverdict, hfinding]
    rfl
  have hapart : ∀ path ∈ targets m.processId (validate choice),
      ¬SameFile (m.openFile log .append).2 log path := fun _ h => by cases h
  have hlines := Invocation.read_log hlog hopen hapart hwork
  rw [hevents] at hlines
  refine ⟨?_, hlines⟩
  have hquiet := m.quiet_answer (rfl : (Request.openFile log .append).quiet = true)
  have hrecorded := ((Sink.file handle).printFailure?_record (finding choice
    (loaded (m.openFile log .append).2 choice)) _).trans (hquiet.printFailure?_eq.trans hfailure)
  have hperform : ((validate choice).perform (.file handle)).run.run
      (m.openFile log .append).2 = _ := run_perform (.file handle) rfl (m.openFile log .append).2
  rw [hverdict] at hperform
  rw [Invocation.run_of_openFile hlog hopen, Program.run_bind, hperform]
  exact ((writes_endWith _ _).unwritten failure hrecorded).1

/-- A machine with a definition, whose output takes nothing. -/
def silentMachine (definition : Bytes) : Machine :=
  { Machine.start (Disk.empty.addFile [Utf8.encode "job.json"] definition) [] [] 7 with
    times := [1700000000000]
    outputFailures := [some ⟨.other "No space left on device (os error 28)", 0⟩] }

/-- Its audit log. -/
def silentLog : Path := .ofString "audit.jsonl"

theorem openFile_silentMachine (definition : Bytes) :
    ((silentMachine definition).openFile silentLog .append).1 = .ok ⟨0⟩ ∧
      ((silentMachine definition).openFile silentLog .append).2.read (.ofString "job.json") =
        .ok definition ∧
      (silentMachine definition).disk.read [] silentLog = .error .notFound :=
  ⟨rfl, rfl, rfl⟩

/-- A machine without files, whose disk is full once the log is there. -/
def fullLog : Machine :=
  { Machine.start Disk.empty [] [] 7 with
    failures := [none, some ⟨.other "No space left on device (os error 28)", 0⟩] }

/-- A run fails although the one event in its log tells of a success, where its line is not written.
Where the log cannot be written, an event leaves no line in it. -/
theorem full_output_and_full_log :
    ((Event.validated (some (.ofString "job.json")) Projection.sampleDescriptor).outcome = .ok ∧
      ((Invocation.run ⟨some silentLog, validate jobChoice⟩).run
        (silentMachine (Utf8.encode (Json.obj Projection.sample).canonical))).1 = .failure ∧
      ((Invocation.run ⟨some silentLog, validate jobChoice⟩).run
        (silentMachine (Utf8.encode (Json.obj Projection.sample).canonical))).2.disk.read []
          silentLog =
        .ok (logged [⟨1700000000000,
          .validated (some (.ofString "job.json")) Projection.sampleDescriptor⟩])) ∧
    (fullLog.openFile silentLog .append).1 = .ok ⟨0⟩ ∧
      (∃ event, Trail (fullLog.openFile silentLog .append).2 (.file ⟨0⟩) (validate jobChoice)
        [event]) ∧
      ((Invocation.run ⟨some silentLog, validate jobChoice⟩).run fullLog).2.disk.read [] silentLog =
        .ok [] := by
  constructor
  · have hlog : silentLog ≠ Invocation.errorStream := by decide
    have hdescriptor : Projection.sample.normalize = .ok Projection.sampleDescriptor := rfl
    refine ⟨rfl, ?_⟩
    generalize hdefinition : Utf8.encode (Json.obj Projection.sample).canonical = definition
    obtain ⟨hopen, hread, hnone⟩ := openFile_silentMachine definition
    have hloaded := loaded_job (hread.trans (congrArg Except.ok hdefinition.symm)) (by decide)
      (by decide) (by decide) (by decide +kernel)
    obtain ⟨hexit, hlines⟩ := logged_of_unwritten hlog hopen hloaded hdescriptor
      (fun asked hasked _ => Program.failure?_eq_none_of_mem_requests rfl asked hasked) rfl
    have hdirectory : (silentMachine definition).directory = [] := rfl
    have htimes : (silentMachine definition).times = [1700000000000] := rfl
    rw [hdirectory, hnone, htimes] at hlines
    exact ⟨hexit, hlines.trans (congrArg Except.ok (List.nil_append _))⟩
  · obtain ⟨_, hfinding⟩ := exists_finding (fullLog.openFile silentLog .append).2 jobChoice
    exact ⟨rfl, ⟨_, .validate hfinding⟩, by decide +kernel⟩

end Command

end TestJob
