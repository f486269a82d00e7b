import Mathlib
import TestJob.Proofs.Loading

/-!
What an invocation does, step by step. A command that works on a definition checks it and goes on
with the descriptor (`Command.perform_eq`); the check loads, records what was found and gives it
(`Command.check_eq`), and a hand-off submits, records how that went and gives it
(`Command.handOff_eq`). The last thing a command does is to write its line, which fails if the
output does not take it (`Command.run_endWith_cases`). The end of an invocation prints the error if
there is one (`Invocation.run_eq`).
-/

namespace TestJob

open Audit (Event Sink)

namespace Reference

theorem run_checkPage (path : Path) (m : Machine) :
    (checkPage (some path)).run.run m =
      ((m.read path).mapError .io >>= checkContents path, m) :=
  Program.run_run_bind rfl fun _ => rfl

end Reference

namespace Command

/-- The definition that a command works on. -/
def choice? : Command → Option DefinitionChoice
  | validate choice => some choice
  | normalize choice => some choice
  | submit choice _ => some choice
  | _ => none

/-! ### The check of a definition -/

/-- What is found of a definition, with the file it comes from. -/
def verdict : Except DefinitionError Definition → Except CommandError (Descriptor × Option Path)
  | .error e => .error (.definition e)
  | .ok definition =>
    match definition.record.normalize with
    | .ok d => .ok (d, definition.source)
    | .error fault => .error (.definition (.rejected fault))

/-- What is recorded of a definition. -/
def finding (choice : DefinitionChoice) : Except DefinitionError Definition → Event
  | .error e => .failed "job_load_failed" choice.path e.message
  | .ok definition =>
    match definition.record.normalize with
    | .ok d => .validated definition.source d
    | .error fault => .rejected definition.source fault

theorem check_eq (sink : Sink) (choice : DefinitionChoice) :
    check sink choice = (do
      let loaded ← (loadChoice choice).run
      sink.record (finding choice loaded)
      return verdict loaded) := by
  rw [check]
  refine congrArg ((loadChoice choice).run >>= ·) (funext fun loaded => ?_)
  cases loaded with
  | error e => rfl
  | ok definition =>
    simp only [finding, verdict]
    cases definition.record.normalize <;> rfl

theorem run_check (sink : Sink) (choice : DefinitionChoice) (m : Machine) :
    (check sink choice).run m =
      (verdict (loaded m choice), ((sink.record (finding choice (loaded m choice))).run m).2) := by
  simp only [check_eq, Program.run_bind, run_loadChoice, Program.run_pure]

/-! ### The rest of a command -/

/-- What is recorded of a hand-off. -/
def closing (source : Option Path) (d : Descriptor) : Except SubmitError RunResult → Event
  | .error e => .failed "job_submit_failed" source e.message
  | .ok result => .submitted source d result

theorem handOff_eq (sink : Sink) (source : Option Path) (path : Path) (d : Descriptor) :
    handOff sink source path d = (do
      let submitted ← Handoff.submit path d
      sink.record (closing source d submitted)
      return submitted.mapError .submission) := by
  rw [handOff]
  refine congrArg (Handoff.submit path d >>= ·) (funext fun submitted => ?_)
  cases submitted <;> rfl

theorem run_handOff (sink : Sink) (source : Option Path) {path : Path} {d : Descriptor}
    {m m' : Machine} {submitted : Except SubmitError RunResult}
    (h : (Handoff.submit path d).run m = (submitted, m')) :
    (handOff sink source path d).run m =
      (submitted.mapError .submission, ((sink.record (closing source d submitted)).run m').2) := by
  simp only [handOff_eq, Program.run_bind, Program.run_pure, h]

/-- Writes the line of a command, and ends it with an exit code. -/
def endWith (line : String) (code : ExitCode) : ExceptT CommandError Program ExitCode := do
  writeLine line
  return code

theorem run_endWith (line : String) (code : ExitCode) (m : Machine) :
    (endWith line code).run.run m =
      (((m.print .output (line ++ "\n")).1.mapError .output).map fun _ => code,
        (m.print .output (line ++ "\n")).2) := by
  have hwrite : (writeLine line).run.run m =
      ((m.print .output (line ++ "\n")).1.mapError .output,
        (m.print .output (line ++ "\n")).2) := rfl
  rw [endWith, Program.bind_cases, Program.run_bind, hwrite]
  cases (m.print .output (line ++ "\n")).1 <;> rfl

/-- The command succeeds if the output takes its line, and else fails with the reason. -/
theorem run_endWith_cases (line : String) (code : ExitCode) (m : Machine) :
    (m.printFailure? .output = none ∧ (endWith line code).run.run m =
      (.ok code, m.emit .output (Utf8.encode (line ++ "\n")))) ∨
    ∃ failure, m.printFailure? .output = some failure ∧ (endWith line code).run.run m =
      (.error (.output failure.error),
        m.emit .output ((Utf8.encode (line ++ "\n")).take failure.stored)) := by
  rw [run_endWith, Machine.print]
  cases m.printFailure? .output with
  | none => exact .inl ⟨rfl, rfl⟩
  | some failure => exact .inr ⟨failure, rfl, rfl⟩

theorem run_endWith_eq_ok_iff {line : String} {code : ExitCode} {m : Machine} :
    ((endWith line code).run.run m).1 = .ok code ↔ m.printFailure? .output = none := by
  rcases run_endWith_cases line code m with ⟨htaken, hrun⟩ | ⟨failure, hfailure, hrun⟩
  · rw [hrun]
    exact iff_of_true rfl htaken
  · rw [hrun, hfailure]
    exact iff_of_false nofun nofun

theorem disk_run_endWith (line : String) (code : ExitCode) (m : Machine) :
    ((endWith line code).run.run m).2.disk = m.disk := by
  rw [run_endWith, Machine.disk_print]

/-- Goes on with a descriptor, once the check is over. -/
def conclude (sink : Sink) : Command → Descriptor × Option Path →
    ExceptT CommandError Program ExitCode
  | normalize _, (d, _) => endWith d.canonical .success
  | submit _ path, (d, source) => do
    let result ← ExceptT.mk (handOff sink source path d)
    endWith (runLine result) (exitCode result.status)
  | _, (d, _) => endWith (validLine d) .success

theorem run_conclude_submit_error (sink : Sink) (choice : DefinitionChoice) (source : Option Path)
    {path : Path} {d : Descriptor} {m m' : Machine} {e : SubmitError}
    (h : (Handoff.submit path d).run m = (.error e, m')) :
    ((submit choice path).conclude sink (d, source)).run.run m =
      (.error (.submission e), ((sink.record (closing source d (.error e))).run m').2) := by
  rw [conclude, Program.bind_cases, Program.run_bind, ExceptT.run_mk, run_handOff sink source h]
  rfl

theorem run_conclude_submit_ok (sink : Sink) (choice : DefinitionChoice) (source : Option Path)
    {path : Path} {d : Descriptor} {m m' : Machine} {result : RunResult}
    (h : (Handoff.submit path d).run m = (.ok result, m')) :
    ((submit choice path).conclude sink (d, source)).run.run m =
      (endWith (runLine result) (exitCode result.status)).run.run
        ((sink.record (closing source d (.ok result))).run m').2 := by
  rw [conclude, Program.bind_cases, Program.run_bind, ExceptT.run_mk, run_handOff sink source h]
  rfl

theorem perform_eq (sink : Sink) {command : Command} {choice : DefinitionChoice}
    (h : command.choice? = some choice) :
    command.perform sink = ExceptT.mk (check sink choice) >>= command.conclude sink := by
  cases command with
  | validate other =>
    obtain rfl : other = choice := Option.some.inj h
    rfl
  | normalize other =>
    obtain rfl : other = choice := Option.some.inj h
    rfl
  | submit other path =>
    obtain rfl : other = choice := Option.some.inj h
    rfl
  | schema => cases h
  | sample => cases h
  | page action => cases h

theorem run_perform (sink : Sink) {command : Command} {choice : DefinitionChoice}
    (h : command.choice? = some choice) (m : Machine) :
    (command.perform sink).run.run m =
      match verdict (loaded m choice) with
      | .error e => (.error e, ((sink.record (finding choice (loaded m choice))).run m).2)
      | .ok found => (command.conclude sink found).run.run
          ((sink.record (finding choice (loaded m choice))).run m).2 := by
  rw [perform_eq sink h, Program.bind_cases, Program.run_bind, ExceptT.run_mk, run_check]
  cases verdict (loaded m choice) <;> rfl

/-- Without an audit log the check of a definition leaves the machine as it is. -/
theorem run_perform_none {command : Command} {choice : DefinitionChoice} {m : Machine}
    (h : command.choice? = some choice) :
    (command.perform .none).run.run m =
      match verdict (loaded m choice) with
      | .error e => (.error e, m)
      | .ok found => (command.conclude .none found).run.run m :=
  run_perform .none h m

/-! ### The page -/

/-- Writing the page opens its file and writes it. -/
theorem perform_write_eq (sink : Sink) (path : Path) :
    ((page (.write path)).perform sink).run =
      .ask (.openFile path .truncate) fun
        | .error e => .done (.error (.page (.io e)))
        | .ok handle => .ask (.write handle (Utf8.encode Reference.page)) fun
          | .error e => .done (.error (.page (.io e)))
          | .ok () => .done (.ok .success) := by
  refine congrArg (Program.ask _) (funext fun answer => ?_)
  cases answer with
  | error e => rfl
  | ok handle =>
    refine congrArg (Program.ask _) (funext fun answer => ?_)
    cases answer <;> rfl

theorem run_perform_check (sink : Sink) (path : Path) (m : Machine) :
    ((page (.check path)).perform sink).run.run m =
      match (m.read path).mapError .io >>= Reference.checkContents path with
      | .error e => (.error (.page e), m)
      | .ok _ => (endWith ("docs up to date: " ++ path.display) .success).run.run m := by
  rw [perform, Program.bind_cases, Program.run_bind, Program.run_adapt, Reference.run_checkPage]
  generalize (m.read path).mapError .io >>= Reference.checkContents path = checked
  cases checked <;> rfl

end Command

namespace Invocation

/-- The end of an invocation. -/
def finish : Except CommandError ExitCode → Program ExitCode
  | .ok code => return code
  | .error e => do
    let _ ← Command.printLine .error e.message
    return .failure

theorem run_finish_error (e : CommandError) (m : Machine) :
    (finish (.error e)).run m = (.failure, (m.print .error (e.message ++ "\n")).2) := rfl

theorem disk_run_finish (result : Except CommandError ExitCode) (m : Machine) :
    ((finish result).run m).2.disk = m.disk := by
  cases result with
  | ok code => rfl
  | error e => rw [run_finish_error, Machine.disk_print]

/-- How the sink for an audit log is opened: a file is made or found, or nothing happens. -/
inductive Opening (m : Machine) : Option Path → Except CommandError Sink × Machine → Prop where
  | none : Opening m .none (.ok .none, m)
  | errorStream : Opening m (some errorStream) (.ok .errorStream, m)
  | failed {log : Path} {e : IoError} (hlog : log ≠ Invocation.errorStream) :
    Opening m (some log) (.error (.auditLog log e), m.advance)
  | file {log : Path} {handle : Handle} {m' : Machine} (hlog : log ≠ Invocation.errorStream)
    (h : m.openFile log .append = (.ok handle, m')) : Opening m (some log) (.ok (.file handle), m')

theorem opening_openSink (auditLog : Option Path) (m : Machine) :
    Opening m auditLog ((openSink auditLog).run m) := by
  cases auditLog with
  | none => exact .none
  | some log =>
    rw [openSink]
    split_ifs with hlog
    · rw [hlog]
      exact .errorStream
    · have hrun : ((do return (← Sink.openFile log).mapError (.auditLog log)) :
          Program (Except CommandError Sink)).run m =
          (((m.openFile log .append).1.map Sink.file).mapError (.auditLog log),
            (m.openFile log .append).2) := rfl
      rw [hrun]
      rcases m.openFile_outcome log .append with ⟨_, opened, _, heq⟩ | ⟨e, heq, _⟩
      · rw [heq]
        exact .file hlog heq
      · rw [heq]
        exact .failed hlog

/-- What an invocation does before its end. -/
def body (invocation : Invocation) : ExceptT CommandError Program ExitCode := do
  let sink ← ExceptT.mk (openSink invocation.auditLog)
  invocation.command.perform sink

theorem run_eq_body (invocation : Invocation) :
    invocation.run = invocation.body.run >>= finish := by
  rw [run, body]
  refine congrArg (_ >>= ·) (funext fun result => ?_)
  cases result <;> rfl

/-- An invocation opens its audit log, does what its command asks for, and ends. -/
theorem run_eq (invocation : Invocation) :
    invocation.run = openSink invocation.auditLog >>= fun
      | .error e => finish (.error e)
      | .ok sink => (invocation.command.perform sink).run >>= finish := by
  rw [run_eq_body, body, Program.bind_cases, bind_assoc]
  refine congrArg (openSink invocation.auditLog >>= ·) (funext fun opened => ?_)
  cases opened <;> rfl

theorem run_body (invocation : Invocation) (m : Machine) :
    invocation.body.run.run m =
      match (openSink invocation.auditLog).run m with
      | (.error e, after) => (.error e, after)
      | (.ok sink, after) => (invocation.command.perform sink).run.run after := by
  rw [body, Program.bind_cases, Program.run_bind, ExceptT.run_mk]
  rcases (openSink invocation.auditLog).run m with ⟨e | sink, after⟩ <;> rfl

/-- Once the sink is open, the command runs and the invocation ends. -/
theorem run_of_openSink {auditLog : Option Path} {sink : Sink} {m m' : Machine}
    (h : (openSink auditLog).run m = (.ok sink, m')) (command : Command) :
    (run ⟨auditLog, command⟩).run m =
      (finish ((command.perform sink).run.run m').1).run ((command.perform sink).run.run m').2 := by
  rw [run_eq_body, Program.run_bind, run_body, h]

/-- Without an audit log there is nothing to open. -/
theorem run_none (command : Command) (m : Machine) :
    (run ⟨none, command⟩).run m =
      (finish ((command.perform .none).run.run m).1).run ((command.perform .none).run.run m).2 :=
  run_of_openSink rfl command

/-- With an audit log in a file, the file is opened first. -/
theorem run_some {log : Path} (hlog : log ≠ errorStream) (command : Command) :
    run ⟨some log, command⟩ = .ask (.openFile log .append) fun
      | .error e => finish (.error (.auditLog log e))
      | .ok handle => (command.perform (.file handle)).run >>= finish := by
  rw [run_eq, openSink, if_neg hlog]
  refine congrArg (Program.ask (.openFile log .append)) (funext fun answer => ?_)
  cases answer <;> rfl

theorem finish_eq_success_iff {result : Except CommandError ExitCode} {m : Machine} :
    ((finish result).run m).1 = .success ↔ result = .ok .success := by
  cases result with
  | error e => exact iff_of_false nofun nofun
  | ok code => simp [finish]

end Invocation

namespace Command

/-- How a run ends that has only a line left to write. If the output takes the line, the run
succeeds and nothing else has changed; if not, it fails, with a beginning of the line on the output
and the reason on the error stream. -/
structure Writes (m : Machine) (line : String) (exit : ExitCode) (after : Machine) : Prop where
  written : m.printFailure? .output = none →
    exit = .success ∧ after = m.emit .output (Utf8.encode (line ++ "\n"))
  unwritten : ∀ failure, m.printFailure? .output = some failure →
    exit = .failure ∧ after = (Machine.print
      (m.emit .output ((Utf8.encode (line ++ "\n")).take failure.stored)) .error
        ("failed to write to stdout: " ++ failure.error.message ++ "\n")).2

theorem writes_endWith (m : Machine) (line : String) :
    Writes m line ((Invocation.finish ((endWith line .success).run.run m).1).run
        ((endWith line .success).run.run m).2).1
      ((Invocation.finish ((endWith line .success).run.run m).1).run
        ((endWith line .success).run.run m).2).2 := by
  rcases run_endWith_cases line .success m with ⟨htaken, hrun⟩ | ⟨failure, hfailure, hrun⟩
  · rw [hrun]
    refine ⟨fun _ => ⟨rfl, rfl⟩, fun failure hfailure => ?_⟩
    cases htaken.symm.trans hfailure
  · rw [hrun, Invocation.run_finish_error]
    refine ⟨fun htaken => ?_, fun other hother => ?_⟩
    · cases htaken.symm.trans hfailure
    · obtain rfl := Option.some.inj (hfailure.symm.trans hother)
      exact ⟨rfl, rfl⟩

end Command

end TestJob
