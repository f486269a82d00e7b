import Mathlib
import TestJob.Proofs.AuditTrail
import TestJob.Proofs.EmptyFiles
import TestJob.Proofs.PageFile
import TestJob.Proofs.Recording
import TestJob.Proofs.Submission

/-!
Keeping an audit log does not change what a run comes to. Two runs of one command are compared: one
without a log, and one with a log that could be opened.

* The machines. Opening the log and recording an event change files, the clock and the error stream
  only, and neither makes nor loses a directory; `Machine.Alike` says so. A command looks at nothing
  else, but for what it reads, and writes its line on the output as it stands: if that fails, it
  fails in both runs.
* What is read. Before the definition or the page is read, all that the log can have done is to make
  an empty file, which is never found in order.
* What is handed off. The descriptor is staged in a file that is made anew, and an event that is
  recorded after it goes to the file of the log, which is another one: unless the log is the staging
  file itself.

A log takes part in the plan of failures, since opening it and recording an event are changes of
files like any other. The run without the log is given the plan without those entries, so that a
failure meets the same change in both; without planned failures the two plans are the same.
-/

namespace TestJob

open Audit (Event Sink)

/-! ### Machines that go alike -/

namespace Machine

variable {m m' : Machine} {choice : DefinitionChoice} {path : Path}

/-- Two machines on which commands go alike: all is the same but the files, what was printed on the
error stream, and the clock. -/
structure Alike (m m' : Machine) : Prop where
  directory : m'.directory = m.directory
  environment : m'.environment = m.environment
  processId : m'.processId = m.processId
  directories : Disk.SameDirectories m.disk m'.disk
  unreadable : m'.unreadable = m.unreadable
  output : m'.output = m.output
  outputFailures : m'.outputFailures = m.outputFailures
  failures : m'.failures = m.failures

namespace Alike

theorem canHold_iff (h : m.Alike m') :
    m'.disk.CanHold m'.directory path ↔ m.disk.CanHold m.directory path := by
  rw [h.directory, h.directories.canHold_iff]

/-- A hand-off succeeds on both or on none. -/
theorem submit_iff (h : m.Alike m') (path : Path) (d : Descriptor) :
    (∃ result, ((Handoff.submit path d).run m').1 = .ok result) ↔
      ∃ result, ((Handoff.submit path d).run m).1 = .ok result := by
  simp only [Handoff.submit_succeeds_iff, h.canHold_iff, h.processId,
    undisturbed_congr h.failures]

/-- What no empty file has is read on both or on none. -/
theorem exists_read_iff (h : m.Alike m') (hreads : m.disk.AddsEmpty m.directory m'.disk)
    {p : Bytes → Prop} (hempty : ¬p []) (path : Path) :
    (∃ contents, m'.read path = .ok contents ∧ p contents) ↔
      ∃ contents, m.read path = .ok contents ∧ p contents := by
  simp only [read_eq_ok_iff, h.unreadable, h.directory, and_assoc, exists_and_left]
  exact and_congr_right fun _ => hreads.exists_read_iff hempty path

/-- A definition is found in order on both or on none, and is the same. -/
theorem verdict_iff (h : m.Alike m') (hreads : m.disk.AddsEmpty m.directory m'.disk)
    {found : Descriptor × Option Path} :
    Command.verdict (Command.loaded m' choice) = .ok found ↔
      Command.verdict (Command.loaded m choice) = .ok found := by
  have hvariable : m'.lookupVariable Definition.pathVariable =
      m.lookupVariable Definition.pathVariable := by
    rw [lookupVariable, answer, h.environment]
    rfl
  simp only [Command.verdict_loaded_eq_ok_iff, hvariable, h.environment]
  refine exists_congr fun path => ?_
  simp only [exists_and_left]
  exact and_congr_right fun _ => and_congr_right fun _ =>
    h.exists_read_iff hreads (Command.verdict_defined_nil _ _ _) path

/-- The page is written on both or on none. -/
theorem write_iff (h : m.Alike m') (path : Path) (sink sink' : Sink) :
    (∃ code, (((Command.page (.write path)).perform sink').run.run m').1 = .ok code) ↔
      ∃ code, (((Command.page (.write path)).perform sink).run.run m).1 = .ok code := by
  have hiff : ∀ (m : Machine) (sink : Sink),
      (∃ code, (((Command.page (.write path)).perform sink).run.run m).1 = .ok code) ↔
        m.Undisturbed 2 ∧ m.disk.CanHold m.directory path := by
    intro m sink
    rw [(Command.ends_write sink path m).exists_ok_iff, ← Disk.exists_openFile_iff]
    constructor
    · rintro ⟨disk, hundisturbed, opened, hopen, _⟩
      exact ⟨hundisturbed, opened, hopen⟩
    · rintro ⟨hundisturbed, opened, hopen⟩
      exact ⟨_, hundisturbed, opened, hopen, rfl⟩
  rw [hiff, hiff, undisturbed_congr h.failures, h.canHold_iff]

/-- The page is found in order on both or on none. -/
theorem check_iff (h : m.Alike m') (hreads : m.disk.AddsEmpty m.directory m'.disk) {u : Unit} :
    (m'.read path).mapError .io >>= Reference.checkContents path = .ok u ↔
      (m.read path).mapError .io >>= Reference.checkContents path = .ok u := by
  simp only [bind_eq_ok_iff, mapError_eq_ok_iff]
  refine h.exists_read_iff hreads (fun hcheck => ?_) path
  rw [Reference.checkContents_nil] at hcheck
  cases hcheck

end Alike

end Machine

/-! ### Commands that end alike -/

/-- Two runs of a command end alike: both fail, or both succeed with the same exit code, and they
print the same on the output. -/
structure EndAlike (plain audited : Except CommandError ExitCode × Machine) : Prop where
  result : audited.1.toOption = plain.1.toOption
  output : audited.2.output = plain.2.output

/-- A line is written on both outputs or on none. -/
theorem endAlike_endWith {m m' : Machine} (houtput : m'.output = m.output)
    (hfailures : m'.outputFailures = m.outputFailures) (line : String) (code : ExitCode) :
    EndAlike ((Command.endWith line code).run.run m) ((Command.endWith line code).run.run m') := by
  have hresult : (m'.print .output (line ++ "\n")).1 = (m.print .output (line ++ "\n")).1 := by
    rw [Machine.print, Machine.print, Machine.printFailure?, Machine.printFailure?, hfailures]
    cases m.outputFailures.head?.join <;> rfl
  rw [Command.run_endWith, Command.run_endWith]
  refine ⟨by rw [hresult], ?_⟩
  rw [Machine.print_output, Machine.print_output, houtput, hfailures]

namespace Machine.Alike

variable {m m' : Machine} {choice : DefinitionChoice} {path : Path} {sink : Sink}
  {command : Command} {auditLog : Option Path}

/-- Two hand-offs end alike. -/
theorem submit (h : m.Alike m') (path : Path) (d : Descriptor) :
    ((Handoff.submit path d).run m').1.toOption = ((Handoff.submit path d).run m).1.toOption := by
  refine toOption_eq_of_iff (h.submit_iff path d) fun result other hresult hother => ?_
  rw [Handoff.eq_of_submit_ok hresult, Handoff.eq_of_submit_ok hother]

/-- The rest of a command ends alike, once its definition has been checked. -/
theorem conclude (h : m.Alike m') (sink : Sink) (command : Command)
    (found : Descriptor × Option Path) :
    EndAlike ((command.conclude .none found).run.run m)
      ((command.conclude sink found).run.run m') := by
  obtain ⟨d, source⟩ := found
  cases command with
  | submit choice path =>
    have hsubmit := h.submit path d
    have hplain := (Handoff.silent_submit path d).quiet_run m
    have haudited := (Handoff.silent_submit path d).quiet_run m'
    rcases hrun : (Handoff.submit path d).run m with ⟨e | result, after⟩ <;>
      rcases hrun' : (Handoff.submit path d).run m' with ⟨e' | result', after'⟩ <;>
      rw [hrun] at hsubmit hplain <;> rw [hrun'] at hsubmit haudited
    · rw [Command.run_conclude_submit_error .none choice source hrun,
        Command.run_conclude_submit_error sink choice source hrun']
      obtain ⟨houtput, _⟩ := sink.output_record (Command.closing source d (.error e')) after'
      exact ⟨rfl, houtput.trans (haudited.output.trans (h.output.trans hplain.output.symm))⟩
    · cases hsubmit
    · cases hsubmit
    · obtain rfl : result' = result := Option.some.inj hsubmit
      rw [Command.run_conclude_submit_ok .none choice source hrun,
        Command.run_conclude_submit_ok sink choice source hrun']
      obtain ⟨houtput, hfailures⟩ :=
        sink.output_record (Command.closing source d (.ok result')) after'
      exact endAlike_endWith
        (houtput.trans (haudited.output.trans (h.output.trans hplain.output.symm)))
        (hfailures.trans (haudited.outputFailures.trans
          (h.outputFailures.trans hplain.outputFailures.symm))) _ _
  | validate | normalize | schema | sample | page =>
    exact endAlike_endWith h.output h.outputFailures _ _

end Machine.Alike

/-! ### The sink that is opened -/

namespace Audit.Sink

/-- How many changes of files opening a sink asks for, and recording an event in it. -/
def changes : Sink → Nat
  | file _ => 1
  | _ => 0

theorem failures_record (sink : Sink) (event : Event) (m : Machine) :
    ((sink.record event).run m).2.failures = m.failures.drop sink.changes := by
  cases sink with
  | none => rfl
  | errorStream =>
    rw [run_record_errorStream]
    rfl
  | file handle =>
    have hwrite := Machine.failures_answer { m with times := m.times.tail }
      (.write handle (Utf8.encode (event.line (m.times.headD 0) ++ "\n")))
    exact hwrite.trans List.drop_one.symm

/-- A machine once a sink has been opened on it. -/
structure Started (sink : Sink) (m m' : Machine) : Prop where
  persists : m.Persists m'
  output : m'.output = m.output
  outputFailures : m'.outputFailures = m.outputFailures
  failures : m'.failures = m.failures.drop sink.changes
  reads : m.disk.AddsEmpty m.directory m'.disk

theorem started_self {sink : Sink} (hfile : sink.changes = 0) (m : Machine) : sink.Started m m where
  persists := .refl m
  output := rfl
  outputFailures := rfl
  failures := by rw [hfile, List.drop_zero]
  reads := .refl m.directory m.disk

end Audit.Sink

theorem Invocation.started_of_openSink {auditLog : Option Path} {sink : Sink} {m m' : Machine}
    (h : (openSink auditLog).run m = (.ok sink, m')) : sink.Started m m' := by
  have hopening := opening_openSink auditLog m
  rw [h] at hopening
  cases hopening with
  | none => exact Sink.started_self rfl m
  | errorStream => exact Sink.started_self rfl m
  | @file log handle _ _ hopen =>
    have hpersists := m.persists_openFile log .append
    have hquiet := m.quiet_answer (rfl : (Request.openFile log .append).quiet = true)
    have hanswer : m.answer (.openFile log .append) = (.ok handle, m') := hopen
    rw [hanswer] at hquiet
    rw [hopen] at hpersists
    obtain ⟨opened, hopened, hdisk, _, hfailures⟩ := Machine.openFile_append_eq_ok hopen
    refine ⟨hpersists, hquiet.output, hquiet.outputFailures,
      hfailures.trans List.drop_one.symm, ?_⟩
    rw [hdisk]
    exact Disk.addsEmpty_openFile hopened

namespace Audit.Sink.Started

variable {sink : Sink} {m m' : Machine} {choice : DefinitionChoice} {command : Command}

/-- A machine without what the log is to take of the plan of failures goes alike. -/
theorem alike (h : sink.Started m m') : (m.skip sink.changes).Alike m' where
  directory := h.persists.directory
  environment := h.persists.environment
  processId := h.persists.processId
  directories := h.persists.directories
  unreadable := h.persists.unreadable
  output := h.output
  outputFailures := h.outputFailures
  failures := h.failures

theorem alike_record (h : sink.Started m m') (event : Event) :
    (m.skip (2 * sink.changes)).Alike ((sink.record event).run m').2 := by
  have hpersists := h.persists.trans (Program.persists_run (sink.record event) m')
  exact
    { directory := hpersists.directory
      environment := hpersists.environment
      processId := hpersists.processId
      directories := hpersists.directories
      unreadable := hpersists.unreadable
      output := (sink.output_record event m').1.trans h.output
      outputFailures := (sink.output_record event m').2.trans h.outputFailures
      failures := by
        rw [failures_record, h.failures, List.drop_drop, ← two_mul]
        rfl }

/-- A command that works on a definition ends alike. -/
theorem perform_of_choice (h : sink.Started m m') (hchoice : command.choice? = some choice) :
    EndAlike ((command.perform .none).run.run (m.skip (2 * sink.changes)))
      ((command.perform sink).run.run m') := by
  have hverdict : ∀ found, Command.verdict (Command.loaded m' choice) = .ok found ↔
      Command.verdict (Command.loaded (m.skip sink.changes) choice) = .ok found :=
    fun _ => h.alike.verdict_iff h.reads
  have halike := h.alike_record (Command.finding choice (Command.loaded m' choice))
  have hloaded : Command.loaded (m.skip (2 * sink.changes)) choice =
    Command.loaded (m.skip sink.changes) choice := rfl
  rw [Command.run_perform .none hchoice, Command.run_perform sink hchoice, hloaded]
  cases hplain : Command.verdict (Command.loaded (m.skip sink.changes) choice) with
  | ok found =>
    rw [(hverdict found).2 hplain]
    exact halike.conclude sink command found
  | error e =>
    cases haudited : Command.verdict (Command.loaded m' choice) with
    | ok found => cases hplain.symm.trans ((hverdict found).1 haudited)
    | error e' => exact ⟨rfl, halike.output⟩

/-- A command that works on no definition ends alike. -/
theorem perform_of_choice?_eq_none (h : sink.Started m m') (hchoice : command.choice? = .none) :
    EndAlike ((command.perform .none).run.run (m.skip sink.changes))
      ((command.perform sink).run.run m') := by
  have halike := h.alike
  have hline := endAlike_endWith halike.output halike.outputFailures
  cases command with
  | validate | normalize | submit => cases hchoice
  | schema | sample => exact hline _ _
  | page action =>
    cases action with
    | «show» => exact hline _ _
    | check path =>
      have hcheck : ∀ u, (m'.read path).mapError .io >>= Reference.checkContents path = .ok u ↔
          ((m.skip sink.changes).read path).mapError .io >>= Reference.checkContents path = .ok u :=
        fun _ => halike.check_iff h.reads
      rw [Command.run_perform_check, Command.run_perform_check]
      generalize (m'.read path).mapError .io >>= Reference.checkContents path = audited at hcheck ⊢
      generalize ((m.skip sink.changes).read path).mapError .io >>= Reference.checkContents path =
        plain at hcheck ⊢
      cases plain with
      | error e =>
        cases audited with
        | error e' => exact ⟨rfl, halike.output⟩
        | ok u => cases (hcheck u).1 rfl
      | ok u =>
        rw [(hcheck u).2 rfl]
        exact hline _ _
    | write path =>
      have hwrite := halike.write_iff path .none sink
      have hplain := (Command.silent_write .none path).quiet_run (m.skip sink.changes)
      have haudited := (Command.silent_write sink path).quiet_run m'
      refine ⟨toOption_eq_of_iff hwrite fun code other hcode hother => ?_,
        haudited.output.trans (halike.output.trans hplain.output.symm)⟩
      rw [Command.eq_success_of_write hcode, Command.eq_success_of_write hother]

end Audit.Sink.Started

/-! ### What is handed off -/

namespace Audit.Sink

variable {sink : Sink} {m m' after : Machine} {path : Path} {d : Descriptor}
  {choice : DefinitionChoice}

/-- The file of a sink, if it has one, is not the staging file of a hand-off. -/
def Apart (sink : Sink) (m : Machine) (path : Path) : Prop :=
  ∀ handle, sink = .file handle → ∃ object < m.disk.objects.length,
    m.opened[handle.index]? = some ⟨object, .none⟩ ∧
      ∀ staging, Handoff.stagingPath? path m.processId = some staging →
        m.disk.object? m.directory staging ≠ some object

theorem Apart.record (h : sink.Apart m path) (event : Event) :
    sink.Apart ((sink.record event).run m).2 path := by
  cases sink with
  | none => exact h
  | errorStream => exact nofun
  | file handle =>
    intro other hother
    obtain rfl := file.inj hother
    obtain ⟨object, hstored, hopened, hapart⟩ := h handle rfl
    obtain ⟨stored, hrun⟩ := exists_record_eq hopened event
    have hnames : Disk.KeepsNames object m.disk
        (m.disk.setContents object (m.disk.contents object ++ stored)) :=
      Disk.keepsNames_setContents _ _ _
    rw [hrun]
    exact ⟨object, Nat.lt_of_lt_of_le hstored (Disk.fewerNames_setContents _ _ _).stored, hopened,
      fun staging hstaging hobject => hapart staging hstaging (hnames.object?_iff.1 hobject)⟩

/-- An event that is recorded after a hand-off leaves what was handed off. -/
theorem Apart.read_record {result : RunResult} (h : sink.Apart m path)
    (hsubmit : (Handoff.submit path d).run m = (.ok result, after)) (event : Event) :
    ((sink.record event).run after).2.disk.read m.directory path = .ok (Handoff.payload d) := by
  have hpersists := Program.persists_run (Handoff.submit path d) m
  have hends := (Handoff.ends_submit path d m).ok result
  rw [hsubmit] at hpersists hends
  obtain ⟨_, staging, hstaging, _, hrenewed⟩ := hends rfl
  cases sink with
  | none => exact hrenewed.read_eq
  | errorStream =>
    rw [run_record_errorStream]
    exact hrenewed.read_eq
  | file handle =>
    obtain ⟨opened, hopen, hobject, hcontents⟩ := hrenewed.exists_object
    obtain ⟨object, hstored, hfile, hapart⟩ := h handle rfl
    have hne : opened.1 ≠ object := (Disk.openFile_spares hopen hstored (hapart staging hstaging)).1
    obtain ⟨stored, hrun⟩ := exists_record_eq (hpersists.opened _ _ hfile) event
    have hnames : Disk.KeepsNames opened.1 after.disk
        (after.disk.setContents object (after.disk.contents object ++ stored)) :=
      Disk.keepsNames_setContents _ _ _
    rw [hrun]
    refine (Disk.read_of_object? (hnames.object?_eq_some hobject)).trans (congrArg Except.ok ?_)
    exact (Disk.contents_setContents_of_ne hne.symm _).trans hcontents

/-- A hand-off that succeeds leaves the descriptor that the check finds. -/
theorem Apart.read_perform {code : ExitCode} (h : sink.Apart m path)
    (hok : (((Command.submit choice path).perform sink).run.run m).1 = .ok code) :
    ∃ d source, Command.verdict (Command.loaded m choice) = .ok (d, source) ∧
      (((Command.submit choice path).perform sink).run.run m).2.disk.read m.directory path =
        .ok (Handoff.payload d) := by
  rw [Command.run_perform sink rfl] at hok ⊢
  have hrecorded := h.record (Command.finding choice (Command.loaded m choice))
  have hdirectory := (Program.persists_run
    (sink.record (Command.finding choice (Command.loaded m choice))) m).directory
  cases hverdict : Command.verdict (Command.loaded m choice) with
  | error e =>
    rw [hverdict] at hok
    cases hok
  | ok found =>
    obtain ⟨d, source⟩ := found
    rw [hverdict] at hok
    refine ⟨d, source, rfl, ?_⟩
    dsimp only at hok ⊢
    rcases hsubmit : (Handoff.submit path d).run
      ((sink.record (Command.finding choice (Command.loaded m choice))).run m).2
        with ⟨e | result, after⟩
    · rw [Command.run_conclude_submit_error sink choice source hsubmit] at hok
      cases hok
    · rw [Command.run_conclude_submit_ok sink choice source hsubmit, Command.disk_run_endWith,
        ← hdirectory]
      exact hrecorded.read_record hsubmit _

end Audit.Sink

/-! ### A whole run -/

namespace CommandLine

theorem attached?_auditLog (bytes : Bytes) :
    attached? [.auditLog] (Utf8.encode "--audit-log=" ++ bytes) = some (.auditLog, bytes) := rfl

theorem path?_cons {name : OptionName} {settings : List Setting} {path : Path}
    (h : path? name settings = some none) (hpath : path.bytes ≠ []) :
    path? name ((name, path.bytes) :: settings) = some (some path) := by
  have hvalues : values name settings = [] := by
    rw [path?] at h
    split at h
    · assumption
    · split_ifs at h
      cases h
    · cases h
  have hcons : values name ((name, path.bytes) :: settings) = [path.bytes] := by
    rw [← List.cons_eq_cons.2 ⟨rfl, hvalues⟩]
    simp [values]
  rw [path?, hcons]
  exact if_neg hpath

end CommandLine

open CommandLine in
/-- A command line may begin with an audit log, wherever that is kept. -/
theorem Invocation.ofArguments?_auditLog {arguments : List Bytes} {command : Command} {log : Path}
    (h : ofArguments? arguments = some ⟨none, command⟩) (hlog : log.bytes ≠ []) :
    ofArguments? ((Utf8.encode "--audit-log=" ++ log.bytes) :: arguments) =
      some ⟨some log, command⟩ := by
  have hsettings : settings? [.auditLog] ((Utf8.encode "--audit-log=" ++ log.bytes) :: arguments) =
      (settings? [.auditLog] arguments).map fun found =>
        ((OptionName.auditLog, log.bytes) :: found.1, found.2) := by
    rw [settings?, CommandLine.attached?_auditLog]
    cases settings? [.auditLog] arguments <;> rfl
  rw [ofArguments?] at h ⊢
  rw [hsettings]
  cases hbefore : settings? [.auditLog] arguments with
  | none =>
    rw [hbefore] at h
    cases h
  | some found =>
    obtain ⟨before, rest⟩ := found
    rw [hbefore] at h
    simp only [Option.map_some, Option.bind_eq_bind, Option.bind_some] at h ⊢
    obtain ⟨name, hname, h⟩ := Option.bind_eq_some_iff.1 h
    obtain ⟨⟨after, last⟩, hafter, h⟩ := Option.bind_eq_some_iff.1 h
    rw [hname, Option.bind_some, hafter, Option.bind_some]
    dsimp only at h ⊢
    split_ifs at h ⊢ with hend
    obtain ⟨outer, houter, h⟩ := Option.bind_eq_some_iff.1 h
    obtain ⟨inner, hinner, h⟩ := Option.bind_eq_some_iff.1 h
    obtain ⟨found, hfound, h⟩ := Option.bind_eq_some_iff.1 h
    simp only [Option.pure_def, Option.some.injEq, Invocation.mk.injEq, Option.or_eq_none_iff] at h
    obtain ⟨⟨rfl, rfl⟩, rfl⟩ := h
    rw [CommandLine.path?_cons houter hlog, hinner, hfound]
    rfl

/-- How many changes of files a sink asks for before its command asks for any: its opening and, if
there is one, the event of the check. -/
def Audit.Sink.changesBefore (command : Command) (sink : Sink) : Nat :=
  if command.choice?.isSome then 2 * sink.changes else sink.changes

theorem Audit.Sink.Started.perform {sink : Sink} {m m' : Machine} (h : sink.Started m m')
    (command : Command) :
    EndAlike ((command.perform .none).run.run (m.skip (sink.changesBefore command)))
      ((command.perform sink).run.run m') := by
  rw [changesBefore]
  cases hchoice : command.choice? with
  | none => exact h.perform_of_choice?_eq_none hchoice
  | some choice => exact h.perform_of_choice hchoice

theorem Invocation.finish_alike {plain audited : Except CommandError ExitCode × Machine}
    (h : EndAlike plain audited) :
    ((finish audited.1).run audited.2).1 = ((finish plain.1).run plain.2).1 ∧
      ((finish audited.1).run audited.2).2.output = ((finish plain.1).run plain.2).2.output := by
  obtain ⟨result, m⟩ := plain
  obtain ⟨result', m'⟩ := audited
  obtain ⟨hresult, houtput⟩ := h
  cases result with
  | error e =>
    cases result' with
    | error e' =>
      rw [run_finish_error, run_finish_error, Machine.print_error, Machine.print_error]
      exact ⟨rfl, houtput⟩
    | ok code => cases hresult
  | ok code =>
    cases result' with
    | error e' => cases hresult
    | ok code' =>
      cases hresult
      exact ⟨rfl, houtput⟩

/-- An audit log in a file is the staging file of a hand-off. -/
def Invocation.LogIsStaging (m : Machine) (log : Path) (command : Command) : Prop :=
  log ≠ errorStream ∧ ∃ choice path staging, command = .submit choice path ∧
    Handoff.stagingPath? path m.processId = some staging ∧ Command.SameFile m log staging

/-- A run comes to the same with an audit log as without one: the same exit code, the same on the
output and, after a hand-off that succeeds, the same at its path. -/
structure SameOutcome (m : Machine) (command : Command) (plain audited : ExitCode × Machine) :
    Prop where
  exit : audited.1 = plain.1
  output : audited.2.output = plain.2.output
  handoff : ∀ choice path, command = .submit choice path → audited.1 = .success →
    ∃ d, plain.2.disk.read m.directory path = .ok (Handoff.payload d) ∧
      audited.2.disk.read m.directory path = .ok (Handoff.payload d)

namespace Invocation

variable {m m' : Machine} {log : Path} {command : Command} {sink : Sink}

theorem apart_of_openSink {choice : DefinitionChoice} {path : Path}
    (hopen : (openSink (some log)).run m = (.ok sink, m'))
    (hstaging : ¬LogIsStaging m' log (.submit choice path)) : sink.Apart m' path := by
  have hopening := opening_openSink (some log) m
  rw [hopen] at hopening
  cases hopening with
  | errorStream => exact nofun
  | file hlog hfile =>
    intro handle hhandle
    obtain rfl := Sink.file.inj hhandle
    have hdirectory := m.directory_openFile log .append
    rw [hfile] at hdirectory
    obtain ⟨opened, hopened, hdisk, hindex, _⟩ := Machine.openFile_append_eq_ok hfile
    have hobject := Disk.object?_openFile hopened
    rw [← hdisk, ← hdirectory] at hobject
    exact ⟨opened.1, Disk.lt_of_object? hobject, hindex, fun staging hpath hsame =>
      hstaging ⟨hlog, choice, path, staging, rfl, hpath, opened.1, hobject, hsame⟩⟩

/-- What is handed off is the same with an audit log, unless the log is the staging file. -/
theorem read_of_submit {choice : DefinitionChoice} {path : Path} {auditLog : Option Path}
    (hopen : (openSink auditLog).run m = (.ok sink, m')) (hapart : sink.Apart m' path)
    (hexit : ((run ⟨auditLog, .submit choice path⟩).run m).1 = .success) :
    ∃ d source, Command.verdict (Command.loaded m' choice) = .ok (d, source) ∧
      ((run ⟨auditLog, .submit choice path⟩).run m).2.disk.read m'.directory path =
        .ok (Handoff.payload d) := by
  rw [run_of_openSink hopen] at hexit ⊢
  have hok := finish_eq_success_iff.1 hexit
  obtain ⟨d, source, hverdict, hread⟩ := hapart.read_perform hok
  refine ⟨d, source, hverdict, ?_⟩
  rw [hok]
  exact hread

/-- Keeping an audit log changes no outcome. -/
theorem sameOutcome (hopen : (openSink (some log)).run m = (.ok sink, m'))
    (hstaging : ¬LogIsStaging m' log command) :
    SameOutcome m command ((run ⟨none, command⟩).run (m.skip (sink.changesBefore command)))
      ((run ⟨some log, command⟩).run m) := by
  have hstarted := started_of_openSink hopen
  have hfinish := finish_alike (hstarted.perform command)
  rw [← run_none, ← run_of_openSink hopen] at hfinish
  refine ⟨hfinish.1, hfinish.2, fun choice path hcommand hexit => ?_⟩
  subst hcommand
  obtain ⟨d, source, hverdict, hread⟩ :=
    read_of_submit hopen (apart_of_openSink hopen hstaging) hexit
  have hplain := hfinish.1.symm.trans hexit
  obtain ⟨d', source', hverdict', hread'⟩ :=
    read_of_submit rfl (nofun : Sink.none.Apart _ path) hplain
  -- loading reads no planned failure, so both checks find the same descriptor
  have hloaded : Command.loaded (m.skip (sink.changesBefore (.submit choice path))) choice =
    Command.loaded (m.skip sink.changes) choice := rfl
  rw [hloaded, ← hstarted.alike.verdict_iff hstarted.reads, hverdict] at hverdict'
  cases hverdict'
  rw [hstarted.persists.directory] at hread
  exact ⟨d, hread', hread⟩

end Invocation

/-- Keeping an audit log never changes what a command line comes to, wherever the log is kept: at a
new path or at that of a file, even of the definition, of the page or of the hand-off, but not at
the staging path of the hand-off. The exit code and the output are the same as without the log, and
a hand-off that succeeds leaves the same at its path. A planned failure is to meet the same change
in both runs, so those that the log takes first are left out of the plan of the other. -/
theorem audit_keeps_outcome {plain audited : List Bytes} {log : Path} {command : Command}
    {m opened : Machine} {sink : Sink}
    (hplain : Invocation.ofArguments? plain = some ⟨none, command⟩)
    (haudited : Invocation.ofArguments? audited = some ⟨some log, command⟩)
    (hopen : (Invocation.openSink (some log)).run m = (.ok sink, opened))
    (hstaging : ¬Invocation.LogIsStaging opened log command) :
    SameOutcome m command
      ((runArguments plain).run (m.skip (sink.changesBefore command)))
      ((runArguments audited).run m) := by
  rw [runArguments, runArguments, hplain, haudited]
  exact Invocation.sameOutcome hopen hstaging

/-- A machine without files. -/
def bareMachine : Machine := .start Disk.empty [] [] 7

/-- A definition that is not there. -/
def missingDefinition : Path := .ofString "job.toml"

/-- A hand-off of it. -/
def missingArguments : List Bytes :=
  [Utf8.encode "submit", Utf8.encode "--definition=job.toml", Utf8.encode "--handoff=out.json"]

/-- The same with the audit log in the place of the definition. -/
def loggedArguments : List Bytes :=
  (Utf8.encode "--audit-log=" ++ missingDefinition.bytes) :: missingArguments

theorem audit_keeps_outcome_sample :
    let command := Command.submit ⟨some missingDefinition, []⟩ (.ofString "out.json")
    let opened := (bareMachine.openFile missingDefinition .append).2
    Invocation.ofArguments? missingArguments = some ⟨none, command⟩ ∧
      Invocation.ofArguments? loggedArguments = some ⟨some missingDefinition, command⟩ ∧
      (Invocation.openSink (some missingDefinition)).run bareMachine = (.ok (.file ⟨0⟩), opened) ∧
      ¬Invocation.LogIsStaging opened missingDefinition command ∧
      opened.disk.read [] missingDefinition = .ok [] ∧
      ((runArguments missingArguments).run bareMachine).1 = .failure ∧
      ((runArguments loggedArguments).run bareMachine).1 = .failure ∧
      ((runArguments loggedArguments).run bareMachine).2.output = [] := by
  intro command opened
  have hplain : Invocation.ofArguments? missingArguments = some ⟨none, command⟩ := by
    decide +kernel
  have haudited : Invocation.ofArguments? loggedArguments =
      some ⟨some missingDefinition, command⟩ :=
    Invocation.ofArguments?_auditLog hplain (by decide)
  have hlog : missingDefinition ≠ Invocation.errorStream := by decide
  have hopen : (Invocation.openSink (some missingDefinition)).run bareMachine =
      (.ok (.file ⟨0⟩), opened) := by
    rw [Invocation.openSink, if_neg hlog]
    rfl
  have hstaging : ¬Invocation.LogIsStaging opened missingDefinition command := by
    rintro ⟨_, choice, path, staging, hcommand, hpath, object, _, hsame⟩
    obtain ⟨_, rfl⟩ := Command.submit.inj hcommand
    obtain rfl : Path.ofString ".out.json.tmp.7" = staging := by
      rw [← Option.some.injEq, ← hpath]
      decide
    have hmissing : opened.disk.object? opened.directory (.ofString ".out.json.tmp.7") = none := rfl
    rw [hmissing] at hsame
    cases hsame
  have hexit : ((runArguments missingArguments).run bareMachine).1 = .failure := by decide +kernel
  have houtput : ((runArguments missingArguments).run bareMachine).2.output = [] := by
    decide +kernel
  -- no failure is planned, so the plan of the run without the log is the same
  have hskip : bareMachine.skip (Audit.Sink.changesBefore command (.file ⟨0⟩)) = bareMachine :=
    Machine.skip_eq_self rfl _
  have hsame := audit_keeps_outcome hplain haudited hopen hstaging
  rw [hskip] at hsame
  exact ⟨hplain, haudited, hopen, hstaging, rfl, hexit, hsame.exit.trans hexit,
    hsame.output.trans houtput⟩

end TestJob
