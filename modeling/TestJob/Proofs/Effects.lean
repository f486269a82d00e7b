import Mathlib
import TestJob.Proofs.Agreement
import TestJob.Proofs.AuditTrail
import TestJob.Proofs.HandoffFrame
import TestJob.Proofs.PageFile

/-!
What an invocation changes, and what it prints. It ends in success or failure
(`Invocation.Effects`). A failure prints its message last on the error stream, and leaves every
place as it was but those of the audit log, which has only been continued, and those where it may
leave something behind (`Invocation.Leaves`); where nothing is planned to fail there are none of these
(`Invocation.Fails.continued_of_no_failures`). A success prints nothing but events on the error
stream, and changes what stands at the places it is told to. The sink carries one invariant through
all of it (`Audit.Sink.Keeps`), and a hand-off is atomic also where the audit log itself has been
made at its staging path (`Handoff.exists_atomic`).
-/

namespace TestJob

open Audit (Event Sink)

/-! ### The sink that is opened -/

namespace Invocation

variable {m m' : Machine} {sink : Sink} {auditLog : Option Path} {log : Path}

/-- Where an audit log stands that is kept in a file. -/
def LogPlace (m : Machine) (auditLog : Option Path) (location : Location) : Prop :=
  ∃ log, auditLog = some log ∧ log ≠ errorStream ∧ m.disk.Leads m.directory log location

/-- Where an invocation may change what is seen: where its audit log stands, at the path of a
hand-off, and where the page is written. -/
inductive MayChange (m : Machine) : Invocation → Location → Prop where
  | log {auditLog command location} (h : LogPlace m auditLog location) :
    MayChange m ⟨auditLog, command⟩ location
  | handoff {auditLog choice path location} (h : m.disk.Means m.directory path location) :
    MayChange m ⟨auditLog, .submit choice path⟩ location
  | page {auditLog path location} (h : m.disk.Leads m.directory path location) :
    MayChange m ⟨auditLog, .page (.write path)⟩ location

/-- Where an invocation may have changed what is seen although it fails, given the error: where the
page is, if it was not written to its end; where the staging file of a hand-off is, if it was not
taken away; and at the path of a hand-off, if only the line that tells of it was not written. -/
inductive Leaves (m : Machine) : Invocation → CommandError → Location → Prop where
  | page {auditLog path handle e location}
    (hfails : ¬(run ⟨auditLog, .page (.write path)⟩).WritesWork handle m)
    (h : m.disk.Leads m.directory path location) :
    Leaves m ⟨auditLog, .page (.write path)⟩ e location
  | staging {auditLog choice path e location}
    (hfails : ¬(run ⟨auditLog, .submit choice path⟩).RemovalsWork m)
    (h : Handoff.StagingPlace m path location) :
    Leaves m ⟨auditLog, .submit choice path⟩ e location
  | handoff {auditLog choice path error location} (h : m.disk.Means m.directory path location) :
    Leaves m ⟨auditLog, .submit choice path⟩ (.output error) location

/-- A machine once the sink for an audit log has been opened. -/
structure Opened (auditLog : Option Path) (sink : Sink) (m m' : Machine) : Prop where
  keeps : sink.Keeps (LogPlace m auditLog) [] m m'
  continued : Disk.Continued (LogPlace m auditLog) m.disk m'.disk
  /-- Every path leads where it led before. -/
  leads : ∀ path location, m'.disk.Leads m.directory path location →
    m.disk.Leads m.directory path location
  free : ∀ path, (∀ contents, m.disk.read m.directory path ≠ .ok contents) →
    sink.LeavesFree m.disk m' path

theorem opened_self (hfile : ∀ handle, sink ≠ .file handle) : Opened auditLog sink m m where
  keeps := by
    refine ⟨.refl m, fun handle hhandle => absurd hhandle (hfile handle), rfl, rfl, ?_, ?_,
      fun _ => rfl⟩
    · rw [Sink.printed_nil, Machine.taken_nil, List.append_nil]
    · rw [Sink.printed_nil]
      rfl
  continued := .refl m.disk
  leads _ _ h := h
  free _ h := .inl h

/-- A log is opened with its file where it was, or made where nothing stood. -/
theorem opened_file (hlog : log ≠ errorStream) {handle : Handle}
    (h : m.openFile log .append = (.ok handle, m')) : Opened (some log) (.file handle) m m' := by
  have hpersists := m.persists_openFile log .append
  have hquiet := m.quiet_answer (rfl : (Request.openFile log .append).quiet = true)
  have hanswer : m.answer (.openFile log .append) = (.ok handle, m') := h
  rw [h] at hpersists
  rw [hanswer] at hquiet
  obtain ⟨opened, hopen, hdisk, hfile, _⟩ := Machine.openFile_append_eq_ok h
  have hplace : ∀ location, m.disk.Leads m.directory log location →
      LogPlace m (some log) location := fun location hleads => ⟨log, rfl, hlog, hleads⟩
  refine ⟨⟨hpersists, fun other hother => ?_, hquiet.output, hquiet.outputFailures, ?_,
    hquiet.errorFailures, nofun⟩, ?_, fun path location hleads => ?_, fun path hnone => ?_⟩
  · obtain rfl := Sink.file.inj hother
    rw [hdisk]
    exact ⟨opened.1, Disk.lt_of_object? (Disk.object?_openFile hopen), hfile,
      fun location hentry => hplace location (Disk.leads_of_openFile hopen hentry)⟩
  · rw [Sink.printed_nil, Machine.taken_nil, List.append_nil]
    exact hquiet.error
  · rw [hdisk]
    exact (Disk.continued_openFile hopen).mono hplace
  · rw [hdisk] at hleads
    exact hleads.of_openFile hopen
  · rw [Sink.LeavesFree, hdisk, hpersists.directory]
    rcases Disk.openFile_append_cases hopen with ⟨_, hsame⟩ | ⟨made, hmeans, hstaged, _⟩
    · rw [hsame]
      exact .inl hnone
    · by_cases hpath : m.disk.Means m.directory path made
      · exact .inr ⟨handle, made, opened.1, [], rfl, hfile, hpath, hstaged⟩
      · exact .inl (hstaged.read_ne hnone hpath)

/-- Opening the sink for an audit log changes nothing but the log. -/
theorem opened_of_openSink (h : (openSink auditLog).run m = (.ok sink, m')) :
    Opened auditLog sink m m' := by
  have hopening := opening_openSink auditLog m
  rw [h] at hopening
  cases hopening with
  | none => exact opened_self nofun
  | errorStream => exact opened_self nofun
  | file hlog hopen => exact opened_file hlog hopen

/-- No file is at the staging path of a hand-off. -/
def StagingFree (m : Machine) (invocation : Invocation) : Prop :=
  ∀ choice path staging, invocation.command = .submit choice path →
    Handoff.stagingPath? path m.processId = some staging →
    ∀ contents, m.disk.read m.directory staging ≠ .ok contents

theorem removalsWork_perform {command : Command}
    (hopen : (openSink auditLog).run m = (.ok sink, m'))
    (h : (run ⟨auditLog, command⟩).RemovalsWork m) :
    (command.perform sink).run.RemovalsWork m' := by
  rw [run_eq, Program.removalsWork_bind_iff, hopen] at h
  exact (Program.removalsWork_bind_iff.1 h.2).1

theorem writesWork_perform {command : Command} {handle : Handle}
    (hopen : (openSink auditLog).run m = (.ok sink, m'))
    (h : (run ⟨auditLog, command⟩).WritesWork handle m) :
    (command.perform sink).run.WritesWork handle m' := by
  rw [run_eq, Program.writesWork_bind_iff, hopen] at h
  exact (Program.writesWork_bind_iff.1 h.2).1

end Invocation

/-! ### A command -/

/-- How a command ends that prints some texts on the error stream: it fails with nothing on the
output, or because its line was not written, and in both cases its log has been continued and
nothing else is seen to have changed but what is left; or it succeeds, with changes at its places
only. -/
inductive Ending (m : Machine) (left : CommandError → Location → Prop)
    (logs places : Location → Prop) (texts : List String) (lastLine : String → Prop) :
    Except CommandError ExitCode → Machine → Prop where
  | failed {e : CommandError} {m' : Machine} (hother : ∀ error, e ≠ .output error)
    (output : m'.output = m.output) (printed : m.HasPrinted texts m')
    (continued : Disk.ContinuedOff (left e) logs m.disk m'.disk) :
    Ending m left logs places texts lastLine (.error e) m'
  | unwritten {failure : Failure} {line : String} {m' : Machine}
    (hfailure : m.printFailure? .output = some failure) (hline : lastLine line)
    (output : m'.output = m.output ++ (Utf8.encode (line ++ "\n")).take failure.stored)
    (printed : m.HasPrinted texts m')
    (continued : Disk.ContinuedOff (left (.output failure.error)) logs m.disk m'.disk) :
    Ending m left logs places texts lastLine (.error (.output failure.error)) m'
  | succeeded {m' : Machine} (printed : m.HasPrinted texts m')
    (confined : Disk.Confined places m.disk m'.disk) :
    Ending m left logs places texts lastLine (.ok .success) m'

namespace Command

/-- The line that a command writes on the output at its end. -/
inductive LastLine (m : Machine) : Command → String → Prop where
  | validate {choice event path d} (h : Finding m choice event (.ok (path, d))) :
    LastLine m (validate choice) (validLine d)
  | normalize {choice event path d} (h : Finding m choice event (.ok (path, d))) :
    LastLine m (normalize choice) d.canonical
  | submit {choice path} : LastLine m (submit choice path) (runLine ⟨.accepted, some path.display⟩)
  | schema : LastLine m schema Definition.schema.toJson.indented
  | sample : LastLine m sample (Text.trimEnd Reference.exampleText)
  | «show» : LastLine m (page .show) (Text.trimEnd Reference.page)
  | check {path} : LastLine m (page (.check path)) ("docs up to date: " ++ path.display)

variable {m m' : Machine} {left : CommandError → Location → Prop} {logs places : Location → Prop}
  {lastLine : String → Prop} {sink : Sink} {events : List Event} {command : Command}
  {choice : DefinitionChoice} {path : Path}

/-- A command ends with its line. -/
theorem ending_endWith {kept : Location → Prop} {line : String}
    (hkeeps : sink.Keeps kept events m m') (hline : lastLine line)
    (hleft : ∀ error, Disk.ContinuedOff (left (.output error)) logs m.disk m'.disk)
    (hconfined : Disk.Confined places m.disk m'.disk) :
    Ending m left logs places (sink.printed m.times events) lastLine
      ((endWith line .success).run.run m').1 ((endWith line .success).run.run m').2 := by
  have hsame : m'.printFailure? .output = m.printFailure? .output :=
    congrArg (·.head?.join) hkeeps.outputFailures
  rcases run_endWith_cases line .success m' with ⟨_, hrun⟩ | ⟨failure, hfailure, hrun⟩
  · rw [hrun]
    exact .succeeded ⟨hkeeps.error, hkeeps.errorFailures⟩ hconfined
  · rw [hrun]
    exact .unwritten (hsame.symm.trans hfailure) hline (congrArg (· ++ _) hkeeps.output)
      ⟨hkeeps.error, hkeeps.errorFailures⟩ (hleft failure.error)

/-- The rest of a hand-off, once the definition has been checked. -/
theorem ending_submit (hkeeps : sink.Keeps logs events m m')
    (hcontinued : Disk.Continued logs m.disk m'.disk)
    (hlogs : ∀ location, logs location → places location)
    (hpath : ∀ location, m.disk.Means m.directory path location → places location)
    (hfree : ∀ staging, Handoff.stagingPath? path m'.processId = some staging →
      sink.LeavesFree m.disk m' staging)
    (d : Descriptor) (source : Option Path)
    (hstaging : ¬(Handoff.submit path d).RemovalsWork m' →
      ∀ e location, Handoff.StagingPlace m' path location → left e location)
    (hhandoff : ∀ error location, m.disk.Means m.directory path location →
      left (.output error) location)
    (hline : lastLine (runLine ⟨.accepted, some path.display⟩)) :
    Ending m left logs places
      (sink.printed m.times (events ++ (submit choice path).laterEvents m' (d, source))) lastLine
      (((submit choice path).conclude sink (d, source)).run.run m').1
      (((submit choice path).conclude sink (d, source)).run.run m').2 := by
  obtain ⟨old, hold, hatomic⟩ := Handoff.exists_atomic hfree d
  have hpersists := Program.persists_run (Handoff.submit path d) m'
  have hbefore : Disk.Continued logs m.disk old ∧ Disk.SameDirectories m.disk old := by
    rcases hold with rfl | rfl
    · exact ⟨hcontinued, hkeeps.persists.directories⟩
    · exact ⟨.refl _, .refl _⟩
  rw [laterEvents]
  rcases hsubmit : (Handoff.submit path d).run m' with ⟨e | result, after⟩
  · have hresult : ((Handoff.submit path d).run m').1 = .error e := congrArg Prod.fst hsubmit
    have herror := hatomic.error e hresult
    have haside := Handoff.confined_of_submit_error hfree hresult
    rw [hsubmit] at herror haside
    rw [run_conclude_submit_error sink choice source hsubmit]
    obtain ⟨hrecorded, hlast⟩ := (hkeeps.submit_error hsubmit).record (closing source d (.error e))
    refine .failed (by simp) hrecorded.output hrecorded.hasPrinted ?_
    by_cases hwork : (Handoff.submit path d).RemovalsWork m'
    · exact ((hbefore.1.trans (.of_look_eq (herror hwork))).trans hlast).off fun _ => .inr
    · exact ((hcontinued.off fun _ => .inr).trans (haside.mono (hstaging hwork _)).off).trans
        (hlast.off fun _ => .inr)
  · have hreplaced := hatomic.ok result (congrArg Prod.fst hsubmit)
    have haccepted := Handoff.eq_of_submit_ok (congrArg Prod.fst hsubmit)
    rw [hsubmit] at hreplaced hpersists
    rw [run_conclude_submit_ok sink choice source hsubmit]
    -- the log may be the staging file, which now stands at the path
    have hkept : sink.Keeps (fun location => logs location ∨ m.disk.Means m.directory path location)
        events m after := (hkeeps.mono fun _ => .inl).submit_ok (fun _ => .inr) hsubmit
    obtain ⟨hrecorded, hlast⟩ := hkept.record (closing source d (.ok result))
    have hdirectories : Disk.SameDirectories old after.disk :=
      hbefore.2.symm.trans (hkeeps.persists.directories.trans hpersists.directories)
    have hconfined : Disk.Confined (m.disk.Means m.directory path) old after.disk :=
      (hreplaced.confined hdirectories).mono fun location hmeans => by
        rwa [hkeeps.persists.directory, hbefore.2.means_iff] at hmeans
    rw [haccepted] at hrecorded hlast ⊢
    refine ending_endWith hrecorded hline (fun error => ?_) ?_
    · exact ((hbefore.1.off fun _ => .inr).trans (hconfined.mono (hhandoff error)).off).trans
        (hlast.off fun location hplace => hplace.symm.imp_left (hhandoff error location))
    · exact ((hbefore.1.confined.mono hlogs).trans (hconfined.mono hpath)).trans
        (hlast.confined.mono fun location hplace => hplace.elim (hlogs location) (hpath location))

/-! ### A whole command -/

open Invocation (LogPlace MayChange Leaves StagingFree openSink)

variable {auditLog : Option Path}

theorem removalsWork_submit {d : Descriptor} {source : Option Path}
    (h : ((submit choice path).perform sink).run.RemovalsWork m)
    (hverdict : verdict (loaded m choice) = .ok (d, source)) :
    (Handoff.submit path d).RemovalsWork
      ((sink.record (finding choice (loaded m choice))).run m).2 := by
  rw [perform_eq sink rfl, Program.bind_cases, ExceptT.run_mk, Program.removalsWork_bind_iff,
    run_check, hverdict] at h
  have hconclude := h.2
  dsimp only at hconclude
  rw [conclude, Program.bind_cases, ExceptT.run_mk, handOff_eq, Program.removalsWork_bind_iff,
    Program.removalsWork_bind_iff] at hconclude
  exact hconclude.1.1

/-- The ending of a command that works on a definition. -/
theorem ending_of_choice (hopen : (openSink auditLog).run m = (.ok sink, m'))
    (hchoice : command.choice? = some choice) (hfree : StagingFree m ⟨auditLog, command⟩) :
    Ending m (Leaves m ⟨auditLog, command⟩) (LogPlace m auditLog)
      (MayChange m ⟨auditLog, command⟩) (sink.printed m.times (command.events sink m'))
      (command.LastLine m') ((command.perform sink).run.run m').1
      ((command.perform sink).run.run m').2 := by
  have hopened := Invocation.opened_of_openSink hopen
  obtain ⟨hkeeps, hlast⟩ := hopened.keeps.record (finding choice (loaded m' choice))
  have hcontinued := hopened.continued.trans hlast
  have hlogs : ∀ location, LogPlace m auditLog location →
      MayChange m ⟨auditLog, command⟩ location := fun _ => .log
  rw [run_perform sink hchoice, events, hchoice]
  dsimp only
  rcases finding_cases m' choice with ⟨e, hverdict, _⟩ | ⟨source, d, hverdict, hfinding⟩
  · rw [hverdict]
    exact .failed (by simp) hkeeps.output hkeeps.hasPrinted (hcontinued.off fun _ => .inr)
  · rw [hverdict]
    cases command with
    | schema | sample | page => cases hchoice
    | validate other =>
      obtain rfl : other = choice := Option.some.inj hchoice
      exact ending_endWith hkeeps (.validate hfinding) (fun _ => hcontinued.off fun _ => .inr)
        (hcontinued.confined.mono hlogs)
    | normalize other =>
      obtain rfl : other = choice := Option.some.inj hchoice
      exact ending_endWith hkeeps (.normalize hfinding) (fun _ => hcontinued.off fun _ => .inr)
        (hcontinued.confined.mono hlogs)
    | submit other path =>
      obtain rfl : other = choice := Option.some.inj hchoice
      refine ending_submit hkeeps hcontinued hlogs (fun _ => .handoff) (fun staging hpath => ?_) d
        (some source) (fun hwork e location hplace => .staging ?_ ?_) (fun _ _ => .handoff) .submit
      · rw [hkeeps.persists.processId] at hpath
        exact (hopened.free staging (hfree other path staging rfl hpath)).record _
      · exact fun h =>
          hwork (removalsWork_submit (Invocation.removalsWork_perform hopen h) hverdict)
      · obtain ⟨staging, hpath, hmeans⟩ := hplace
        rw [hkeeps.persists.processId] at hpath
        rw [hkeeps.persists.directory, hkeeps.persists.directories.means_iff] at hmeans
        exact ⟨staging, hpath, hmeans⟩

/-- The ending of a command that works on no definition. -/
theorem ending_of_choice?_eq_none (hopen : (openSink auditLog).run m = (.ok sink, m'))
    (hchoice : command.choice? = none) :
    Ending m (Leaves m ⟨auditLog, command⟩) (LogPlace m auditLog)
      (MayChange m ⟨auditLog, command⟩) (sink.printed m.times (command.events sink m'))
      (command.LastLine m') ((command.perform sink).run.run m').1
      ((command.perform sink).run.run m').2 := by
  have hopened := Invocation.opened_of_openSink hopen
  have hkeeps := hopened.keeps
  have hleft : ∀ left, Disk.ContinuedOff left (LogPlace m auditLog) m.disk m'.disk :=
    fun _ => hopened.continued.off fun _ => .inr
  have hconfined : Disk.Confined (MayChange m ⟨auditLog, command⟩) m.disk m'.disk :=
    hopened.continued.confined.mono fun _ => .log
  have hevents : command.events sink m' = [] := by
    rw [events, hchoice]
  rw [hevents]
  cases command with
  | validate | normalize | submit => cases hchoice
  | schema => exact ending_endWith hkeeps .schema (fun _ => hleft _) hconfined
  | sample => exact ending_endWith hkeeps .sample (fun _ => hleft _) hconfined
  | page action =>
    cases action with
    | «show» => exact ending_endWith hkeeps .«show» (fun _ => hleft _) hconfined
    | check path =>
      rw [run_perform_check]
      cases (m'.read path).mapError .io >>= Reference.checkContents path with
      | error e => exact .failed (by simp) hkeeps.output hkeeps.hasPrinted (hleft _)
      | ok _ => exact ending_endWith hkeeps .check (fun _ => hleft _) hconfined
    | write path =>
      have hquiet := (silent_write sink path).quiet_run m'
      have hprinted := hkeeps.hasPrinted.of_quiet hquiet
      have hpage : Disk.Confined (m.disk.Leads m.directory path) m'.disk
          (((page (.write path)).perform sink).run.run m').2.disk :=
        (confined_write sink path m').mono fun location hleads => by
          rw [hkeeps.persists.directory] at hleads
          exact hopened.leads path location hleads
      rcases write_result sink path m' with hresult | ⟨e, hresult⟩
      · rw [hresult]
        exact .succeeded hprinted (hconfined.trans (hpage.mono fun _ => .page))
      · rw [hresult]
        refine .failed (by simp) (hquiet.output.trans hkeeps.output) hprinted ?_
        by_cases hwork : ∀ handle, ((page (.write path)).perform sink).run.WritesWork handle m'
        · rw [disk_of_write_error hresult hwork]
          exact hleft _
        · obtain ⟨handle, hfails⟩ := not_forall.1 hwork
          have hfails := mt (Invocation.writesWork_perform hopen) hfails
          exact (hleft _).trans (hpage.mono fun _ => .page hfails).off

end Command

/-! ### A whole invocation -/

namespace Invocation

variable {m m' : Machine} {invocation : Invocation} {sink : Sink} {auditLog : Option Path}
  {command : Command} {e : CommandError}

/-- The events that an invocation reports on the error stream: those of its command, if that is
where its audit log is kept. -/
def Reports (m : Machine) (invocation : Invocation) (events : List Event) : Prop :=
  if invocation.auditLog = some errorStream then
    Command.Trail m .errorStream invocation.command events
  else events = []

/-- What an invocation leaves on a machine when it fails. -/
structure Fails (m : Machine) (invocation : Invocation) (e : CommandError) (after : Machine) :
    Prop where
  reason : (invocation.body.run.run m).1 = .error e
  /-- The message is the last text on the error stream, after events. -/
  error : ∃ events, invocation.Reports m events ∧ after.error = m.error ++ Machine.taken
    m.errorFailures (Sink.errorStream.printed m.times events ++ [e.message ++ "\n"])
  silent : (∀ error, e ≠ .output error) → after.output = m.output
  /-- If the line of the command was not written, the output has a beginning of it. -/
  unwritten : ∀ error, e = .output error → ∃ failure line,
    m.printFailure? .output = some failure ∧ failure.error = error ∧
      invocation.command.LastLine ((openSink invocation.auditLog).run m).2 line ∧
      after.output = m.output ++ (Utf8.encode (line ++ "\n")).take failure.stored
  /-- Every place is as it was but those of the audit log, which is continued, and what is left. -/
  continued : Disk.ContinuedOff (invocation.Leaves m e) (LogPlace m invocation.auditLog) m.disk
    after.disk

/-- What an invocation leaves on a machine when it succeeds. -/
structure Succeeds (m : Machine) (invocation : Invocation) (after : Machine) : Prop where
  /-- There are only events on the error stream. -/
  error : ∃ events, invocation.Reports m events ∧ after.error = m.error ++ Machine.taken
    m.errorFailures (Sink.errorStream.printed m.times events)
  confined : Disk.Confined (invocation.MayChange m) m.disk after.disk
  /-- A file that stands elsewhere, such as the definition, is read as before. -/
  spared : ∀ path, (∀ location, m.disk.Means m.directory path location →
    ¬invocation.MayChange m location) → ∀ contents,
      after.disk.read m.directory path = .ok contents ↔
        m.disk.read m.directory path = .ok contents

/-- What an invocation leaves on a machine when it ends with an exit code. -/
inductive Effects (m : Machine) (invocation : Invocation) : ExitCode → Machine → Prop where
  | failure {e : CommandError} {after : Machine} (h : Fails m invocation e after) :
    Effects m invocation .failure after
  | success {after : Machine} (h : Succeeds m invocation after) :
    Effects m invocation .success after

/-- The ending of the command of an invocation, once its sink is open. -/
theorem ending_perform (hopen : (openSink auditLog).run m = (.ok sink, m'))
    (hfree : StagingFree m ⟨auditLog, command⟩) :
    Ending m (Leaves m ⟨auditLog, command⟩) (LogPlace m auditLog)
      (MayChange m ⟨auditLog, command⟩) (sink.printed m.times (command.events sink m'))
      (command.LastLine m') ((command.perform sink).run.run m').1
      ((command.perform sink).run.run m').2 := by
  cases hchoice : command.choice? with
  | none => exact Command.ending_of_choice?_eq_none hopen hchoice
  | some choice => exact Command.ending_of_choice hopen hchoice hfree

theorem reports_nil (h : invocation.auditLog ≠ some errorStream) : invocation.Reports m [] := by
  rw [Reports, if_neg h]

/-- What a sink prints is what the invocation reports. -/
theorem exists_reports (hopen : (openSink auditLog).run m = (.ok sink, m')) (command : Command) :
    ∃ events, Reports m ⟨auditLog, command⟩ events ∧
      sink.printed m.times (command.events sink m') = Sink.errorStream.printed m.times events := by
  have hopening := opening_openSink auditLog m
  rw [hopen] at hopening
  cases hopening with
  | none => exact ⟨[], reports_nil nofun, rfl⟩
  | errorStream =>
    refine ⟨command.events .errorStream m, ?_, rfl⟩
    rw [Reports, if_pos rfl]
    exact Command.trail_events _ _ _
  | file hlog _ => exact ⟨[], reports_nil fun heq => hlog (Option.some.inj heq), rfl⟩

/-- The ending of an invocation, before its error is printed. -/
theorem ending_body (hfree : invocation.StagingFree m) :
    ∃ events, invocation.Reports m events ∧
      Ending m (invocation.Leaves m) (LogPlace m invocation.auditLog) (invocation.MayChange m)
        (Sink.errorStream.printed m.times events)
        (invocation.command.LastLine ((openSink invocation.auditLog).run m).2)
        (invocation.body.run.run m).1 (invocation.body.run.run m).2 := by
  have hopening := opening_openSink invocation.auditLog m
  rw [run_body]
  rcases hopen : (openSink invocation.auditLog).run m with ⟨e | sink, m'⟩
  · rw [hopen] at hopening
    obtain ⟨auditLog, command⟩ := invocation
    cases hopening with
    | failed hlog =>
      refine ⟨[], reports_nil fun heq => hlog (Option.some.inj heq),
        .failed (by simp) rfl ⟨?_, rfl⟩ ((Disk.Continued.refl m.disk).off fun _ => .inr)⟩
      rw [Sink.printed_nil, Machine.taken_nil, List.append_nil]
      rfl
  · obtain ⟨events, hreports, hprinted⟩ := exists_reports hopen invocation.command
    have hending := ending_perform hopen hfree
    rw [hprinted] at hending
    exact ⟨events, hreports, hending⟩

/-- Where nothing else is seen to have changed, other files are read as before. -/
theorem read_of_confined {places : Location → Prop} {before after : Disk} {directory : Location}
    {path : Path} (h : Disk.Confined places before after)
    (hdirectories : Disk.SameDirectories before after)
    (hpath : ∀ location, before.Means directory path location → ¬places location)
    (contents : Bytes) :
    after.read directory path = .ok contents ↔ before.read directory path = .ok contents :=
  hdirectories.read_eq_ok_iff fun location hmeans => h location (hpath location hmeans)

/-- What an invocation leaves when no file is at its staging path. -/
theorem effects_run (hfree : invocation.StagingFree m) :
    Effects m invocation (invocation.run.run m).1 (invocation.run.run m).2 := by
  have hdirectories := (Program.persists_run invocation.run m).directories
  obtain ⟨events, hreports, hending⟩ := ending_body hfree
  rw [run_eq_body, Program.run_bind] at hdirectories ⊢
  rcases hbody : invocation.body.run.run m with ⟨result, after⟩
  have hreason := congrArg Prod.fst hbody
  rw [hbody] at hdirectories hending
  cases hending with
  | @failed e _ hother houtput hprinted hcontinued =>
    rw [run_finish_error]
    refine .failure ⟨hreason, ⟨events, hreports, hprinted.error_print _⟩, fun _ => ?_,
      fun error heq => absurd heq (hother error), ?_⟩
    · rw [Machine.print_error]
      exact houtput
    · rw [Machine.disk_print]
      exact hcontinued
  | @unwritten failure line _ hfailure hline houtput hprinted hcontinued =>
    rw [run_finish_error]
    refine .failure ⟨hreason, ⟨events, hreports, hprinted.error_print _⟩,
      fun hother => absurd rfl (hother _),
      fun error heq => ⟨failure, line, hfailure, CommandError.output.inj heq, hline, ?_⟩, ?_⟩
    · rw [Machine.print_error]
      exact houtput
    · rw [Machine.disk_print]
      exact hcontinued
  | succeeded hprinted hconfined =>
    exact .success ⟨⟨events, hreports, hprinted.error⟩, hconfined,
      fun _ => read_of_confined hconfined hdirectories⟩

theorem Effects.exists_fails {exit : ExitCode} {after : Machine}
    (h : Effects m invocation exit after) (hexit : exit = .failure) :
    ∃ e, Fails m invocation e after := by
  cases h with
  | failure h => exact ⟨_, h⟩
  | success => cases hexit

/-- Where nothing is planned to fail, a failure leaves nothing behind. -/
theorem Fails.continued_of_no_failures {after : Machine} (h : Fails m invocation e after)
    (hfailures : m.failures = []) (houtput : m.printFailure? .output = none) :
    Disk.Continued (LogPlace m invocation.auditLog) m.disk after.disk := by
  have hnothing : ∀ location, ¬invocation.Leaves m e location := by
    intro location hleaves
    cases hleaves with
    | page hfails =>
      exact hfails fun asked hasked _ =>
        Program.failure?_eq_none_of_mem_requests hfailures asked hasked
    | staging hfails =>
      exact hfails fun asked hasked _ =>
        Program.failure?_eq_none_of_mem_requests hfailures asked hasked
    | handoff =>
      obtain ⟨failure, _, hfailure, _⟩ := h.unwritten _ rfl
      cases houtput.symm.trans hfailure
  exact ⟨fun location => h.continued.grows location (hnothing location),
    h.continued.confined.mono fun location hplace => hplace.resolve_left (hnothing location)⟩

end Invocation

/-- What the program leaves when its arguments are used rightly and no file is at the staging path
of a hand-off. It succeeds or fails. A failure prints its message last on the error stream; it has
printed nothing on the output, unless that did not take the line of the command, and then a
beginning of this line. It has continued the audit log and is not seen to have changed anything
else, but for a page that was not written to its end, a staging file that was not taken away and a
hand-off whose line was not written. A success prints nothing but events on the error stream, and
nothing is seen to have changed but the audit log, the path of the hand-off and the file of the
page. -/
theorem effects_of_arguments {arguments : List Bytes} {invocation : Invocation} {m : Machine}
    (harguments : Invocation.ofArguments? arguments = some invocation)
    (hfree : invocation.StagingFree m) :
    invocation.Effects m ((runArguments arguments).run m).1 ((runArguments arguments).run m).2 := by
  rw [runArguments, harguments]
  exact Invocation.effects_run hfree

/-- A hand-off whose audit log is at its staging path. -/
def stagingLogArguments : List Bytes :=
  [ Utf8.encode "submit", Utf8.encode "--definition", Utf8.encode "job.json",
    Utf8.encode "--handoff=out.json", Utf8.encode "--audit-log", Utf8.encode ".out.json.tmp.7" ]

theorem effects_of_arguments_sample :
    let invocation : Invocation := ⟨some (.ofString ".out.json.tmp.7"), emptySubmit⟩
    Invocation.ofArguments? stagingLogArguments = some invocation ∧
      invocation.StagingFree emptyMachine ∧
      ((runArguments stagingLogArguments).run emptyMachine).1 = .failure ∧
      Disk.Continued (Invocation.LogPlace emptyMachine invocation.auditLog) emptyMachine.disk
        ((runArguments stagingLogArguments).run emptyMachine).2.disk := by
  intro invocation
  have harguments : Invocation.ofArguments? stagingLogArguments = some invocation := by
    decide +kernel
  have hfree : invocation.StagingFree emptyMachine := by
    intro choice path staging hcommand hstaging contents hread
    obtain ⟨_, rfl⟩ := Command.submit.inj (hcommand : emptySubmit = .submit choice path)
    obtain rfl : Path.ofString ".out.json.tmp.7" = staging := by
      rw [← Option.some.injEq, ← hstaging]
      decide
    have hmissing : emptyMachine.disk.read emptyMachine.directory
        (.ofString ".out.json.tmp.7") = .error .notFound := rfl
    rw [hmissing] at hread
    cases hread
  have hexit : ((runArguments stagingLogArguments).run emptyMachine).1 = .failure := by
    decide +kernel
  obtain ⟨e, hfails⟩ := (effects_of_arguments harguments hfree).exists_fails hexit
  exact ⟨harguments, hfree, hexit, hfails.continued_of_no_failures rfl rfl⟩

/-! ### Failures that leave something behind -/

namespace Command

/-- The command that writes the page to a file. -/
def writePage : Command := .page (.write (.ofString "page.md"))

/-- The command that hands a definition off that is in order. -/
def submitJob : Command := .submit jobChoice (.ofString "out.json")

/-- A machine with a page, whose disk is full and whose error stream is closed. -/
def fullDisk : Machine :=
  { Machine.start (Disk.empty.addFile [Utf8.encode "page.md"] (Utf8.encode "old")) [] [] 7 with
    failures := [none, some ⟨.other "No space left on device (os error 28)", 0⟩]
    errorFailures := [some ⟨.other "Broken pipe (os error 32)", 0⟩] }

/-- A machine whose output takes three bytes. -/
def shortOutput : Machine :=
  { Machine.start Disk.empty [] [] 7 with
    outputFailures := [some ⟨.other "No space left on device (os error 28)", 3⟩] }

/-- A machine whose disk is full and takes no file away. -/
def stuckDisk : Machine :=
  { jobMachine Projection.sample with
    failures := [none, some ⟨.other "No space left on device (os error 28)", 0⟩,
      some ⟨.other "Input/output error (os error 5)", 0⟩] }

variable {m : Machine} {choice : DefinitionChoice} {path : Path} {d : Descriptor}

/-- A command fails whose hand-off fails, and leaves the disk as the hand-off does. -/
theorem failure_of_submit_error {e : SubmitError} {source : Option Path}
    (hverdict : verdict (loaded m choice) = .ok (d, source))
    (he : ((Handoff.submit path d).run m).1 = .error e) :
    ((Invocation.run ⟨none, .submit choice path⟩).run m).1 = .failure ∧
      ((Invocation.run ⟨none, .submit choice path⟩).run m).2.disk =
        ((Handoff.submit path d).run m).2.disk := by
  have hchoice : (submit choice path).choice? = some choice := rfl
  rw [Invocation.run_none, run_perform_none hchoice, hverdict]
  dsimp only
  rw [run_conclude_submit_error .none choice source (Prod.ext he rfl), Invocation.disk_run_finish]
  exact ⟨rfl, rfl⟩

/-- A command fails whose line is not written, when the hand-off is over. -/
theorem failure_of_unwritten_submit {result : RunResult} {source : Option Path} {failure : Failure}
    (hverdict : verdict (loaded m choice) = .ok (d, source))
    (hok : ((Handoff.submit path d).run m).1 = .ok result)
    (hfailure : m.printFailure? .output = some failure) :
    ((Invocation.run ⟨none, .submit choice path⟩).run m).1 = .failure ∧
      ((Invocation.run ⟨none, .submit choice path⟩).run m).2.disk.read m.directory path =
        .ok (Handoff.payload d) := by
  have hchoice : (submit choice path).choice? = some choice := rfl
  have hfails := ((Handoff.silent_submit path d).quiet_run m).printFailure?_eq.trans hfailure
  have haccepted := Handoff.eq_of_submit_ok hok
  refine ⟨?_, read_of_submit_ok hverdict hok⟩
  rw [Invocation.run_none, run_perform_none hchoice, hverdict]
  dsimp only
  rw [run_conclude_submit_ok .none choice source (Prod.ext hok rfl), haccepted]
  exact ((writes_endWith _ _).unwritten failure hfails).1

theorem Writes.output_ne_nil {line : String} {exit : ExitCode} {after : Machine}
    (h : Writes shortOutput line exit after) : exit = .failure ∧ after.output ≠ [] := by
  obtain ⟨hexit, rfl⟩ := h.unwritten _ rfl
  have hline : Utf8.encode (line ++ "\n") ≠ [] := by
    rw [Utf8.encode, String.toList_append, List.flatMap_append]
    exact List.append_ne_nil_of_right_ne_nil _ (List.cons_ne_nil _ _)
  rw [Machine.print_error]
  exact ⟨hexit, fun hempty => hline ((List.take_eq_nil_iff.1 hempty).resolve_left (by decide))⟩

/-- What a failure may leave: a page without its contents and no message, a part of the line on the
output, a hand-off that is over, a staging file. -/
theorem failures_leave_traces :
    (((Invocation.run ⟨none, writePage⟩).run fullDisk).1 = .failure ∧
      ((Invocation.run ⟨none, writePage⟩).run fullDisk).2.error = [] ∧
      fullDisk.disk.read [] (.ofString "page.md") = .ok (Utf8.encode "old") ∧
      ((Invocation.run ⟨none, writePage⟩).run fullDisk).2.disk.read [] (.ofString "page.md") =
        .ok []) ∧
    (((Invocation.run ⟨none, schema⟩).run shortOutput).1 = .failure ∧
      ((Invocation.run ⟨none, schema⟩).run shortOutput).2.output ≠ []) ∧
    (((Invocation.run ⟨none, submitJob⟩).run (fullOutput (jobMachine Projection.sample))).1 =
        .failure ∧
      (fullOutput (jobMachine Projection.sample)).disk.read [] (.ofString "out.json") =
        .error .notFound ∧
      ((Invocation.run ⟨none, submitJob⟩).run
        (fullOutput (jobMachine Projection.sample))).2.disk.read [] (.ofString "out.json") =
          .ok (Handoff.payload Projection.sampleDescriptor)) ∧
    ((Invocation.run ⟨none, submitJob⟩).run stuckDisk).1 = .failure ∧
      stuckDisk.disk.read [] (.ofString ".out.json.tmp.7") = .error .notFound ∧
      ((Invocation.run ⟨none, submitJob⟩).run stuckDisk).2.disk.read []
        (.ofString ".out.json.tmp.7") = .ok [] := by
  have hverdict : ∀ m : Machine, m.read (.ofString "job.json") =
      .ok (Utf8.encode (Json.obj Projection.sample).canonical) →
      verdict (loaded m jobChoice) =
        .ok (Projection.sampleDescriptor, some (.ofString "job.json")) := by
    intro m hread
    rw [loaded_job hread (by decide) (by decide) (by decide) (by decide +kernel)]
    rfl
  refine ⟨⟨by decide +kernel, by decide +kernel, by decide +kernel, by decide +kernel⟩, ?_, ?_, ?_⟩
  · rw [Invocation.run_none]
    exact (writes_endWith shortOutput Definition.schema.toJson.indented).output_ne_nil
  · have hok : ((Handoff.submit (.ofString "out.json") Projection.sampleDescriptor).run
        (fullOutput (jobMachine Projection.sample))).1 = .ok ⟨.accepted, some "out.json"⟩ := rfl
    have hfound := hverdict (fullOutput (jobMachine Projection.sample)) (read_jobMachine _)
    have hfailure : (fullOutput (jobMachine Projection.sample)).printFailure? .output =
        some ⟨.other "No space left on device (os error 28)", 0⟩ := rfl
    have hdirectory : (fullOutput (jobMachine Projection.sample)).directory = [] := rfl
    rw [submitJob, ← hdirectory]
    obtain ⟨hexit, hread⟩ := failure_of_unwritten_submit hfound hok hfailure
    exact ⟨hexit, rfl, hread⟩
  · have herror : ((Handoff.submit (.ofString "out.json") Projection.sampleDescriptor).run
        stuckDisk).1 = .error (.io (.other "No space left on device (os error 28)")) := rfl
    have hread : ((Handoff.submit (.ofString "out.json") Projection.sampleDescriptor).run
        stuckDisk).2.disk.read [] (.ofString ".out.json.tmp.7") = .ok [] := rfl
    obtain ⟨hexit, hdisk⟩ :=
      failure_of_submit_error (hverdict stuckDisk (read_jobMachine _)) herror
    refine ⟨hexit, rfl, ?_⟩
    rw [submitJob, hdisk]
    exact hread

end Command

end TestJob
