import Mathlib
import TestJob.Proofs.Directories
import TestJob.Proofs.Machine

/-!
What stays during any run. Whatever a program asks, the machine keeps its directory, its variables
and what can be read of it, its tree keeps its directories, and a file that is open to be continued
stays open (`Program.persists_run`); a program that neither prints nor looks at the clock leaves the
streams and the clock as they are (`Program.Silent.quiet_run`). The changes of the disk succeed or
fail with the plan of failures: `Machine.Undisturbed` tells that the next ones meet none.
-/

namespace TestJob

namespace Machine

variable {m m' : Machine}

/-! ### A later machine -/

/-- What a machine keeps, whatever it is asked. -/
structure Persists (m m' : Machine) : Prop where
  directory : m'.directory = m.directory
  environment : m'.environment = m.environment
  processId : m'.processId = m.processId
  unreadable : m'.unreadable = m.unreadable
  directories : Disk.SameDirectories m.disk m'.disk
  opened : ∀ (index object : Nat), m.opened[index]? = some ⟨object, none⟩ →
    m'.opened[index]? = some ⟨object, none⟩

namespace Persists

theorem refl (m : Machine) : Persists m m :=
  ⟨rfl, rfl, rfl, rfl, .refl m.disk, fun _ _ h => h⟩

theorem trans {m'' : Machine} (h : Persists m m') (h' : Persists m' m'') : Persists m m'' where
  directory := h'.directory.trans h.directory
  environment := h'.environment.trans h.environment
  processId := h'.processId.trans h.processId
  unreadable := h'.unreadable.trans h.unreadable
  directories := h.directories.trans h'.directories
  opened index object hindex := h'.opened index object (h.opened index object hindex)

end Persists

theorem persists_disk {disk : Disk} (h : Disk.SameDirectories m.disk disk) :
    Persists m { m.advance with disk } :=
  ⟨rfl, rfl, rfl, rfl, h, fun _ _ h => h⟩

theorem persists_change {result : Except IoError Disk}
    (h : ∀ disk, result = .ok disk → Disk.SameDirectories m.disk disk) :
    Persists m (m.change result).2 := by
  rcases change_outcome m result with ⟨_, disk, hresult, heq⟩ | ⟨e, heq, _⟩
  · rw [heq]
    exact persists_disk (h disk hresult)
  · rw [heq]
    exact persists_disk (.refl m.disk)

theorem persists_openFile (m : Machine) (path : Path) (mode : OpenMode) :
    Persists m (m.openFile path mode).2 := by
  rcases openFile_outcome m path mode with ⟨_, opened, hopen, heq⟩ | ⟨e, heq, _⟩
  · rw [heq]
    refine ⟨rfl, rfl, rfl, rfl, (Disk.fewerNames_openFile hopen).directories, ?_⟩
    intro index object hindex
    obtain ⟨hlt, _⟩ := List.getElem?_eq_some_iff.1 hindex
    exact (List.getElem?_append_left hlt).trans hindex
  · rw [heq]
    exact persists_disk (.refl m.disk)

theorem persists_store {handle : Handle} {file : OpenFile}
    (hfile : m.opened[handle.index]? = some file) (bytes : Bytes) :
    Persists m (m.store handle file bytes) := by
  rw [store]
  cases hoffset : file.offset with
  | none => exact ⟨rfl, rfl, rfl, rfl, .refl m.disk, fun _ _ h => h⟩
  | some offset =>
    refine ⟨rfl, rfl, rfl, rfl, .refl m.disk, fun index object hindex => ?_⟩
    -- only a file with an offset moves on
    have hne : handle.index ≠ index := by
      rintro rfl
      rw [hfile, Option.some.injEq] at hindex
      rw [hindex] at hoffset
      cases hoffset
    exact (List.getElem?_set_ne hne).trans hindex

theorem persists_write (m : Machine) (handle : Handle) (bytes : Bytes) :
    Persists m (m.write handle bytes).2 := by
  have hadvance : Persists m m.advance := persists_disk (.refl m.disk)
  cases hfile : m.opened[handle.index]? with
  | none =>
    rw [write, hfile]
    exact hadvance
  | some file =>
    have hstore := fun bytes => hadvance.trans (persists_store (m := m.advance) hfile bytes)
    rcases write_outcome hfile bytes with ⟨_, heq⟩ | ⟨failure, _, heq⟩
    · rw [heq]
      exact hstore bytes
    · rw [heq]
      exact hstore _

theorem persists_print (m : Machine) (stream : OutputStream) (text : String) :
    Persists m (m.print stream text).2 := by
  cases stream with
  | output => exact m.print_output text ▸ ⟨rfl, rfl, rfl, rfl, .refl m.disk, fun _ _ h => h⟩
  | error => exact m.print_error text ▸ ⟨rfl, rfl, rfl, rfl, .refl m.disk, fun _ _ h => h⟩

theorem persists_answer (m : Machine) (request : Request) :
    Persists m (m.answer request).2 := by
  cases request with
  | read path => exact .refl m
  | isDirectory path => exact .refl m
  | openFile path mode => exact persists_openFile m path mode
  | write handle contents => exact persists_write m handle contents
  | sync handle =>
    refine persists_change fun disk hdisk => ?_
    cases hdisk
    exact .refl m.disk
  | rename source target => exact persists_change fun _ hdisk => (Disk.entry?_of_rename hdisk).1
  | remove path => exact persists_change fun _ hdisk => (Disk.fewerNames_remove hdisk).directories
  | variableValue name => exact .refl m
  | environment => exact .refl m
  | print stream text => exact persists_print m stream text
  | processId => exact .refl m
  | clock => exact ⟨rfl, rfl, rfl, rfl, .refl m.disk, fun _ _ h => h⟩

/-! ### The plan of failures -/

/-- The next changes meet no planned failure, as many as are told. -/
def Undisturbed (m : Machine) (changes : Nat) : Prop :=
  ∀ failure ∈ m.failures.take changes, failure = none

theorem undisturbed_zero (m : Machine) : m.Undisturbed 0 := by simp [Undisturbed]

theorem undisturbed_succ_iff {changes : Nat} :
    m.Undisturbed (changes + 1) ↔ m.failure? = none ∧ m.advance.Undisturbed changes := by
  rw [Undisturbed, Undisturbed, failure?, advance]
  cases m.failures with
  | nil => simp
  | cons failure rest => simp

theorem undisturbed_congr (h : m'.failures = m.failures) {changes : Nat} :
    m'.Undisturbed changes ↔ m.Undisturbed changes := by
  rw [Undisturbed, h, Undisturbed]

/-- The machine without the next planned failures. -/
def skip (m : Machine) (changes : Nat) : Machine := { m with failures := m.failures.drop changes }

/-- Where no failure is planned there is none to leave out. -/
theorem skip_eq_self (h : m.failures = []) (changes : Nat) : m.skip changes = m := by
  rw [skip, h, List.drop_nil, ← h]

end Machine

/-- Each change of files, and nothing else, takes a planned failure off. -/
theorem Machine.failures_answer (m : Machine) (request : Request) :
    (m.answer request).2.failures =
      if request.changesFiles then m.failures.tail else m.failures := by
  have hchange : ∀ result : Except IoError Disk,
      (m.change result).2.failures = m.failures.tail := by
    intro result
    rcases change_outcome m result with ⟨_, disk, _, heq⟩ | ⟨e, heq, _⟩ <;> exact heq ▸ rfl
  cases request with
  | openFile path mode =>
    obtain ⟨disk, opened, heq⟩ := openFile_eq m path mode
    exact congrArg Machine.failures heq
  | write handle contents =>
    obtain ⟨disk, opened, heq⟩ := write_eq m handle contents
    exact congrArg Machine.failures heq
  | sync | rename | remove => exact hchange _
  | print stream text =>
    change (m.print stream text).2.failures = m.failures
    cases stream with
    | output => rw [print_output]
    | error => rw [print_error]
  | read | isDirectory | variableValue | environment | processId | clock => rfl

/-! ### Streams and clock -/

/-- Whether a request leaves the streams and the clock alone. -/
def Request.quiet : Request → Bool
  | print _ _ | clock => false
  | _ => true

/-- A machine later on, when nothing has been printed and nobody has looked at the clock. -/
structure Machine.Quiet (m m' : Machine) : Prop where
  times : m'.times = m.times
  output : m'.output = m.output
  outputFailures : m'.outputFailures = m.outputFailures
  error : m'.error = m.error
  errorFailures : m'.errorFailures = m.errorFailures

namespace Machine

theorem Quiet.refl (m : Machine) : m.Quiet m := ⟨rfl, rfl, rfl, rfl, rfl⟩

theorem Quiet.trans {m m' m'' : Machine} (h : m.Quiet m') (h' : m'.Quiet m'') : m.Quiet m'' where
  times := h'.times.trans h.times
  output := h'.output.trans h.output
  outputFailures := h'.outputFailures.trans h.outputFailures
  error := h'.error.trans h.error
  errorFailures := h'.errorFailures.trans h.errorFailures

theorem Quiet.printFailure?_eq {m m' : Machine} (h : m.Quiet m') :
    m'.printFailure? .output = m.printFailure? .output :=
  congrArg (·.head?.join) h.outputFailures

/-- A machine later on, when some texts have been printed on the error stream. -/
structure HasPrinted (m : Machine) (texts : List String) (m' : Machine) : Prop where
  error : m'.error = m.error ++ taken m.errorFailures texts
  errorFailures : m'.errorFailures = m.errorFailures.drop texts.length

theorem HasPrinted.of_quiet {m m' after : Machine} {texts : List String}
    (h : m.HasPrinted texts m') (hquiet : m'.Quiet after) : m.HasPrinted texts after :=
  ⟨hquiet.error.trans h.error, hquiet.errorFailures.trans h.errorFailures⟩

/-- One more text is printed after the others. -/
theorem HasPrinted.error_print {m m' : Machine} {texts : List String} (h : m.HasPrinted texts m')
    (text : String) :
    (m'.print .error text).2.error = m.error ++ taken m.errorFailures (texts ++ [text]) := by
  rw [print_error, h.error, h.errorFailures, taken_append, List.append_assoc]

theorem quiet_answer (m : Machine) {request : Request} (h : request.quiet = true) :
    m.Quiet (m.answer request).2 := by
  have hchange : ∀ result : Except IoError Disk, m.Quiet (m.change result).2 := by
    intro result
    rcases change_outcome m result with ⟨_, disk, _, heq⟩ | ⟨e, heq, _⟩ <;>
      exact heq ▸ ⟨rfl, rfl, rfl, rfl, rfl⟩
  cases request with
  | print | clock => cases h
  | openFile path mode =>
    obtain ⟨disk, opened, heq⟩ := openFile_eq m path mode
    have heq : (m.answer (.openFile path mode)).2 = { m.advance with disk, opened } := heq
    exact heq ▸ ⟨rfl, rfl, rfl, rfl, rfl⟩
  | write handle contents =>
    obtain ⟨disk, opened, heq⟩ := write_eq m handle contents
    have heq : (m.answer (.write handle contents)).2 = { m.advance with disk, opened } := heq
    exact heq ▸ ⟨rfl, rfl, rfl, rfl, rfl⟩
  | sync | rename | remove => exact hchange _
  | read | isDirectory | variableValue | environment | processId => exact .refl m

end Machine

namespace Program

variable {α β : Type} {m : Machine}

/-- Whatever is asked during a run, the machine keeps what it keeps. -/
theorem persists_run (p : Program α) (m : Machine) : m.Persists (p.run m).2 := by
  induction p generalizing m with
  | done value => exact .refl m
  | ask request next ih => exact (Machine.persists_answer m request).trans (ih _ _)

/-- Where no failure is planned, no request of a run meets one. -/
theorem failure?_eq_none_of_mem_requests {p : Program α} (h : m.failures = []) :
    ∀ asked ∈ p.requests m, asked.1.failure? = none := by
  induction p generalizing m with
  | done value => exact nofun
  | ask request next ih =>
    intro asked hasked
    rcases List.mem_cons.1 hasked with rfl | hasked
    · rw [Machine.failure?, h]
      rfl
    · refine ih (m.answer request).1 ?_ asked hasked
      rw [Machine.failures_answer, h]
      split_ifs <;> rfl

/-- A program that leaves the streams and the clock alone, whatever it is answered. -/
def Silent : Program α → Prop
  | done _ => True
  | ask request next => request.quiet = true ∧ ∀ answer, (next answer).Silent

theorem Silent.quiet_run {p : Program α} (h : p.Silent) (m : Machine) : m.Quiet (p.run m).2 := by
  induction p generalizing m with
  | done value => exact .refl m
  | ask request next ih =>
    obtain ⟨hrequest, hnext⟩ := h
    exact (m.quiet_answer hrequest).trans
      (ih _ (hnext (m.answer request).1) (m.answer request).2)

/-! ### The disk at the end -/

/-- What is left of a run succeeds where a disk can be made as it is told, and leaves this disk;
elsewhere it fails, and no file gets a name. -/
structure Ends {ε : Type} (made : Disk → Prop) (p : Program (Except ε α)) (m : Machine) :
    Prop where
  ok : ∀ value, (p.run m).1 = .ok value → made (p.run m).2.disk
  error : ∀ e, (p.run m).1 = .error e →
    (∀ disk, ¬made disk) ∧ Disk.FewerNames m.disk (p.run m).2.disk

section Ends

variable {ε : Type} {made made' : Disk → Prop}

theorem Ends.ask {request : Request} {next : request.Answer → Program (Except ε α)}
    (hmade : ∀ disk, made disk ↔ made' disk)
    (hnames : Disk.FewerNames m.disk (m.answer request).2.disk)
    (h : Ends made' (next (m.answer request).1) (m.answer request).2) :
    (ask request next).Ends made m where
  ok value hvalue := (hmade _).2 (h.ok value hvalue)
  error e he := ⟨fun disk hdisk => (h.error e he).1 disk ((hmade disk).1 hdisk),
    hnames.trans (h.error e he).2⟩

theorem ends_failed {e : ε} (h : ∀ disk, ¬made disk) :
    (done (.error e : Except ε α)).Ends made m :=
  ⟨fun _ hvalue => (by cases hvalue), fun _ _ => ⟨h, .refl m.disk⟩⟩

theorem ends_done {value : α} (h : made m.disk) :
    (done (.ok value : Except ε α)).Ends made m :=
  ⟨fun _ _ => h, fun _ he => (by cases he)⟩

/-- A run succeeds exactly where the disk can be made. -/
theorem Ends.exists_ok_iff {p : Program (Except ε α)} (h : Ends made p m) :
    (∃ value, (p.run m).1 = .ok value) ↔ ∃ disk, made disk := by
  constructor
  · rintro ⟨value, hvalue⟩
    exact ⟨_, h.ok value hvalue⟩
  · rintro ⟨disk, hdisk⟩
    cases hresult : (p.run m).1 with
    | ok value => exact ⟨value, rfl⟩
    | error e => exact absurd hdisk ((h.error e hresult).1 disk)

end Ends

end Program

end TestJob
