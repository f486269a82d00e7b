import Mathlib
import TestJob.Machine

/-!
What a request does to a machine. Whatever is planned to fail, a change of the disk either is made
or leaves the disk as it is, and a write stores a beginning of its bytes, all of them if it
succeeds. What a stream has taken of texts that were printed one after the other is
`Machine.taken`. `Program.requests` lists what a run asks.
-/

namespace TestJob

namespace Machine

variable {m : Machine}

/-! ### Changes -/

/-- A change is made if it meets no planned failure and can be made; else only the plan goes on. -/
theorem change_outcome (m : Machine) (result : Except IoError Disk) :
    (m.failure? = none ∧ ∃ disk, result = .ok disk ∧
      m.change result = (.ok (), { m.advance with disk })) ∨
      ∃ e, m.change result = (.error e, m.advance) ∧
        (m.failure? = none → ∀ disk, result ≠ .ok disk) := by
  rw [change.eq_def]
  cases m.failure? with
  | some failure => exact .inr ⟨_, rfl, nofun⟩
  | none =>
    cases result with
    | error e => exact .inr ⟨_, rfl, fun _ _ => nofun⟩
    | ok disk => exact .inl ⟨rfl, disk, rfl, rfl⟩

/-- A change is made, or it fails and the disk stays. -/
theorem change_cases (m : Machine) (result : Except IoError Disk) :
    ((m.change result).1 = .ok () ∧ result = .ok (m.change result).2.disk) ∨
      ∃ e, (m.change result).1 = .error e ∧ (m.change result).2.disk = m.disk := by
  rcases m.change_outcome result with ⟨_, disk, hdisk, heq⟩ | ⟨e, heq, _⟩ <;> rw [heq]
  · exact .inl ⟨rfl, hdisk⟩
  · exact .inr ⟨e, rfl, rfl⟩

/-- A change that meets no planned failure is made if it can be made. -/
theorem change_of_no_failure (h : m.failure? = none) (disk : Disk) :
    (m.change (.ok disk)).2.disk = disk := by
  rw [change.eq_def, h]

theorem directory_change (m : Machine) (result : Except IoError Disk) :
    (m.change result).2.directory = m.directory := by
  rcases m.change_outcome result with ⟨_, disk, _, heq⟩ | ⟨e, heq, _⟩ <;> rw [heq] <;> rfl

/-! ### Files -/

/-- A file is opened if no planned failure is met and the disk opens it; else only the plan goes
on. -/
theorem openFile_outcome (m : Machine) (path : Path) (mode : OpenMode) :
    (m.failure? = none ∧ ∃ opened,
      m.disk.openFile m.directory path (mode = .truncate) = .ok opened ∧
      m.openFile path mode = (.ok ⟨m.opened.length⟩,
        { m.advance with
          disk := opened.2
          opened := m.opened ++ [⟨opened.1, if mode = .truncate then some 0 else none⟩] })) ∨
      ∃ e, m.openFile path mode = (.error e, m.advance) ∧
        (m.failure? = none → ∀ opened,
          m.disk.openFile m.directory path (mode = .truncate) ≠ .ok opened) := by
  rw [openFile.eq_def]
  cases m.failure? with
  | some failure => exact .inr ⟨_, rfl, nofun⟩
  | none =>
    cases m.disk.openFile m.directory path (decide (mode = .truncate)) with
    | error e => exact .inr ⟨_, rfl, fun _ _ => nofun⟩
    | ok opened => exact .inl ⟨rfl, opened, rfl, rfl⟩

/-- A file to be written anew is opened as the disk opens it, and will be written from its
beginning; or it fails and the disk stays. -/
theorem openFile_cases (m : Machine) (path : Path) :
    (∃ handle object, (m.openFile path .truncate).1 = .ok handle ∧
      m.disk.openFile m.directory path true = .ok (object, (m.openFile path .truncate).2.disk) ∧
      (m.openFile path .truncate).2.opened[handle.index]? = some ⟨object, some 0⟩) ∨
      ∃ e, (m.openFile path .truncate).1 = .error e ∧
        (m.openFile path .truncate).2.disk = m.disk := by
  rcases m.openFile_outcome path .truncate with ⟨_, opened, hopen, heq⟩ | ⟨e, heq, _⟩ <;> rw [heq]
  · exact .inl ⟨_, opened.1, rfl, hopen, List.getElem?_concat_length⟩
  · exact .inr ⟨e, rfl, rfl⟩

/-- A file that is opened anew is written from its beginning. -/
theorem openFile_truncate_outcome (m : Machine) (path : Path) :
    (m.failure? = none ∧ ∃ opened handle after,
      m.disk.openFile m.directory path true = .ok opened ∧
      m.openFile path .truncate = (.ok handle, after) ∧
      after.disk = opened.2 ∧ after.directory = m.directory ∧
      after.failures = m.advance.failures ∧
      after.opened[handle.index]? = some ⟨opened.1, some 0⟩) ∨
      ∃ e, m.openFile path .truncate = (.error e, m.advance) ∧
        (m.failure? = none → ∀ opened, m.disk.openFile m.directory path true ≠ .ok opened) := by
  rcases m.openFile_outcome path .truncate with ⟨hfailure, opened, hopen, heq⟩ | ⟨e, heq, hfails⟩
  · exact .inl ⟨hfailure, opened, _, _, hopen, heq, rfl, rfl, rfl, List.getElem?_concat_length⟩
  · exact .inr ⟨e, heq, hfails⟩

/-- A file that has been opened to be continued is written at its end. -/
theorem openFile_append_eq_ok {m' : Machine} {path : Path} {handle : Handle}
    (h : m.openFile path .append = (.ok handle, m')) :
    ∃ opened, m.disk.openFile m.directory path false = .ok opened ∧ m'.disk = opened.2 ∧
      m'.opened[handle.index]? = some ⟨opened.1, none⟩ ∧ m'.failures = m.advance.failures := by
  rcases m.openFile_outcome path .append with ⟨_, opened, hopen, heq⟩ | ⟨e, heq, _⟩
  · cases h.symm.trans heq
    exact ⟨opened, hopen, rfl, List.getElem?_concat_length, rfl⟩
  · cases h.symm.trans heq

/-- Opening a file changes the disk, the open files and the plan of failures at most. -/
theorem openFile_eq (m : Machine) (path : Path) (mode : OpenMode) :
    ∃ disk opened, (m.openFile path mode).2 = { m.advance with disk, opened } := by
  rcases m.openFile_outcome path mode with ⟨_, opened, _, heq⟩ | ⟨e, heq, _⟩ <;> rw [heq] <;>
    exact ⟨_, _, rfl⟩

theorem directory_openFile (m : Machine) (path : Path) (mode : OpenMode) :
    (m.openFile path mode).2.directory = m.directory := by
  obtain ⟨disk, opened, h⟩ := openFile_eq m path mode
  rw [h]
  rfl

/-- A write stores its bytes, or the part of them that the failure it meets tells. -/
theorem write_outcome {handle : Handle} {file : OpenFile}
    (h : m.opened[handle.index]? = some file) (bytes : Bytes) :
    (m.failure? = none ∧ m.write handle bytes = (.ok (), m.advance.store handle file bytes)) ∨
      ∃ failure, m.failure? = some failure ∧ m.write handle bytes =
        (.error failure.error, m.advance.store handle file (bytes.take failure.stored)) := by
  rw [write, h]
  cases m.failure? with
  | some failure => exact .inr ⟨failure, rfl, rfl⟩
  | none => exact .inl ⟨rfl, rfl⟩

/-- A write through a file that is written from its beginning stores the bytes over what was there,
or a part of them if it fails. -/
theorem disk_write {handle : Handle} {object : Nat}
    (h : m.opened[handle.index]? = some ⟨object, some 0⟩) (bytes : Bytes) :
    ∃ stored, (m.write handle bytes).2.disk =
        m.disk.setContents object (Disk.overlay (m.disk.contents object) 0 stored) ∧
      ((m.write handle bytes).1 = .ok () → stored = bytes) := by
  rcases write_outcome h bytes with ⟨_, heq⟩ | ⟨failure, _, heq⟩ <;> rw [heq]
  · exact ⟨bytes, rfl, fun _ => rfl⟩
  · exact ⟨bytes.take failure.stored, rfl, nofun⟩

/-- What is written into an empty file is its contents, or a part of them if the write fails. -/
theorem write_empty_outcome {handle : Handle} {object : Nat}
    (h : m.opened[handle.index]? = some ⟨object, some 0⟩) (hempty : m.disk.contents object = [])
    (bytes : Bytes) :
    (m.failure? = none ∧ ∃ after, m.write handle bytes = (.ok (), after) ∧
      after.disk = m.disk.setContents object bytes ∧ after.directory = m.directory ∧
      after.failures = m.advance.failures) ∨
      ∃ e after stored, m.failure? ≠ none ∧ m.write handle bytes = (.error e, after) ∧
        after.disk = m.disk.setContents object stored := by
  have hoverlay : ∀ bytes, Disk.overlay (m.disk.contents object) 0 bytes = bytes := by
    intro bytes
    simp [Disk.overlay, hempty]
  have hstore : ∀ bytes, (m.advance.store handle ⟨object, some 0⟩ bytes).disk =
      m.disk.setContents object bytes :=
    fun bytes => congrArg (m.disk.setContents object) (hoverlay bytes)
  rcases write_outcome h bytes with ⟨hfailure, heq⟩ | ⟨failure, hfailure, heq⟩
  · exact .inl ⟨hfailure, _, heq, hstore bytes, rfl, rfl⟩
  · exact .inr ⟨_, _, _, by simp [hfailure], heq, hstore _⟩

/-- A write changes the disk, the open files and the plan of failures at most. -/
theorem write_eq (m : Machine) (handle : Handle) (bytes : Bytes) :
    ∃ disk opened, (m.write handle bytes).2 = { m.advance with disk, opened } := by
  have hstore : ∀ (file : OpenFile) (bytes : Bytes),
      ∃ disk opened, m.advance.store handle file bytes = { m.advance with disk, opened } := by
    intro file bytes
    rw [store]
    cases file.offset <;> exact ⟨_, _, rfl⟩
  cases hfile : m.opened[handle.index]? with
  | none =>
    rw [write, hfile]
    exact ⟨_, _, rfl⟩
  | some file =>
    rcases write_outcome hfile bytes with ⟨_, heq⟩ | ⟨failure, _, heq⟩
    · exact heq ▸ hstore file bytes
    · exact heq ▸ hstore file (bytes.take failure.stored)

theorem directory_write (m : Machine) (handle : Handle) (bytes : Bytes) :
    (m.write handle bytes).2.directory = m.directory := by
  obtain ⟨disk, opened, h⟩ := m.write_eq handle bytes
  rw [h]
  rfl

/-- A file is read if it stands at the path and the path can be read. -/
theorem read_eq_ok_iff {path : Path} {contents : Bytes} :
    m.read path = .ok contents ↔
      m.unreadable.lookup path = none ∧ m.disk.read m.directory path = .ok contents := by
  rw [read]
  cases m.unreadable.lookup path <;> simp

/-! ### Texts -/

/-- What a stream takes, with failures planned for it, of texts that are printed one after the
other: the whole of each, or the beginning that the failure tells. -/
def taken : List (Option Failure) → List String → Bytes
  | _, [] => []
  | plan, text :: rest =>
    (plan.head?.join.elim (Utf8.encode text) fun failure =>
      (Utf8.encode text).take failure.stored) ++ taken plan.tail rest

@[simp] theorem taken_nil (plan : List (Option Failure)) : taken plan [] = [] := rfl

theorem taken_append (plan : List (Option Failure)) (texts more : List String) :
    taken plan (texts ++ more) = taken plan texts ++ taken (plan.drop texts.length) more := by
  induction texts generalizing plan with
  | nil => rfl
  | cons text rest ih =>
    rw [List.cons_append, taken, taken, ih, List.append_assoc, List.length_cons, List.drop_tail]

/-- Where no failure is met, the texts are taken as they are. -/
theorem taken_eq_encode {plan : List (Option Failure)} {texts : List String}
    (h : ∀ failure ∈ plan.take texts.length, failure = none) :
    taken plan texts = texts.flatMap Utf8.encode := by
  induction texts generalizing plan with
  | nil => rfl
  | cons text rest ih =>
    cases plan with
    | nil =>
      rw [taken, List.flatMap_cons, ih (by simp)]
      rfl
    | cons failure plan =>
      rw [List.length_cons, List.take_succ_cons, List.forall_mem_cons] at h
      obtain ⟨rfl, hrest⟩ := h
      rw [taken, List.tail_cons, List.flatMap_cons, ih hrest]
      rfl

/-- The error stream takes a text as planned, whatever the program is told of that. -/
theorem print_error (m : Machine) (text : String) :
    (m.print .error text).2 = { m with
      error := m.error ++ taken m.errorFailures [text]
      errorFailures := m.errorFailures.tail } := by
  rw [print, printFailure?, taken, taken_nil, List.append_nil]
  cases m.errorFailures.head?.join <;> rfl

/-- The output takes a text, or a beginning of it if that fails. -/
theorem print_output (m : Machine) (text : String) :
    (m.print .output text).2 = { m with
      output := m.output ++ taken m.outputFailures [text]
      outputFailures := m.outputFailures.tail } := by
  rw [print, printFailure?, taken, taken_nil, List.append_nil]
  cases m.outputFailures.head?.join <;> rfl

theorem disk_print (m : Machine) (stream : OutputStream) (text : String) :
    (m.print stream text).2.disk = m.disk := by
  cases stream with
  | output => rw [print_output]
  | error => rw [print_error]

end Machine

/-- Whether a file is to be taken away. -/
def Request.removes : Request → Bool
  | remove _ => true
  | _ => false

/-- Whether bytes are to be written through a handle. -/
def Request.writesTo (handle : Handle) : Request → Bool
  | write through _ => through = handle
  | _ => false

/-- Whether files are to be changed, or got ready for it. -/
def Request.changesFiles : Request → Bool
  | openFile _ _ | write _ _ | sync _ | rename _ _ | remove _ => true
  | _ => false

namespace Program

variable {α : Type}

/-- What a run asks, with the machine that is asked. -/
def requests : Program α → Machine → List (Machine × Request)
  | done _, _ => []
  | ask request next, m =>
    (m, request) :: (next (m.answer request).1).requests (m.answer request).2

/-- No removal of a run meets a planned failure. -/
def RemovalsWork (p : Program α) (m : Machine) : Prop :=
  ∀ asked ∈ p.requests m, asked.2.removes = true → asked.1.failure? = none

instance (p : Program α) (m : Machine) : Decidable (p.RemovalsWork m) :=
  inferInstanceAs (Decidable (∀ asked ∈ p.requests m, _ → _))

theorem RemovalsWork.next {request : Request} {next : request.Answer → Program α} {m : Machine}
    (h : (ask request next).RemovalsWork m) :
    (next (m.answer request).1).RemovalsWork (m.answer request).2 :=
  fun asked hasked => h asked (List.mem_cons_of_mem _ hasked)

theorem RemovalsWork.failure?_eq_none {path : Path}
    {next : (Request.remove path).Answer → Program α} {m : Machine}
    (h : (ask (.remove path) next).RemovalsWork m) : m.failure? = none :=
  h _ List.mem_cons_self rfl

/-! ### Programs in a row -/

theorem requests_bind {β : Type} (p : Program α) (f : α → Program β) (m : Machine) :
    (p >>= f).requests m = p.requests m ++ (f (p.run m).1).requests (p.run m).2 := by
  induction p generalizing m with
  | done value => rfl
  | ask request next ih =>
    exact congrArg ((m, request) :: ·) (ih (m.answer request).1 (m.answer request).2)

theorem removalsWork_bind_iff {β : Type} {p : Program α} {f : α → Program β} {m : Machine} :
    (p >>= f).RemovalsWork m ↔
      p.RemovalsWork m ∧ (f (p.run m).1).RemovalsWork (p.run m).2 := by
  simp only [RemovalsWork, requests_bind, List.forall_mem_append]

/-- No write of a run through a handle meets a planned failure. -/
def WritesWork (handle : Handle) (p : Program α) (m : Machine) : Prop :=
  ∀ asked ∈ p.requests m, asked.2.writesTo handle = true → asked.1.failure? = none

instance (handle : Handle) (p : Program α) (m : Machine) : Decidable (p.WritesWork handle m) :=
  inferInstanceAs (Decidable (∀ asked ∈ p.requests m, _ → _))

theorem writesWork_bind_iff {β : Type} {handle : Handle} {p : Program α} {f : α → Program β}
    {m : Machine} :
    (p >>= f).WritesWork handle m ↔
      p.WritesWork handle m ∧ (f (p.run m).1).WritesWork handle (p.run m).2 := by
  simp only [WritesWork, requests_bind, List.forall_mem_append]

/-- A run that leaves all files alone at any time. -/
def SparesFiles (p : Program α) (m : Machine) : Prop :=
  ∀ asked ∈ p.requests m, asked.2.changesFiles = false

theorem sparesFiles_pure (value : α) (m : Machine) : (pure value : Program α).SparesFiles m :=
  fun _ h => by cases h

theorem sparesFiles_request {request : Request} (h : request.changesFiles = false) (m : Machine) :
    (Program.request request).SparesFiles m := by
  intro asked hasked
  rw [List.mem_singleton.1 hasked]
  exact h

theorem SparesFiles.bind {β : Type} {p : Program α} {f : α → Program β} {m : Machine}
    (hp : p.SparesFiles m) (hf : (f (p.run m).1).SparesFiles (p.run m).2) :
    (p >>= f).SparesFiles m := by
  rw [SparesFiles, requests_bind]
  exact List.forall_mem_append.2 ⟨hp, hf⟩

/-! ### Programs that may fail -/

section Failing

variable {ε β : Type} {x : ExceptT ε Program α} {f : α → ExceptT ε Program β} {m : Machine}

/-- A step that may fail, and one that follows if it does not. -/
theorem bind_cases (x : ExceptT ε Program α) (f : α → ExceptT ε Program β) :
    (x >>= f).run = x.run >>= fun
      | .error e => pure (.error e)
      | .ok value => (f value).run := by
  rw [ExceptT.run_bind]
  refine congrArg (x.run >>= ·) (funext fun result => ?_)
  cases result <;> rfl

/-- A step that leaves a machine as it is, and one that follows and leaves it too. -/
theorem run_run_bind {result : Except ε α} {next : α → Except ε β}
    (hx : x.run.run m = (result, m)) (hf : ∀ value, (f value).run.run m = (next value, m)) :
    (x >>= f).run.run m = (result >>= next, m) := by
  rw [bind_cases, run_bind, hx]
  cases result with
  | error e => rfl
  | ok value => exact hf value

theorem run_adapt {δ : Type} (x : ExceptT ε Program α) (f : ε → δ) (m : Machine) :
    (x.adapt f).run.run m = ((x.run.run m).1.mapError f, (x.run.run m).2) := by
  have hadapt : (x.adapt f).run = x.run >>= fun result => pure (result.mapError f) :=
    map_eq_pure_bind _ _
  rw [hadapt, run_bind, run_pure]

theorem sparesFiles_run_bind (hx : x.run.SparesFiles m)
    (hf : ∀ value m, (f value).run.SparesFiles m) : (x >>= f).run.SparesFiles m := by
  rw [bind_cases]
  refine hx.bind ?_
  cases (x.run.run m).1 with
  | error e => exact sparesFiles_pure _ _
  | ok value => exact hf value _

end Failing

end Program

end TestJob
