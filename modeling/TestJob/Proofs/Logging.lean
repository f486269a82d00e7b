import Mathlib
import TestJob.Audit
import TestJob.Proofs.Appending
import TestJob.Proofs.AuditLine
import TestJob.Proofs.Handoff
import TestJob.Reference.DefinitionPage

/-!
What the parts of a run do to a log that is open. `Program.Continues` says of a program that it
continues the object of the log by some bytes, as long as writes to the log succeed; it is put
together from the steps of the program (`Continues.bind`, `Continues.ask`). Recording an event adds
its line (`continues_record`); a hand-off and the writing of the page add nothing, as long as the
paths they change lead elsewhere (`Handoff.continues_submit`, `Reference.continues_writePage`).
-/

namespace TestJob

namespace Machine

/-- A log is open: its path leads to an object, and a handle continues that object. -/
structure Holds (m : Machine) (log : Path) (handle : Handle) (object : Nat) : Prop where
  opened : m.opened[handle.index]? = some ⟨object, none⟩
  named : m.disk.object? m.directory log = some object

/-- None of some paths leads to an object. -/
def Apart (m : Machine) (object : Nat) (paths : List Path) : Prop :=
  ∀ path ∈ paths, m.disk.object? m.directory path ≠ some object

variable {m m' : Machine} {log path : Path} {handle : Handle} {object : Nat} {bytes : Bytes}
  {paths : List Path}

theorem Holds.stored (h : m.Holds log handle object) : object < m.disk.objects.length :=
  Disk.lt_of_object? h.named

theorem Appends.holds (h : Appends object bytes m m') (hlog : m.Holds log handle object) :
    m'.Holds log handle object :=
  ⟨h.opened _ hlog.opened, h.object?_iff.2 hlog.named⟩

theorem Appends.apart (h : Appends object bytes m m') (hapart : m.Apart object paths) :
    m'.Apart object paths :=
  fun path hpath hobject => hapart path hpath (h.object?_iff.1 hobject)

/-- A log that is opened has what it had before, and nothing if it was not there. -/
theorem holds_openFile (h : (m.openFile log .append).1 = .ok handle) :
    ∃ object, (m.openFile log .append).2.Holds log handle object ∧
      (m.openFile log .append).2.disk.contents object =
        (m.disk.read m.directory log).toOption.getD [] := by
  rw [openFile.eq_def] at h ⊢
  cases hfailure : m.failure? with
  | some failure =>
    rw [hfailure] at h
    cases h
  | none =>
    have happend : decide (OpenMode.append = .truncate) = false := rfl
    rw [hfailure, happend] at h
    rw [happend]
    cases hopen : m.disk.openFile m.directory log false with
    | error e =>
      rw [hopen] at h
      cases h
    | ok opened =>
      rw [hopen] at h
      obtain rfl := Except.ok.inj h
      exact ⟨opened.1, ⟨List.getElem?_concat_length, Disk.object?_openFile hopen⟩,
        Disk.contents_openFile_append hopen⟩

/-- A file that is opened anew, where a path leads elsewhere, is another file. -/
theorem object_ne_of_openFile (hstored : object < m.disk.objects.length)
    (hother : m.disk.object? m.directory path ≠ some object)
    (h : (m.openFile path .truncate).1 = .ok handle) :
    ∀ file, (m.openFile path .truncate).2.opened[handle.index]? = some file →
      file.object ≠ object := by
  intro file hfile
  rcases openFile_cases m path with ⟨found, opened, hanswer, hopen, hopened⟩ | ⟨e, hanswer, _⟩
  · obtain rfl : handle = found := Except.ok.inj (h.symm.trans hanswer)
    rw [hopened] at hfile
    obtain rfl := Option.some.inj hfile
    exact (Disk.openFile_spares hopen hstored hother).1
  · rw [h] at hanswer
    cases hanswer

end Machine

namespace Program

variable {α β ε : Type} {handle : Handle} {object : Nat} {bytes more : Bytes} {m : Machine}

/-- A run continues an object by some bytes, if no write through a handle meets a failure. -/
def Continues (handle : Handle) (object : Nat) (bytes : Bytes) (p : Program α) (m : Machine) :
    Prop :=
  p.WritesWork handle m → Machine.Appends object bytes m (p.run m).2

theorem continues_pure (value : α) (m : Machine) :
    (pure value : Program α).Continues handle object [] m :=
  fun _ => .refl object m

theorem continues_request {request : Request} (hstored : object < m.disk.objects.length)
    (h : m.Spares object request) : (Program.request request).Continues handle object [] m :=
  fun _ => Machine.appends_answer hstored h

/-- What comes next may use that the log is as the first part leaves it. -/
theorem Continues.bind {p : Program α} {f : α → Program β}
    (hp : p.Continues handle object bytes m)
    (hf : Machine.Appends object bytes m (p.run m).2 →
      (f (p.run m).1).Continues handle object more (p.run m).2) :
    (p >>= f).Continues handle object (bytes ++ more) m := by
  intro hwork
  obtain ⟨hfirst, hrest⟩ := writesWork_bind_iff.1 hwork
  rw [run_bind]
  exact (hp hfirst).trans (hf (hp hfirst) hrest)

theorem Continues.ask {request : Request} {next : request.Answer → Program α}
    (hstored : object < m.disk.objects.length) (h : m.Spares object request)
    (hnext : Machine.Appends object [] m (m.answer request).2 →
      (next (m.answer request).1).Continues handle object bytes (m.answer request).2) :
    (Program.ask request next).Continues handle object bytes m :=
  (continues_request hstored h).bind (p := Program.request request) hnext

theorem Continues.orElseFail {δ : Type} {p : Program (Except δ α)} {f : δ → ε}
    (hp : p.Continues handle object bytes m) :
    (Program.orElseFail p f).run.Continues handle object bytes m := by
  rw [← List.append_nil bytes]
  exact hp.bind (f := fun result => .done (result.mapError f)) fun _ => continues_pure _ _

theorem Continues.adapt {δ : Type} {x : ExceptT δ Program α} {f : δ → ε}
    (hx : x.run.Continues handle object bytes m) :
    (x.adapt f).run.Continues handle object bytes m := by
  have hadapt : (x.adapt f).run = x.run >>= fun result => pure (result.mapError f) :=
    map_eq_pure_bind _ _
  rw [hadapt, ← List.append_nil bytes]
  exact hx.bind fun _ => continues_pure _ _

/-- A step that may fail, and one that follows if it does not and adds nothing. -/
theorem Continues.run_bind {x : ExceptT ε Program α} {f : α → ExceptT ε Program β}
    (hx : x.run.Continues handle object bytes m)
    (hf : ∀ value, (x.run.run m).1 = .ok value → Machine.Appends object bytes m (x.run.run m).2 →
      (f value).run.Continues handle object [] (x.run.run m).2) :
    (x >>= f).run.Continues handle object bytes m := by
  rw [bind_cases, ← List.append_nil bytes]
  refine hx.bind fun happends => ?_
  cases hvalue : (x.run.run m).1 with
  | error e => exact continues_pure _ _
  | ok value => exact hf value hvalue happends

end Program

open Program

variable {m : Machine} {log path staging : Path} {handle : Handle} {object : Nat}

theorem Program.continues_write (hlog : m.Holds log handle object) (bytes : Bytes) :
    (request (.write handle bytes)).Continues handle object bytes m := by
  intro hwork
  have hworks := hwork (m, .write handle bytes) List.mem_cons_self (decide_eq_true rfl)
  exact Machine.appends_write hlog.opened hlog.stored hworks bytes

/-- An event that is recorded is a line at the end of the log, with the time that the clock
gives. -/
theorem Audit.continues_record (hlog : m.Holds log handle object) (event : Event) :
    ((Sink.file handle).record event).Continues handle object
      (logged (dated m.times [event])) m := by
  refine Continues.ask hlog.stored trivial fun happends => ?_
  have hline : logged (dated m.times [event]) =
      Utf8.encode (event.line (m.times.headD 0) ++ "\n") ++ [] := by
    rw [dated, dated, logged, List.flatMap_singleton, List.append_nil]
    rfl
  rw [hline]
  exact (continues_write (happends.holds hlog) _).bind fun _ => continues_pure _ _

/-! ### The hand-off -/

namespace Handoff

theorem continues_abandon (hlog : m.Holds log handle object)
    (hapart : m.Apart object [path, staging]) (e : IoError) :
    (abandon staging e).Continues handle object [] m :=
  Continues.ask hlog.stored (hapart staging (by simp)) fun _ => continues_pure _ _

theorem continues_fromRename (hlog : m.Holds log handle object)
    (hapart : m.Apart object [path, staging]) :
    (fromRename staging path).Continues handle object [] m := by
  refine Continues.ask hlog.stored ⟨hapart staging (by simp), hapart path (by simp)⟩
    fun happends => ?_
  cases (m.answer (.rename staging path)).1 with
  | error e => exact continues_abandon (happends.holds hlog) (happends.apart hapart) e
  | ok _ => exact continues_pure _ _

theorem continues_fromSync (hlog : m.Holds log handle object)
    (hapart : m.Apart object [path, staging]) (staged : Handle) :
    (fromSync staging path staged).Continues handle object [] m := by
  refine Continues.ask hlog.stored trivial fun happends => ?_
  cases (m.answer (.sync staged)).1 with
  | error e => exact continues_abandon (happends.holds hlog) (happends.apart hapart) e
  | ok _ => exact continues_fromRename (happends.holds hlog) (happends.apart hapart)

theorem continues_fromWrite (hlog : m.Holds log handle object)
    (hapart : m.Apart object [path, staging]) (contents : Bytes) {staged : Handle}
    (hother : ∀ file, m.opened[staged.index]? = some file → file.object ≠ object) :
    (fromWrite staging path contents staged).Continues handle object [] m := by
  refine Continues.ask hlog.stored hother fun happends => ?_
  cases (m.answer (.write staged contents)).1 with
  | error e => exact continues_abandon (happends.holds hlog) (happends.apart hapart) e
  | ok _ => exact continues_fromSync (happends.holds hlog) (happends.apart hapart) staged

theorem continues_fromOpen (hlog : m.Holds log handle object)
    (hapart : m.Apart object [path, staging]) (contents : Bytes) :
    (fromOpen staging path contents).Continues handle object [] m := by
  refine Continues.ask hlog.stored (hapart staging (by simp)) fun happends => ?_
  cases hanswer : (m.answer (.openFile staging .truncate)).1 with
  | error e => exact continues_abandon (happends.holds hlog) (happends.apart hapart) e
  | ok staged =>
    refine continues_fromWrite (happends.holds hlog) (happends.apart hapart) contents ?_
    exact Machine.object_ne_of_openFile hlog.stored (hapart staging (by simp)) hanswer

/-- A hand-off leaves a log alone that is neither at its path nor its staging file. -/
theorem continues_submit (hlog : m.Holds log handle object) (d : Descriptor)
    (hapart : m.Apart object (path :: (stagingPath? path m.processId).toList)) :
    (submit path d).Continues handle object [] m := by
  rw [submit_eq]
  refine Continues.ask hlog.stored trivial fun _ => ?_
  cases hanswer : m.disk.isDirectory m.directory path with
  | true =>
    have htrue : (m.answer (.isDirectory path)).1 = true := hanswer
    rw [htrue]
    exact continues_pure _ _
  | false =>
    have hfalse : (m.answer (.isDirectory path)).1 = false := hanswer
    rw [hfalse]
    refine Continues.ask hlog.stored trivial fun _ => ?_
    have hprocess : ((m.answer (.isDirectory path)).2.answer .processId).1 = m.processId := rfl
    rw [hprocess]
    cases hstaging : stagingPath? path m.processId with
    | none => exact continues_pure _ _
    | some staging =>
      rw [hstaging] at hapart
      exact continues_fromOpen hlog hapart (payload d)

end Handoff

/-! ### The page -/

/-- Writing the page leaves a log alone that is not at its path. -/
theorem Reference.continues_writePage (hlog : m.Holds log handle object)
    (hapart : m.Apart object [path]) :
    (writePage (some path)).run.Continues handle object [] m := by
  have hpath := hapart path (by simp)
  have hopen : (request (.openFile path .truncate)).Continues handle object [] m :=
    continues_request hlog.stored hpath
  refine Continues.run_bind hopen.orElseFail fun opened hopened happends => ?_
  have hanswer : (m.openFile path .truncate).1 = .ok opened := mapError_eq_ok_iff.1 hopened
  have hother : (m.openFile path .truncate).2.Spares object
      (.write opened (Utf8.encode Reference.page)) :=
    Machine.object_ne_of_openFile hlog.stored hpath hanswer
  exact (continues_request (happends.holds hlog).stored hother).orElseFail

theorem Reference.continues_checkPage (hlog : m.Holds log handle object) (path : Path) :
    (checkPage (some path)).run.Continues handle object [] m := by
  have hread : (request (.read path)).Continues handle object [] m :=
    continues_request hlog.stored trivial
  exact Continues.run_bind hread.orElseFail fun _ _ _ => continues_pure _ _

end TestJob
