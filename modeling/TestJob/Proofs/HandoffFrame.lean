import Mathlib
import TestJob.Proofs.Recording
import TestJob.Proofs.Submission

/-!
A hand-off with an audit log open. The log may be made at the staging path, at the path of the
hand-off or elsewhere. The hand-off is atomic all the same, counted from the time before the log was
opened if the staging file is the log (`Handoff.exists_atomic`), and the sink keeps what it keeps
(`Audit.Sink.Keeps.submit_error`, `Audit.Sink.Keeps.submit_ok`).
-/

namespace TestJob

open Audit (Sink Event)

/-! ### The hand-off -/

namespace Handoff

variable {m : Machine} {before after : Disk} {path staging : Path} {sink : Sink}

/-- A hand-off is refused at once, or goes on with its staging file and is atomic if that is. -/
theorem exists_atomic_of_fromOpen {d : Descriptor}
    (hread : m.disk.read m.directory path = before.read m.directory path)
    (hopen : ∀ staging, stagingPath? path m.processId = some staging →
      Atomic before m.directory path (payload d) (fromOpen staging path (payload d)) m) :
    ∃ old, (old = m.disk ∨ old = before) ∧
      Atomic old m.directory path (payload d) (submit path d) m := by
  rw [submit_eq]
  cases hanswer : m.disk.isDirectory m.directory path with
  | true =>
    have htrue : (m.answer (.isDirectory path)).1 = true := hanswer
    refine ⟨m.disk, .inl rfl, Atomic.ask rfl ?_⟩
    rw [htrue]
    exact atomic_failed rfl fun _ => rfl
  | false =>
    have hfalse : (m.answer (.isDirectory path)).1 = false := hanswer
    have hprocess : ((m.answer (.isDirectory path)).2.answer .processId).1 = m.processId := rfl
    cases hstaging : stagingPath? path m.processId with
    | none =>
      refine ⟨m.disk, .inl rfl, Atomic.ask rfl ?_⟩
      rw [hfalse]
      refine Atomic.ask rfl ?_
      rw [hprocess, hstaging]
      exact atomic_failed rfl fun _ => rfl
    | some staging =>
      refine ⟨before, .inr rfl, Atomic.ask hread ?_⟩
      rw [hfalse]
      refine Atomic.ask hread ?_
      rw [hprocess, hstaging]
      exact hopen staging hstaging

/-- A hand-off is atomic, counted from now or from the time before the audit log was opened. -/
theorem exists_atomic (hfree : ∀ staging, stagingPath? path m.processId = some staging →
    sink.LeavesFree before m staging) (d : Descriptor) :
    ∃ old, (old = m.disk ∨ old = before) ∧
      Atomic old m.directory path (payload d) (submit path d) m := by
  by_cases hnone : ∀ staging, stagingPath? path m.processId = some staging →
      ∀ contents, m.disk.read m.directory staging ≠ .ok contents
  · obtain ⟨old, hold, hatomic⟩ := exists_atomic_of_fromOpen (m := m) (d := d) rfl
      fun staging hstaging => atomic_fromOpen hstaging (hnone staging hstaging) (payload d)
    exact ⟨old, .inl (hold.elim id id), hatomic⟩
  · simp only [not_forall] at hnone
    obtain ⟨staging, hstaging, contents, hread⟩ := hnone
    rcases hfree staging hstaging with hnone |
      ⟨_, location, object, stored, _, _, ⟨parent, other, hlocated, hlength, rfl⟩, hstaged⟩
    · exact absurd (hnone contents) hread
    · -- the staging file is the log, which was made since
      obtain ⟨b, hlocation⟩ := exists_beside hstaging hlocated hlength
      rw [← hlocation] at hstaged
      refine exists_atomic_of_fromOpen (b.read_eq hstaged.others hstaged.absent)
        fun found hfound => ?_
      obtain rfl := Option.some.inj (hstaging.symm.trans hfound)
      exact atomic_fromOpen_staged b rfl hstaged (payload d)

/-- A file that is replaced is seen where its path leads. -/
theorem Replaced.confined {directory : Location} {contents : Bytes}
    (h : Replaced before after directory path contents)
    (hdirectories : Disk.SameDirectories before after) :
    Disk.Confined (before.Means directory path) before after := by
  obtain ⟨hread, parent, name, hlocated, hothers⟩ := h
  obtain ⟨location, hmeans, _⟩ := Disk.read_eq_ok_iff.1 hread
  have hmeans := hdirectories.means_iff.1 hmeans
  obtain ⟨parent', name', hplace, hlength, _⟩ := hmeans
  cases hlocated.symm.trans hplace
  exact fun other hother => hothers other fun heq => hother ⟨parent, name, hlocated, hlength, heq⟩

/-! ### A hand-off that fails -/

/-- If what is left of a hand-off fails, nothing is seen to have changed but at one location. -/
def FailsAside (before : Disk) (location : Location)
    (p : Program (Except SubmitError RunResult)) (m : Machine) : Prop :=
  ∀ e, (p.run m).1 = .error e →
    ∀ other ≠ location, (p.run m).2.disk.look other = before.look other

section FailsAside

variable {directory : Location} {contents stored : Bytes} {object : Nat}
  (b : Beside before directory path staging)

theorem FailsAside.ask {location : Location} {request : Request}
    {next : request.Answer → Program (Except SubmitError RunResult)}
    (h : FailsAside before location (next (m.answer request).1) (m.answer request).2) :
    FailsAside before location (.ask request next) m := h

/-- Whether the staging file is taken away or stays, nothing else is seen to have changed. -/
theorem failsAside_abandon (hdirectory : m.directory = directory)
    (h : Disk.Staged before m.disk b.location object stored) (e : IoError) :
    FailsAside before b.location (abandon staging e) m := by
  subst hdirectory
  intro _ _ other hother
  change (m.change (m.disk.remove m.directory staging)).2.disk.look other = before.look other
  rcases Machine.change_cases m (m.disk.remove m.directory staging) with
    ⟨_, hremoved⟩ | ⟨_, _, hsame⟩
  · have hremove : m.disk.remove m.directory staging = .ok (m.disk.eraseEntry b.location) :=
      Disk.remove_eq_ok (h.keeps.locate b.staging_split b.located) b.length_le h.entry
    rw [← Except.ok.inj (hremove.symm.trans hremoved), h.look_eraseEntry]
  · rw [hsame, h.others other hother]

theorem failsAside_fromRename (hdirectory : m.directory = directory)
    (h : Disk.Staged before m.disk b.location object stored) :
    FailsAside before b.location (fromRename staging path) m := by
  subst hdirectory
  refine FailsAside.ask ?_
  have hafter := Machine.directory_change m (m.disk.rename m.directory staging path)
  rcases Machine.change_cases m (m.disk.rename m.directory staging path) with
    ⟨hanswer, _⟩ | ⟨e, hanswer, hsame⟩
  · have hok : (m.answer (.rename staging path)).1 = .ok () := hanswer
    rw [hok]
    exact fun _ he => by cases he
  · have herror : (m.answer (.rename staging path)).1 = .error e := hanswer
    rw [herror]
    exact failsAside_abandon b hafter (by rwa [← hsame] at h) e

theorem failsAside_fromSync (hdirectory : m.directory = directory)
    (h : Disk.Staged before m.disk b.location object stored) (handle : Handle) :
    FailsAside before b.location (fromSync staging path handle) m := by
  subst hdirectory
  refine FailsAside.ask ?_
  have hafter := Machine.directory_change m (.ok m.disk)
  rcases Machine.change_cases m (.ok m.disk) with ⟨hanswer, hsame⟩ | ⟨e, hanswer, hsame⟩
  · have hok : (m.answer (.sync handle)).1 = .ok () := hanswer
    rw [hok]
    exact failsAside_fromRename b hafter (by rwa [Except.ok.inj hsame] at h)
  · have herror : (m.answer (.sync handle)).1 = .error e := hanswer
    rw [herror]
    exact failsAside_abandon b hafter (by rwa [← hsame] at h) e

theorem failsAside_fromWrite (hdirectory : m.directory = directory)
    (h : Disk.Staged before m.disk b.location object []) {handle : Handle}
    (hopened : m.opened[handle.index]? = some ⟨object, some 0⟩) :
    FailsAside before b.location (fromWrite staging path contents handle) m := by
  subst hdirectory
  refine FailsAside.ask ?_
  have hafter := Machine.directory_write m handle contents
  obtain ⟨stored, hdisk, _⟩ := Machine.disk_write hopened contents
  have hstaged := h.setContents (Disk.overlay (m.disk.contents object) 0 stored)
  rw [← hdisk] at hstaged
  cases hanswer : (m.write handle contents).1 with
  | ok _ =>
    have hok : (m.answer (.write handle contents)).1 = .ok () := hanswer
    rw [hok]
    exact failsAside_fromSync b hafter hstaged handle
  | error e =>
    have herror : (m.answer (.write handle contents)).1 = .error e := hanswer
    rw [herror]
    exact failsAside_abandon b hafter hstaged e

/-- A staging file that has been made since, as the audit log, is opened anew. -/
theorem failsAside_fromOpen_staged (hdirectory : m.directory = directory)
    (h : Disk.Staged before m.disk b.location object stored) :
    FailsAside before b.location (fromOpen staging path contents) m := by
  subst hdirectory
  refine FailsAside.ask ?_
  have hafter := Machine.directory_openFile m staging .truncate
  rcases Machine.openFile_cases m staging with
    ⟨handle, opened, hanswer, hopen, hopened⟩ | ⟨e, hanswer, hsame⟩
  · have hok : (m.answer (.openFile staging .truncate)).1 = .ok handle := hanswer
    rw [hok]
    have hlocated := h.keeps.locate b.staging_split b.located
    exact failsAside_fromWrite b hafter (h.openFile hlocated rfl hopen) hopened
  · have herror : (m.answer (.openFile staging .truncate)).1 = .error e := hanswer
    rw [herror]
    exact failsAside_abandon b hafter (by rwa [← hsame] at h) e

end FailsAside

/-- Where the staging file of a hand-off stands. -/
def StagingPlace (m : Machine) (path : Path) (location : Location) : Prop :=
  ∃ staging, stagingPath? path m.processId = some staging ∧
    m.disk.Means m.directory staging location

theorem confined_of_fromOpen_error {processId : Nat} {contents : Bytes} {e : SubmitError}
    (hstaging : stagingPath? path processId = some staging)
    (hfree : sink.LeavesFree before m staging)
    (he : ((fromOpen staging path contents).run m).1 = .error e) :
    Disk.Confined (m.disk.Means m.directory staging) m.disk
      ((fromOpen staging path contents).run m).2.disk := by
  rcases hfree with hnone |
    ⟨_, location, object, stored, _, _, ⟨parent, other, hlocated, hlength, rfl⟩, hstaged⟩
  · rw [fromOpen, Program.run] at he ⊢
    have hafter := Machine.directory_openFile m staging .truncate
    rcases Machine.openFile_cases m staging with
      ⟨handle, object, hanswer, hopen, hopened⟩ | ⟨reason, hanswer, hsame⟩
    · have hok : (m.answer (.openFile staging .truncate)).1 = .ok handle := hanswer
      rw [hok] at he ⊢
      obtain ⟨parent, other, hlocated, hlength, hstaged⟩ := Disk.openFile_eq_ok hnone hopen
      obtain ⟨b, hlocation⟩ := exists_beside hstaging hlocated hlength
      rw [← hlocation] at hstaged
      refine fun place hplace => failsAside_fromWrite b hafter hstaged hopened e he place ?_
      rintro rfl
      exact hplace ⟨parent, other, hlocated, hlength, hlocation⟩
    · have herror : (m.answer (.openFile staging .truncate)).1 = .error reason := hanswer
      have hdisk : (m.answer (.openFile staging .truncate)).2.disk = m.disk := hsame
      have hgone : ∀ contents, (m.openFile staging .truncate).2.disk.read
          (m.openFile staging .truncate).2.directory staging ≠ .ok contents := by
        rwa [hsame, hafter]
      rw [herror]
      refine fun place _ => congrArg (Disk.look · place) (?_ : _ = m.disk)
      exact (disk_abandon_of_unread hgone reason).trans hdisk
  · obtain ⟨b, hlocation⟩ := exists_beside hstaging hlocated hlength
    rw [← hlocation] at hstaged
    intro place hplace
    have hother : place ≠ b.location := by
      rintro rfl
      exact hplace
        (hstaged.sameDirectories.means_iff.2 ⟨parent, other, hlocated, hlength, hlocation⟩)
    rw [hstaged.others place hother]
    exact failsAside_fromOpen_staged b rfl hstaged e he place hother

/-- A hand-off that fails is not seen to have changed anything but its staging file. -/
theorem confined_of_submit_error {d : Descriptor} {e : SubmitError}
    (hfree : ∀ staging, stagingPath? path m.processId = some staging →
      sink.LeavesFree before m staging)
    (he : ((submit path d).run m).1 = .error e) :
    Disk.Confined (StagingPlace m path) m.disk ((submit path d).run m).2.disk := by
  rw [submit_eq, Program.run] at he ⊢
  cases hanswer : m.disk.isDirectory m.directory path with
  | true =>
    have htrue : (m.answer (.isDirectory path)).1 = true := hanswer
    rw [htrue]
    exact fun _ _ => rfl
  | false =>
    have hfalse : (m.answer (.isDirectory path)).1 = false := hanswer
    have hprocess : ((m.answer (.isDirectory path)).2.answer .processId).1 = m.processId := rfl
    rw [hfalse, Program.run, hprocess] at he ⊢
    cases hstaging : stagingPath? path m.processId with
    | none => exact fun _ _ => rfl
    | some staging =>
      rw [hstaging] at he
      exact (confined_of_fromOpen_error hstaging (hfree staging hstaging) he).mono
        fun location hmeans => ⟨staging, hstaging, hmeans⟩

end Handoff

/-! ### The sink -/

namespace Audit.Sink

variable {m m' after : Machine} {places : Location → Prop} {sink : Sink} {events : List Event}
  {path : Path} {d : Descriptor}

/-- A hand-off that fails gives no other name to the file of a sink. -/
theorem Keeps.submit_error {e : SubmitError} (h : sink.Keeps places events m m')
    (hsubmit : (Handoff.submit path d).run m' = (.error e, after)) :
    sink.Keeps places events m after := by
  have hpersists := Program.persists_run (Handoff.submit path d) m'
  have hquiet := (Handoff.silent_submit path d).quiet_run m'
  have hends := (Handoff.ends_submit path d m').error e
  rw [hsubmit] at hpersists hquiet hends
  obtain ⟨_, hnames⟩ := hends rfl
  refine h.of_quiet hquiet hpersists fun handle hhandle => ?_
  obtain ⟨object, hstored, hopened, hplaces⟩ := h.names handle hhandle
  exact ⟨object, Nat.lt_of_lt_of_le hstored hnames.stored, hpersists.opened _ _ hopened,
    fun location hentry => hplaces location (hnames.names object hstored location hentry)⟩

/-- A hand-off that succeeds may put the file of a sink at its path. -/
theorem Keeps.submit_ok {result : RunResult} (h : sink.Keeps places events m m')
    (hmeans : ∀ location, m.disk.Means m.directory path location → places location)
    (hsubmit : (Handoff.submit path d).run m' = (.ok result, after)) :
    sink.Keeps places events m after := by
  have hpersists := Program.persists_run (Handoff.submit path d) m'
  have hquiet := (Handoff.silent_submit path d).quiet_run m'
  have hends := (Handoff.ends_submit path d m').ok result
  rw [hsubmit] at hpersists hquiet hends
  obtain ⟨_, _, _, _, hrenewed⟩ := hends rfl
  obtain ⟨hlength, _, hnames⟩ := hrenewed.names
  refine h.of_quiet hquiet hpersists fun handle hhandle => ?_
  obtain ⟨object, hstored, hopened, hplaces⟩ := h.names handle hhandle
  refine ⟨object, Nat.lt_of_lt_of_le hstored hlength, hpersists.opened _ _ hopened,
    fun location hentry => ?_⟩
  rcases hnames object hstored location hentry with hbefore | hpath
  · exact hplaces location hbefore
  · rw [h.persists.directory, h.persists.directories.means_iff] at hpath
    exact hmeans location hpath

end Audit.Sink

end TestJob
