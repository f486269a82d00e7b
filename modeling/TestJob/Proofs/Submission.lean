import Mathlib
import TestJob.Proofs.Handoff
import TestJob.Proofs.Running

/-!
When a hand-off succeeds, and what it does to the disk. It succeeds exactly when files can be at its
path and at its staging path and none of its four changes meets a planned failure
(`Handoff.submit_succeeds_iff`); then the new contents are those of the file that was opened at the
staging path, which now stands at the path (`Handoff.delivers_submit`). If it fails, no file has got
a name (`Handoff.ends_submit`).
-/

namespace TestJob.Handoff

open Program (Ends ends_failed)

/-! ### The requests of a hand-off -/

section Steps

variable {m : Machine} {made : Disk → Prop} {path staging : Path} {contents : Bytes} {object : Nat}

theorem ends_abandon (h : ∀ disk, ¬made disk) (e : IoError) :
    (abandon staging e).Ends made m := by
  refine Ends.ask (fun _ => Iff.rfl) ?_ (ends_failed h)
  rcases m.change_outcome (m.disk.remove m.directory staging) with
    ⟨_, disk, hremove, heq⟩ | ⟨e, heq, _⟩
  · have hdisk : (m.answer (.remove staging)).2.disk = disk := congrArg (·.2.disk) heq
    rw [hdisk]
    exact Disk.fewerNames_remove hremove
  · have hdisk : (m.answer (.remove staging)).2.disk = m.disk := congrArg (·.2.disk) heq
    rw [hdisk]
    exact .refl m.disk

theorem ends_fromRename :
    (fromRename staging path).Ends
      (fun disk => m.Undisturbed 1 ∧ m.disk.rename m.directory staging path = .ok disk) m := by
  have hone : m.Undisturbed 1 ↔ m.failure? = none := by
    rw [Machine.undisturbed_succ_iff, and_iff_left (Machine.undisturbed_zero _)]
  rcases m.change_outcome (m.disk.rename m.directory staging path) with
    ⟨hfailure, disk, hrename, heq⟩ | ⟨e, heq, hfails⟩
  · have hrun : (fromRename staging path).run m =
        (.ok ⟨.accepted, some path.display⟩, { m.advance with disk }) := by
      have hanswer : m.answer (.rename staging path) = (.ok (), { m.advance with disk }) := heq
      rw [fromRename, Program.run, hanswer]
      rfl
    refine ⟨fun _ _ => ?_, fun e he => ?_⟩
    · rw [hrun]
      exact ⟨hone.2 hfailure, hrename⟩
    · rw [hrun] at he
      cases he
  · have hanswer : m.answer (.rename staging path) = (.error e, m.advance) := heq
    refine Ends.ask (fun _ => Iff.rfl) ?_ ?_
    · rw [hanswer]
      exact .refl m.disk
    · rw [hanswer]
      exact ends_abandon (fun disk hdisk => hfails (hone.1 hdisk.1) disk hdisk.2) e

theorem ends_fromSync (handle : Handle) :
    (fromSync staging path handle).Ends
      (fun disk => m.Undisturbed 2 ∧ m.disk.rename m.directory staging path = .ok disk) m := by
  rcases m.change_outcome (.ok m.disk) with ⟨hfailure, disk, hdisk, heq⟩ | ⟨e, heq, hfails⟩
  · obtain rfl := Except.ok.inj hdisk
    have hanswer : m.answer (.sync handle) = (.ok (), m.advance) := heq
    refine Ends.ask (fun disk => ?_) ?_ (?_ : Program.Ends (fun disk => m.advance.Undisturbed 1 ∧
      m.disk.rename m.directory staging path = .ok disk) _ _)
    · rw [Machine.undisturbed_succ_iff, and_iff_right hfailure]
    · rw [hanswer]
      exact .refl m.disk
    · rw [hanswer]
      exact ends_fromRename
  · have hanswer : m.answer (.sync handle) = (.error e, m.advance) := heq
    refine Ends.ask (fun _ => Iff.rfl) ?_ ?_
    · rw [hanswer]
      exact .refl m.disk
    · rw [hanswer]
      exact ends_abandon (fun _ hdisk =>
        hfails (Machine.undisturbed_succ_iff.1 hdisk.1).1 _ rfl) e

/-- What is written into an empty file is its contents. -/
theorem ends_fromWrite {handle : Handle} (hopened : m.opened[handle.index]? = some ⟨object, some 0⟩)
    (hempty : m.disk.contents object = []) :
    (fromWrite staging path contents handle).Ends (fun disk => m.Undisturbed 3 ∧
      (m.disk.setContents object contents).rename m.directory staging path = .ok disk) m := by
  rcases Machine.write_empty_outcome hopened hempty contents with
    ⟨hfailure, after, heq, hdisk, hdirectory, hfailures⟩ | ⟨e, after, stored, hfailure, heq, hdisk⟩
  · have hanswer : m.answer (.write handle contents) = (.ok (), after) := heq
    refine Ends.ask (fun disk => ?_) ?_ (?_ : Program.Ends (fun disk =>
      after.Undisturbed 2 ∧ after.disk.rename after.directory staging path = .ok disk) _ _)
    · rw [Machine.undisturbed_succ_iff, and_iff_right hfailure, hdisk, hdirectory,
        Machine.undisturbed_congr hfailures]
    · rw [hanswer, hdisk]
      exact Disk.fewerNames_setContents m.disk object contents
    · rw [hanswer]
      exact ends_fromSync handle
  · have hanswer : m.answer (.write handle contents) = (.error e, after) := heq
    refine Ends.ask (fun _ => Iff.rfl) ?_ ?_
    · rw [hanswer, hdisk]
      exact Disk.fewerNames_setContents m.disk object stored
    · rw [hanswer]
      exact ends_abandon (fun _ hdisk =>
        hfailure (Machine.undisturbed_succ_iff.1 hdisk.1).1) e

/-- The disk after a file at one path has been made anew, with contents, and then renamed to
another. -/
def Renewed (disk : Disk) (directory : Location) (staging path : Path) (contents : Bytes)
    (after : Disk) : Prop :=
  ∃ opened, disk.openFile directory staging true = .ok opened ∧
    (opened.2.setContents opened.1 contents).rename directory staging path = .ok after

theorem ends_fromOpen :
    (fromOpen staging path contents).Ends (fun disk => m.Undisturbed 4 ∧
      Renewed m.disk m.directory staging path contents disk) m := by
  rcases m.openFile_truncate_outcome staging with
    ⟨hfailure, opened, handle, after, hopen, heq, hdisk, hdirectory, hfailures, hfile⟩ |
    ⟨e, heq, hfails⟩
  · have hanswer : m.answer (.openFile staging .truncate) = (.ok handle, after) := heq
    have hempty := Disk.contents_openFile_truncate hopen
    rw [← hdisk] at hempty
    refine Ends.ask (fun disk => ?_) ?_ (?_ : Program.Ends (fun disk => after.Undisturbed 3 ∧
      (after.disk.setContents opened.1 contents).rename after.directory staging path = .ok disk)
        _ _)
    · rw [Machine.undisturbed_succ_iff, and_iff_right hfailure, Renewed, hopen, hdisk, hdirectory,
        Machine.undisturbed_congr hfailures]
      simp only [Except.ok.injEq, exists_eq_left']
    · rw [hanswer, hdisk]
      exact Disk.fewerNames_openFile hopen
    · rw [hanswer]
      exact ends_fromWrite hfile hempty
  · have hanswer : m.answer (.openFile staging .truncate) = (.error e, m.advance) := heq
    refine Ends.ask (fun _ => Iff.rfl) ?_ ?_
    · rw [hanswer]
      exact .refl m.disk
    · rw [hanswer]
      refine ends_abandon (fun disk hdisk => ?_) e
      obtain ⟨hundisturbed, opened, hopen, _⟩ := hdisk
      exact hfails (Machine.undisturbed_succ_iff.1 hundisturbed).1 opened hopen

/-- A hand-off leaves the disk as it is told, or it fails. -/
theorem ends_submit (path : Path) (d : Descriptor) (m : Machine) :
    (submit path d).Ends (fun disk => m.disk.isDirectory m.directory path = false ∧
      ∃ staging, stagingPath? path m.processId = some staging ∧
        m.Undisturbed 4 ∧ Renewed m.disk m.directory staging path (payload d) disk) m := by
  rw [submit_eq]
  refine Ends.ask (fun _ => Iff.rfl) (.refl m.disk) ?_
  cases hanswer : m.disk.isDirectory m.directory path with
  | true =>
    have htrue : (m.answer (.isDirectory path)).1 = true := hanswer
    rw [htrue]
    exact ends_failed fun disk hdisk => absurd hdisk.1 nofun
  | false =>
    have hfalse : (m.answer (.isDirectory path)).1 = false := hanswer
    rw [hfalse]
    refine Ends.ask (fun _ => and_iff_right rfl) (.refl m.disk) ?_
    have hprocess : ((m.answer (.isDirectory path)).2.answer .processId).1 = m.processId := rfl
    rw [hprocess]
    cases hstaging : stagingPath? path m.processId with
    | none => exact ends_failed fun disk ⟨staging, hsome, _⟩ => absurd hsome nofun
    | some staging =>
      simp only [Option.some.injEq, exists_eq_left']
      exact ends_fromOpen

/-! ### The whole hand-off -/

variable {disk after : Disk} {directory : Location}

/-- The file that was made anew now stands at the path. -/
theorem Renewed.exists_object (h : Renewed disk directory staging path contents after) :
    ∃ opened, disk.openFile directory staging true = .ok opened ∧
      after.object? directory path = some opened.1 ∧ after.contents opened.1 = contents := by
  obtain ⟨opened, hopen, hrename⟩ := h
  have hstored := Disk.object?_openFile hopen
  have hstaging : (opened.2.setContents opened.1 contents).object? directory staging =
      some opened.1 := (Disk.keepsNames_setContents _ _ _).object?_eq_some hstored
  obtain ⟨moved, hmoved, hpath, hcontents⟩ := Disk.object?_rename hrename
  obtain rfl : opened.1 = moved := Option.some.inj (hstaging.symm.trans hmoved)
  refine ⟨opened, hopen, hpath, hcontents.trans ?_⟩
  rw [Disk.contents_setContents (Disk.lt_of_object? hstored), if_pos rfl]

theorem Renewed.read_eq (h : Renewed disk directory staging path contents after) :
    after.read directory path = .ok contents := by
  obtain ⟨opened, _, hobject, hcontents⟩ := h.exists_object
  exact (Disk.read_of_object? hobject).trans (congrArg Except.ok hcontents)

/-- No other file has got a name but at the path. -/
theorem Renewed.names (h : Renewed disk directory staging path contents after) :
    disk.objects.length ≤ after.objects.length ∧ Disk.SameDirectories disk after ∧
      ∀ object < disk.objects.length, ∀ location, after.entry? location = some (.file object) →
        disk.entry? location = some (.file object) ∨ disk.Means directory path location := by
  obtain ⟨opened, hopen, hrename⟩ := h
  have hfewer := (Disk.fewerNames_openFile hopen).trans
    (Disk.fewerNames_setContents opened.2 opened.1 contents)
  obtain ⟨hdirectories, hlength, hnames⟩ := Disk.entry?_of_rename hrename
  refine ⟨hfewer.stored.trans hlength.ge, hfewer.directories.trans hdirectories, ?_⟩
  intro object hobject location hentry
  rcases hnames object location hentry with hbefore | hmeans
  · exact .inl (hfewer.names object hobject location hbefore)
  · exact .inr (hfewer.directories.means_iff.1 hmeans)

/-- A file can be made anew and renamed where files can be at both paths. -/
theorem exists_renewed_iff :
    (∃ after, Renewed disk directory staging path contents after) ↔
      disk.CanHold directory staging ∧ disk.CanHold directory path := by
  constructor
  · rintro ⟨after, opened, hopen, hrename⟩
    refine ⟨Disk.exists_openFile_iff.1 ⟨opened, hopen⟩, ?_⟩
    have hfewer := (Disk.fewerNames_openFile hopen).trans
      (Disk.fewerNames_setContents opened.2 opened.1 contents)
    exact hfewer.directories.canHold_iff.1 (Disk.exists_rename_iff.1 ⟨after, hrename⟩).2
  · rintro ⟨hstaging, hpath⟩
    obtain ⟨opened, hopen⟩ : ∃ opened, disk.openFile directory staging true = .ok opened :=
      Disk.exists_openFile_iff.2 hstaging
    have hfewer := (Disk.fewerNames_openFile hopen).trans
      (Disk.fewerNames_setContents opened.2 opened.1 contents)
    have hobject := (Disk.keepsNames_setContents opened.2 opened.1 contents).object?_eq_some
      (Disk.object?_openFile hopen)
    obtain ⟨after, hrename⟩ := Disk.exists_rename_iff.2
      ⟨⟨opened.1, hobject⟩, hfewer.directories.canHold_iff.2 hpath⟩
    exact ⟨after, opened, hopen, hrename⟩

/-- A hand-off succeeds exactly when files can be at its path and at its staging path and none of
its changes meets a planned failure. -/
theorem submit_succeeds_iff (path : Path) (d : Descriptor) (m : Machine) :
    (∃ result, ((submit path d).run m).1 = .ok result) ↔
      ∃ staging, stagingPath? path m.processId = some staging ∧
        m.disk.CanHold m.directory staging ∧ m.disk.CanHold m.directory path ∧
        m.Undisturbed 4 := by
  rw [(ends_submit path d m).exists_ok_iff]
  constructor
  · rintro ⟨disk, _, staging, hstaging, hundisturbed, hrenewed⟩
    obtain ⟨hhold, hpath⟩ := exists_renewed_iff.1 ⟨disk, hrenewed⟩
    exact ⟨staging, hstaging, hhold, hpath, hundisturbed⟩
  · rintro ⟨staging, hstaging, hhold, hpath, hundisturbed⟩
    obtain ⟨disk, hrenewed⟩ := exists_renewed_iff.2 ⟨hhold, hpath⟩
    exact ⟨disk, hpath.isDirectory_eq_false, staging, hstaging, hundisturbed, hrenewed⟩

end Steps

/-- If what is left of a run succeeds, the path has the contents. -/
def Delivers {ε α : Type} (directory : Location) (path : Path) (contents : Bytes)
    (p : Program (Except ε α)) (m : Machine) : Prop :=
  ∀ value, (p.run m).1 = .ok value → (p.run m).2.disk.read directory path = .ok contents

/-- A hand-off that succeeds leaves the canonical text and the end of its line at the path. -/
theorem delivers_submit (path : Path) (d : Descriptor) (m : Machine) :
    Delivers m.directory path (payload d) (submit path d) m := by
  intro result hok
  obtain ⟨_, staging, _, _, hrenewed⟩ := (ends_submit path d m).ok result hok
  exact hrenewed.read_eq

/-! ### Silence -/

theorem silent_abandon (staging : Path) (e : IoError) : (abandon staging e).Silent :=
  ⟨rfl, fun _ => trivial⟩

theorem silent_fromRename (staging path : Path) : (fromRename staging path).Silent := by
  refine ⟨rfl, fun answer => ?_⟩
  cases answer with
  | error e => exact silent_abandon staging e
  | ok _ => trivial

theorem silent_fromSync (staging path : Path) (handle : Handle) :
    (fromSync staging path handle).Silent := by
  refine ⟨rfl, fun answer => ?_⟩
  cases answer with
  | error e => exact silent_abandon staging e
  | ok _ => exact silent_fromRename staging path

theorem silent_fromWrite (staging path : Path) (contents : Bytes) (handle : Handle) :
    (fromWrite staging path contents handle).Silent := by
  refine ⟨rfl, fun answer => ?_⟩
  cases answer with
  | error e => exact silent_abandon staging e
  | ok _ => exact silent_fromSync staging path handle

theorem silent_fromOpen (staging path : Path) (contents : Bytes) :
    (fromOpen staging path contents).Silent := by
  refine ⟨rfl, fun answer => ?_⟩
  cases answer with
  | error e => exact silent_abandon staging e
  | ok handle => exact silent_fromWrite staging path contents handle

/-- A hand-off prints nothing and does not look at the clock. -/
theorem silent_submit (path : Path) (d : Descriptor) : (submit path d).Silent := by
  rw [submit_eq]
  refine ⟨rfl, fun found => ?_⟩
  cases found with
  | true => trivial
  | false =>
    refine ⟨rfl, fun processId => ?_⟩
    dsimp only
    cases stagingPath? path processId with
    | none => trivial
    | some staging => exact silent_fromOpen staging path (payload d)

end TestJob.Handoff
