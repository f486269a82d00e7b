import Mathlib
import TestJob.Proofs.Directories
import TestJob.Proofs.Machine

/-!
Changes of the files at some places. On a disk where no file has two names (`Disk.Unlinked`), what
is done through one path is done to the file at one location, so that everything else keeps its
entry and its contents (`Disk.Touches`): a path that means none of the places leads to the same file
as before, and the file has what it had. No request gives a file a second name, so there are no
links after a run if there were none before (`Program.unlinked_run`).
-/

namespace TestJob

namespace Disk

variable {disk before after : Disk} {directory location : Location} {path source target : Path}
  {object : Nat} {contents : Bytes} {places : Location → Prop}

/-- No file has two names. -/
def Unlinked (disk : Disk) : Prop :=
  ∀ object location other, disk.entry? location = some (.file object) →
    disk.entry? other = some (.file object) → location = other

/-- Nothing but the files at some places has changed, and still no file has two names. -/
structure Touches (places : Location → Prop) (before after : Disk) : Prop where
  directories : SameDirectories before after
  unlinked : after.Unlinked
  entries : ∀ location, ¬places location → after.entry? location = before.entry? location
  contents : ∀ location object, ¬places location → before.entry? location = some (.file object) →
    after.contents object = before.contents object

theorem touches_refl (h : disk.Unlinked) : Touches places disk disk :=
  ⟨.refl disk, h, fun _ _ => rfl, fun _ _ _ _ => rfl⟩

namespace Touches

variable (h : Touches places before after)

include h

theorem mono {more : Location → Prop} (hmore : ∀ location, places location → more location) :
    Touches more before after where
  directories := h.directories
  unlinked := h.unlinked
  entries location hlocation := h.entries location fun hplace => hlocation (hmore _ hplace)
  contents location object hlocation :=
    h.contents location object fun hplace => hlocation (hmore _ hplace)

theorem look_eq (hlocation : ¬places location) : after.look location = before.look location :=
  look_congr (h.entries location hlocation) fun object => h.contents location object hlocation

variable (hpath : ∀ location, before.Means directory path location → ¬places location)

include hpath

theorem read_eq_ok_iff :
    after.read directory path = .ok contents ↔ before.read directory path = .ok contents :=
  h.directories.read_eq_ok_iff fun _ hmeans => h.look_eq (hpath _ hmeans)

/-- A path to another place leads to the same file, which has what it had. -/
theorem object?_eq_some (hobject : before.object? directory path = some object) :
    after.object? directory path = some object ∧
      after.contents object = before.contents object := by
  obtain ⟨location, hmeans, hentry⟩ := object?_eq_some_iff_means.1 hobject
  refine ⟨object?_eq_some_iff_means.2 ⟨location, h.directories.means_iff.2 hmeans, ?_⟩,
    h.contents location object (hpath location hmeans) hentry⟩
  rw [h.entries location (hpath location hmeans), hentry]

end Touches

/-! ### Requests -/

theorem unlinked_empty : empty.Unlinked := by
  intro object location other h
  rw [Disk.entry?] at h
  split_ifs at h
  · cases h
  · cases h

/-- A new file has the only name of a new object. -/
theorem Unlinked.addFile (h : disk.Unlinked) (hlocation : location ≠ []) (contents : Bytes) :
    (disk.addFile location contents).Unlinked := by
  have hadded := entry?_addFile disk hlocation contents
  intro object first second hfirst hsecond
  rw [hadded] at hfirst hsecond
  split_ifs at hfirst hsecond with hf hs hs
  · exact hf.trans hs.symm
  · cases hfirst
    exact absurd (object_lt hsecond) (Nat.lt_irrefl _)
  · cases hsecond
    exact absurd (object_lt hfirst) (Nat.lt_irrefl _)
  · exact h object first second hfirst hsecond

/-- Other contents in a file are seen where a path leads to it. -/
theorem touches_setContents (h : disk.Unlinked)
    (hobject : disk.object? directory path = some object) (contents : Bytes) :
    Touches (disk.Means directory path) disk (disk.setContents object contents) := by
  obtain ⟨place, hmeans, hentry⟩ := object?_eq_some_iff_means.1 hobject
  refine ⟨.refl disk, h, fun _ _ => rfl, fun location other hlocation hother => ?_⟩
  refine contents_setContents_of_ne ?_ contents
  rintro rfl
  exact hlocation (h object location place hother hentry ▸ hmeans)

theorem touches_openFile {truncate : Bool} {opened : Nat × Disk} (h : disk.Unlinked)
    (hopen : disk.openFile directory path truncate = .ok opened) :
    Touches (disk.Means directory path) disk opened.2 := by
  have hdirectories := (fewerNames_openFile hopen).directories
  obtain ⟨parent, name, hplace, hlong, ⟨hentry, rfl⟩ | ⟨object, hentry, rfl⟩⟩ :=
    openFile_eq_ok_cases hopen
  · have hmeans : disk.Means directory path (name :: parent) := ⟨parent, name, hplace, hlong, rfl⟩
    have hroot := List.cons_ne_nil name parent
    refine ⟨hdirectories, h.addFile hroot [], ?_, ?_⟩
    · intro location hlocation
      rw [entry?_addFile disk hroot, if_neg]
      rintro rfl
      exact hlocation hmeans
    · exact fun location object _ hobject => contents_allocate_of_lt (object_lt hobject) []
  · cases truncate with
    | true =>
      have hobject := object?_eq_some_iff.2 ⟨parent, name, hplace, hlong, hentry⟩
      exact touches_setContents h hobject []
    | false => exact touches_refl h

theorem touches_remove (h : disk.Unlinked) (hremove : disk.remove directory path = .ok after) :
    Touches (disk.Means directory path) disk after := by
  have hdirectories := (fewerNames_remove hremove).directories
  rw [remove, bind_eq_ok_iff] at hremove
  obtain ⟨place, hplace, hremove⟩ := hremove
  obtain ⟨⟨location, entry⟩, hexisting, hremove⟩ := bind_eq_ok_iff.1 hremove
  cases entry with
  | directory => cases hremove
  | file found =>
    obtain rfl := Except.ok.inj hremove
    obtain ⟨parent, name, rfl, hlong, rfl, hentry⟩ := existing_eq_ok_file_iff.1 hexisting
    have herased : ∀ other, Disk.entry? (disk.eraseEntry (name :: parent)) other =
        if other = name :: parent then none else disk.entry? other :=
      fun other => entry?_eraseEntry (List.cons_ne_nil name parent) other
    refine ⟨hdirectories, fun object location other hlocation hother => ?_, ?_, fun _ _ _ _ => rfl⟩
    · rw [herased] at hlocation hother
      split_ifs at hlocation hother
      exact h object location other hlocation hother
    · intro location hlocation
      rw [herased, if_neg]
      rintro rfl
      exact hlocation ⟨parent, name, hplace, hlong, rfl⟩

/-- A file that is renamed is touched where it was and where it comes to stand. -/
theorem touches_rename (h : disk.Unlinked)
    (hrename : disk.rename directory source target = .ok after) :
    Touches (fun location => disk.Means directory source location ∨
      disk.Means directory target location) disk after := by
  have hdirectories := (entry?_of_rename hrename).1
  obtain ⟨sourceParent, sourceName, targetParent, targetName, moved, hsource, htarget, hsourceLong,
    htargetLong, hentry, _, rfl⟩ := rename_eq_ok hrename
  have hmoved := entry?_moveFile (List.cons_ne_nil sourceName sourceParent)
    (List.cons_ne_nil targetName targetParent) hentry
  refine ⟨hdirectories, fun object location other hlocation hother => ?_, ?_,
    fun _ object _ _ => contents_moveFile disk _ _ object⟩
  · -- the moved file has left the only name it had
    rw [hmoved] at hlocation hother
    split_ifs at hlocation hother with hl ho hs hs ho
    · exact hl.trans ho.symm
    · cases hlocation
      exact absurd (h moved other _ hother hentry) hs
    · cases hother
      exact absurd (h moved location _ hlocation hentry) hs
    · exact h object location other hlocation hother
  · intro location hlocation
    rw [not_or] at hlocation
    rw [hmoved, if_neg, if_neg]
    · rintro rfl
      exact hlocation.1 ⟨sourceParent, sourceName, hsource, hsourceLong, rfl⟩
    · rintro rfl
      exact hlocation.2 ⟨targetParent, targetName, htarget, htargetLong, rfl⟩

end Disk

/-! ### Runs -/

/-- No request gives a file a second name. -/
theorem Machine.unlinked_answer {m : Machine} (h : m.disk.Unlinked) (request : Request) :
    (m.answer request).2.disk.Unlinked := by
  have hchange : ∀ {result : Except IoError Disk},
      (∀ disk, result = .ok disk → disk.Unlinked) → (m.change result).2.disk.Unlinked := by
    intro result hresult
    rcases m.change_cases result with ⟨_, hdisk⟩ | ⟨_, _, hsame⟩
    · exact hresult _ hdisk
    · rw [hsame]
      exact h
  cases request with
  | openFile path mode =>
    rcases m.openFile_outcome path mode with ⟨_, opened, hopen, heq⟩ | ⟨e, heq, _⟩
    · have hdisk : (m.answer (.openFile path mode)).2.disk = opened.2 := congrArg (·.2.disk) heq
      rw [hdisk]
      exact (Disk.touches_openFile h hopen).unlinked
    · have hdisk : (m.answer (.openFile path mode)).2.disk = m.disk := congrArg (·.2.disk) heq
      rw [hdisk]
      exact h
  | write handle contents =>
    have hstore : ∀ file bytes, (m.advance.store handle file bytes).disk.Unlinked := by
      intro file bytes
      rw [Machine.store]
      cases file.offset <;> exact h
    change (m.write handle contents).2.disk.Unlinked
    cases hfile : m.opened[handle.index]? with
    | none =>
      rw [Machine.write, hfile]
      exact h
    | some file =>
      rcases Machine.write_outcome hfile contents with ⟨_, heq⟩ | ⟨failure, _, heq⟩ <;> rw [heq] <;>
        exact hstore _ _
  | sync handle => exact hchange fun _ hdisk => Except.ok.inj hdisk ▸ h
  | rename source target => exact hchange fun _ hdisk => (Disk.touches_rename h hdisk).unlinked
  | remove path => exact hchange fun _ hdisk => (Disk.touches_remove h hdisk).unlinked
  | print stream text => exact (m.disk_print stream text).symm ▸ h
  | read | isDirectory | variableValue | environment | processId | clock => exact h

/-- A program leaves no links where there were none. -/
theorem Program.unlinked_run {α : Type} (p : Program α) {m : Machine} (h : m.disk.Unlinked) :
    (p.run m).2.disk.Unlinked := by
  induction p generalizing m with
  | done value => exact h
  | ask request next ih => exact ih _ (Machine.unlinked_answer h request)

end TestJob
