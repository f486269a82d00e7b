import Mathlib
import TestJob.Proofs.Objects

/-!
Directories stay. No change of a file makes a directory or takes one away, so a path means the same
location at any time (`Disk.SameDirectories.means_iff`), and whether a file can be opened at a path
or renamed to it is settled by the directories alone (`Disk.CanHold`, `exists_openFile_iff`,
`exists_rename_iff`). A file gets a name by being renamed and in no other way
(`Disk.FewerNames`, `entry?_of_rename`).
-/

namespace TestJob.Disk

variable {disk before middle after : Disk} {directory location : Location} {path : Path}
  {object : Nat} {contents : Bytes}

/-- Two disks have the same directories. -/
def SameDirectories (before after : Disk) : Prop :=
  ∀ location, after.entry? location = some .directory ↔ before.entry? location = some .directory

namespace SameDirectories

theorem refl (disk : Disk) : SameDirectories disk disk := fun _ => Iff.rfl

theorem symm (h : SameDirectories before after) : SameDirectories after before :=
  fun location => (h location).symm

theorem trans (h : SameDirectories before middle) (h' : SameDirectories middle after) :
    SameDirectories before after :=
  fun location => (h' location).trans (h location)

theorem keeps (h : SameDirectories before after) : Keeps before after := by
  intro location hlocation
  rw [look_eq_directory_iff] at hlocation ⊢
  exact (h location).2 hlocation

end SameDirectories

/-! ### Where a path leads -/

/-- A path means a location that a file may have. -/
def Means (disk : Disk) (directory : Location) (path : Path) (location : Location) : Prop :=
  ∃ parent name, disk.locate directory path = .ok (.named parent name false) ∧
    name.length ≤ nameLimit ∧ location = name :: parent

theorem SameDirectories.means_iff (h : SameDirectories before after) :
    after.Means directory path location ↔ before.Means directory path location := by
  constructor
  · rintro ⟨parent, name, hplace, hlocation⟩
    exact ⟨parent, name, h.symm.keeps.locate_eq_ok hplace, hlocation⟩
  · rintro ⟨parent, name, hplace, hlocation⟩
    exact ⟨parent, name, h.keeps.locate_eq_ok hplace, hlocation⟩

theorem object?_eq_some_iff_means :
    disk.object? directory path = some object ↔
      ∃ location, disk.Means directory path location ∧
        disk.entry? location = some (.file object) := by
  rw [object?_eq_some_iff]
  constructor
  · rintro ⟨parent, name, hplace, hle, hentry⟩
    exact ⟨_, ⟨parent, name, hplace, hle, rfl⟩, hentry⟩
  · rintro ⟨_, ⟨parent, name, hplace, hle, rfl⟩, hentry⟩
    exact ⟨parent, name, hplace, hle, hentry⟩

/-- A path can be read where a file is seen. -/
theorem read_eq_ok_iff :
    disk.read directory path = .ok contents ↔
      ∃ location, disk.Means directory path location ∧
        disk.look location = some (.file contents) := by
  constructor
  · intro h
    rw [read, bind_eq_ok_iff] at h
    obtain ⟨place, hplace, h⟩ := h
    obtain ⟨⟨location, entry⟩, hexisting, h⟩ := bind_eq_ok_iff.1 h
    cases entry with
    | directory => cases h
    | file object =>
      obtain rfl := Except.ok.inj h
      obtain ⟨parent, name, rfl, hle, rfl, hentry⟩ := existing_eq_ok_file_iff.1 hexisting
      exact ⟨_, ⟨parent, name, hplace, hle, rfl⟩, look_of_file hentry⟩
  · rintro ⟨_, ⟨parent, name, hplace, hle, rfl⟩, hlook⟩
    rw [read_of_named hplace, if_neg (Nat.not_lt.2 hle), hlook]
    rfl

theorem exists_read_iff :
    (∃ contents, disk.read directory path = .ok contents) ↔
      ∃ object, disk.object? directory path = some object := by
  constructor
  · rintro ⟨contents, h⟩
    obtain ⟨location, hmeans, hlook⟩ := read_eq_ok_iff.1 h
    cases hentry : disk.entry? location with
    | none =>
      rw [look_eq_none_iff.2 hentry] at hlook
      cases hlook
    | some entry =>
      cases entry with
      | directory =>
        rw [look_eq_directory_iff.2 hentry] at hlook
        cases hlook
      | file object => exact ⟨object, object?_eq_some_iff_means.2 ⟨location, hmeans, hentry⟩⟩
  · rintro ⟨object, h⟩
    exact ⟨_, read_of_object? h⟩

/-- What can be read at a path is settled by what is seen where the path leads. -/
theorem SameDirectories.read_eq_ok_iff (h : SameDirectories before after)
    (hlook : ∀ location, before.Means directory path location →
      after.look location = before.look location) :
    after.read directory path = .ok contents ↔ before.read directory path = .ok contents := by
  rw [Disk.read_eq_ok_iff, Disk.read_eq_ok_iff]
  refine exists_congr fun location => ?_
  rw [h.means_iff]
  refine and_congr_right fun hmeans => ?_
  rw [hlook location hmeans]

/-- Other contents in a file make no path readable. -/
theorem read_setContents_ne (h : ∀ contents, disk.read directory path ≠ .ok contents)
    (object : Nat) (bytes : Bytes) :
    ∀ contents, (disk.setContents object bytes).read directory path ≠ .ok contents := by
  intro contents hread
  obtain ⟨found, hfound⟩ := exists_read_iff.1 ⟨contents, hread⟩
  have hsame : KeepsNames found (disk.setContents object bytes) disk :=
    (keepsNames_setContents disk object bytes).symm
  obtain ⟨old, hold⟩ := exists_read_iff.2 ⟨found, hsame.object?_eq_some hfound⟩
  exact h old hold

theorem Staged.sameDirectories (h : Staged before after location object contents) :
    SameDirectories before after := by
  intro other
  by_cases hother : other = location
  · rw [hother, h.entry, look_eq_none_iff.1 h.absent]
    exact iff_of_false nofun nofun
  · rw [← look_eq_directory_iff, ← look_eq_directory_iff, h.others other hother]

/-- A file that is made makes no other path readable. -/
theorem Staged.read_ne (h : Staged before after location object contents)
    (hnone : ∀ contents, before.read directory path ≠ .ok contents)
    (hother : ¬before.Means directory path location) :
    ∀ contents, after.read directory path ≠ .ok contents := by
  intro contents hread
  refine hnone contents ((h.sameDirectories.read_eq_ok_iff fun other hmeans => ?_).1 hread)
  refine h.others other ?_
  rintro rfl
  exact hother hmeans

/-- A path means a location where no directory stands, so that a file can be there. -/
def CanHold (disk : Disk) (directory : Location) (path : Path) : Prop :=
  ∃ location, disk.Means directory path location ∧ disk.entry? location ≠ some .directory

theorem SameDirectories.canHold_iff (h : SameDirectories before after) :
    after.CanHold directory path ↔ before.CanHold directory path :=
  exists_congr fun location => and_congr h.means_iff (not_congr (h location))

/-- A path that can hold a file does not lead to a directory. -/
theorem CanHold.isDirectory_eq_false (h : disk.CanHold directory path) :
    disk.isDirectory directory path = false := by
  obtain ⟨_, ⟨parent, name, hplace, hle, rfl⟩, hentry⟩ := h
  rw [isDirectory]
  split
  · next location hfound =>
    obtain ⟨place, hplace', hexisting⟩ := bind_eq_ok_iff.1 hfound
    obtain rfl := Except.ok.inj (hplace.symm.trans hplace')
    rw [existing, if_neg (Nat.not_lt.2 hle)] at hexisting
    cases hstands : disk.entry? (name :: parent) with
    | none => simp [hstands] at hexisting
    | some entry =>
      cases entry with
      | directory => exact absurd hstands hentry
      | file object => simp [hstands] at hexisting
  · rfl

/-! ### Changes that can be made -/

section Requests

variable {truncate : Bool} {opened : Nat × Disk} {source target : Path}

/-- A file can be opened wherever one can be. -/
theorem exists_openFile_iff :
    (∃ opened, disk.openFile directory path truncate = .ok opened) ↔
      disk.CanHold directory path := by
  constructor
  · rintro ⟨opened, h⟩
    obtain ⟨parent, name, hplace, hle, ⟨hentry, _⟩ | ⟨object, hentry, _⟩⟩ :=
      openFile_eq_ok_cases h
    · exact ⟨_, ⟨parent, name, hplace, hle, rfl⟩, by rw [hentry]; exact nofun⟩
    · exact ⟨_, ⟨parent, name, hplace, hle, rfl⟩, by rw [hentry]; exact nofun⟩
  · rintro ⟨_, ⟨parent, name, hplace, hle, rfl⟩, hentry⟩
    have hle : ¬nameLimit < name.length := Nat.not_lt.2 hle
    rw [openFile, hplace]
    cases hfound : disk.entry? (name :: parent) with
    | none => simp [bind, Except.bind, hle, hfound]
    | some entry =>
      cases entry with
      | directory => exact absurd hfound hentry
      | file object => simp [bind, Except.bind, hle, hfound]

/-- A file can be renamed to wherever a file can be. -/
theorem exists_rename_iff :
    (∃ after, disk.rename directory source target = .ok after) ↔
      (∃ object, disk.object? directory source = some object) ∧ disk.CanHold directory target := by
  constructor
  · rintro ⟨after, h⟩
    obtain ⟨sourceParent, sourceName, targetParent, targetName, object, hsource, htarget,
      hsourceLong, htargetLong, hentry, hdirectory, _⟩ := rename_eq_ok h
    exact ⟨⟨object, object?_eq_some_iff.2 ⟨_, _, hsource, hsourceLong, hentry⟩⟩,
      _, ⟨targetParent, targetName, htarget, htargetLong, rfl⟩, hdirectory⟩
  · rintro ⟨⟨object, hobject⟩, _, ⟨targetParent, targetName, htarget, htargetLong, rfl⟩,
      hdirectory⟩
    obtain ⟨sourceParent, sourceName, hsource, hsourceLong, hentry⟩ :=
      object?_eq_some_iff.1 hobject
    refine ⟨disk.moveFile (sourceName :: sourceParent) (targetName :: targetParent), ?_⟩
    rw [rename, hsource, htarget]
    change (if _ then _ else _) = _
    rw [if_neg (Nat.not_lt.2 hsourceLong), hentry]
    change (if _ then _ else if (false || false) = true then _ else _) = _
    rw [if_neg (Nat.not_lt.2 htargetLong), if_neg (by decide), if_neg hdirectory]

/-! ### What changes leave -/

/-- No file of a disk has a name on a later one that it did not have. -/
structure FewerNames (before after : Disk) : Prop where
  directories : SameDirectories before after
  stored : before.objects.length ≤ after.objects.length
  names : ∀ object < before.objects.length, ∀ location,
    after.entry? location = some (.file object) → before.entry? location = some (.file object)

namespace FewerNames

theorem refl (disk : Disk) : FewerNames disk disk :=
  ⟨.refl disk, Nat.le_refl _, fun _ _ _ h => h⟩

theorem trans (h : FewerNames before middle) (h' : FewerNames middle after) :
    FewerNames before after :=
  ⟨h.directories.trans h'.directories, h.stored.trans h'.stored,
    fun object hobject location hentry => h.names object hobject location
      (h'.names object (Nat.lt_of_lt_of_le hobject h.stored) location hentry)⟩

end FewerNames

theorem fewerNames_setContents (disk : Disk) (object : Nat) (contents : Bytes) :
    FewerNames disk (disk.setContents object contents) := by
  refine ⟨.refl disk, ?_, fun _ _ _ h => h⟩
  rw [setContents, List.length_set]

theorem fewerNames_addFile (habsent : disk.entry? location = none) (contents : Bytes) :
    FewerNames disk (disk.addFile location contents) := by
  have hroot : location ≠ [] := ne_nil_of_look_eq_none (look_eq_none_iff.2 habsent)
  have hentry := entry?_addFile disk hroot contents
  refine ⟨fun other => ?_, ?_, fun object hobject other hother => ?_⟩
  · rw [hentry]
    split_ifs with heq
    · rw [heq, habsent]
      exact iff_of_false nofun nofun
    · rfl
  · have hobjects : (disk.addFile location contents).objects = disk.objects ++ [contents] := rfl
    simp [hobjects]
  · rw [hentry] at hother
    split_ifs at hother with heq
    · cases hother
      omega
    · exact hother

theorem fewerNames_openFile (h : disk.openFile directory path truncate = .ok opened) :
    FewerNames disk opened.2 := by
  obtain ⟨parent, name, _, _, ⟨hentry, rfl⟩ | ⟨object, _, rfl⟩⟩ := openFile_eq_ok_cases h
  · exact fewerNames_addFile hentry []
  · cases truncate with
    | true => exact fewerNames_setContents disk object []
    | false => exact .refl disk

theorem fewerNames_remove (h : disk.remove directory path = .ok after) :
    FewerNames disk after := by
  rw [remove, bind_eq_ok_iff] at h
  obtain ⟨place, _, h⟩ := h
  obtain ⟨⟨location, entry⟩, hexisting, h⟩ := bind_eq_ok_iff.1 h
  cases entry with
  | directory => cases h
  | file found =>
    obtain rfl := Except.ok.inj h
    obtain ⟨parent, name, rfl, _, rfl, hentry⟩ := existing_eq_ok_file_iff.1 hexisting
    have herased : ∀ other, Disk.entry? (disk.eraseEntry (name :: parent)) other =
        if other = name :: parent then none else disk.entry? other :=
      fun other => entry?_eraseEntry (List.cons_ne_nil name parent) other
    refine ⟨fun other => ?_, Nat.le_refl _, fun object _ other hother => ?_⟩
    · rw [herased]
      split_ifs with heq
      · simp [heq, hentry]
      · rfl
    · rw [herased] at hother
      split_ifs at hother
      exact hother

/-- A file that is renamed stands where the target leads, and gets no other name. -/
theorem entry?_of_rename (h : disk.rename directory source target = .ok after) :
    SameDirectories disk after ∧ after.objects.length = disk.objects.length ∧
      ∀ object location, after.entry? location = some (.file object) →
        disk.entry? location = some (.file object) ∨ disk.Means directory target location := by
  obtain ⟨sourceParent, sourceName, targetParent, targetName, moved, _, htarget, _, htargetLong,
    hentry, hdirectory, rfl⟩ := rename_eq_ok h
  have hmoved := entry?_moveFile (List.cons_ne_nil sourceName sourceParent)
    (List.cons_ne_nil targetName targetParent) hentry
  refine ⟨directory_moveFile_iff hmoved hentry hdirectory, ?_, fun object location hlocation => ?_⟩
  · rw [moveFile]
    split <;> rfl
  · rw [hmoved] at hlocation
    split_ifs at hlocation with heq
    · exact .inr ⟨targetParent, targetName, htarget, htargetLong, heq⟩
    · exact .inl hlocation

end Requests

end TestJob.Disk
