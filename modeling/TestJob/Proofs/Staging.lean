import Mathlib
import TestJob.Proofs.Disk

/-!
A file made beside others. While a new file is open, the disk is the old one with the file at a
location where nothing stood (`Staged`): writing changes that file alone, taking it away gives back
what was seen before (`Staged.look_eraseEntry`), and moving it changes what is seen at the target
and nowhere else (`Staged.look_moveFile`).
-/

namespace TestJob.Disk

variable {disk before after : Disk} {directory location : Location} {object : Nat}
  {contents : Bytes}

/-- A disk is another one with a new file, whose object has no other name. -/
structure Staged (before after : Disk) (location : Location) (object : Nat) (contents : Bytes) :
    Prop where
  absent : before.look location = none
  entry : after.entry? location = some (.file object)
  contents_eq : after.contents object = contents
  alone : ∀ other, after.entry? other = some (.file object) → other = location
  others : ∀ other ≠ location, after.look other = before.look other

theorem ne_nil_of_look_eq_none (h : disk.look location = none) : location ≠ [] := by
  rintro rfl
  rw [look_root] at h
  exact absurd h (by simp)

/-- A file made where nothing stood. -/
theorem staged_addFile (h : disk.look location = none) (contents : Bytes) :
    Staged disk (disk.addFile location contents) location disk.objects.length contents := by
  have hroot : location ≠ [] := ne_nil_of_look_eq_none h
  have hentry := entry?_addFile disk hroot contents
  refine ⟨h, by rw [hentry, if_pos rfl], contents_allocate_length contents, ?_, ?_⟩
  · intro other hother
    by_contra hne
    rw [hentry, if_neg hne] at hother
    exact absurd (object_lt hother) (Nat.lt_irrefl _)
  · intro other hne
    refine look_congr (by rw [hentry, if_neg hne]) fun object hobject => ?_
    exact contents_allocate_of_lt (object_lt hobject) contents

namespace Staged

variable (h : Staged before after location object contents)

include h

theorem keeps : Keeps before after := by
  intro other hother
  have hne : other ≠ location := by
    rintro rfl
    rw [h.absent] at hother
    exact absurd hother (by simp)
  rw [h.others other hne, hother]

/-- Other contents in the new file are seen there alone. -/
theorem setContents (other : Bytes) :
    Staged before (after.setContents object other) location object other := by
  have hstored := object_lt h.entry
  refine ⟨h.absent, h.entry, ?_, h.alone, fun place hplace => ?_⟩
  · rw [contents_setContents hstored, if_pos rfl]
  · rw [← h.others place hplace]
    refine look_congr rfl fun number hnumber => ?_
    rw [contents_setContents hstored, if_neg]
    rintro rfl
    exact hplace (h.alone place hnumber)

/-- Without the new file everything is seen as before. -/
theorem look_eraseEntry (other : Location) :
    (after.eraseEntry location).look other = before.look other := by
  have hroot : location ≠ [] := ne_nil_of_look_eq_none h.absent
  by_cases hne : other = location
  · rw [hne, h.absent, look_eq_none_iff, entry?_eraseEntry hroot, if_pos rfl]
  · rw [← h.others other hne]
    refine look_congr ?_ fun _ _ => rfl
    rw [entry?_eraseEntry hroot, if_neg hne]

end Staged

/-! ### Moving -/

theorem contents_moveFile (disk : Disk) (source target : Location) (object : Nat) :
    (disk.moveFile source target).contents object = disk.contents object := by
  rw [moveFile]
  split <;> rfl

theorem entry?_moveFile {source target : Location} (hsource : source ≠ []) (htarget : target ≠ [])
    (h : disk.entry? source = some (.file object)) (other : Location) :
    Disk.entry? (disk.moveFile source target) other =
      if other = target then some (.file object)
      else if other = source then none else disk.entry? other := by
  rw [entry?_of_ne_nil hsource] at h
  rw [moveFile]
  split
  · next found hfound =>
    obtain rfl : found = object := by
      rw [h] at hfound
      exact (Entry.file.inj (Option.some.inj hfound)).symm
    refine (entry?_setEntry htarget _ other).trans ?_
    rw [entry?_eraseEntry hsource]
  · next hnone => exact absurd h (hnone object)

/-- The new file takes the place of what stood at the target, and is gone from its own. -/
theorem Staged.look_moveFile (h : Staged before after location object contents)
    {target : Location} (htarget : target ≠ []) (hne : target ≠ location) (other : Location) :
    (after.moveFile location target).look other =
      if other = target then some (.file contents) else before.look other := by
  have hroot : location ≠ [] := ne_nil_of_look_eq_none h.absent
  have hentry := entry?_moveFile hroot htarget h.entry
  by_cases hother : other = target
  · rw [if_pos hother, hother, look_of_file (by rw [hentry, if_pos rfl]), contents_moveFile,
      h.contents_eq]
  rw [if_neg hother]
  by_cases hlocation : other = location
  · rw [hlocation, h.absent, look_eq_none_iff, hentry, if_neg (Ne.symm hne), if_pos rfl]
  · rw [← h.others other hlocation]
    refine look_congr ?_ fun number _ => contents_moveFile after location target number
    rw [hentry, if_neg hother, if_neg hlocation]

/-! ### Requests that succeed -/

section Requests

variable {path source target : Path}

/-- A file that is opened is there already, or is made where nothing stood. -/
theorem openFile_eq_ok_cases {truncate : Bool} {opened : Nat × Disk}
    (h : disk.openFile directory path truncate = .ok opened) :
    ∃ parent name, disk.locate directory path = .ok (.named parent name false) ∧
      name.length ≤ nameLimit ∧
      ((disk.entry? (name :: parent) = none ∧
          opened = (disk.objects.length, disk.addFile (name :: parent) [])) ∨
        ∃ object, disk.entry? (name :: parent) = some (.file object) ∧
          opened = (object, if truncate then disk.setContents object [] else disk)) := by
  rw [openFile, bind_eq_ok_iff] at h
  obtain ⟨place, hplace, h⟩ := h
  cases place with
  | walked location => cases h
  | named parent name slash =>
    dsimp only at h
    by_cases hslash : slash = true
    · rw [if_pos hslash] at h
      cases h
    by_cases hlong : nameLimit < name.length
    · rw [if_neg hslash, if_pos hlong] at h
      cases h
    rw [if_neg hslash, if_neg hlong] at h
    obtain rfl : slash = false := Bool.not_eq_true _ ▸ hslash
    refine ⟨parent, name, hplace, Nat.le_of_not_lt hlong, ?_⟩
    cases hentry : disk.entry? (name :: parent) with
    | none =>
      rw [hentry] at h
      exact .inl ⟨rfl, (Except.ok.inj h).symm⟩
    | some entry =>
      rw [hentry] at h
      cases entry with
      | directory => cases h
      | file object => exact .inr ⟨object, rfl, (Except.ok.inj h).symm⟩

/-- A file that is opened, where none can be read, is a new one. -/
theorem openFile_eq_ok {opened : Nat × Disk}
    (hnone : ∀ contents, disk.read directory path ≠ .ok contents)
    (h : disk.openFile directory path true = .ok opened) :
    ∃ parent name, disk.locate directory path = .ok (.named parent name false) ∧
      name.length ≤ nameLimit ∧ Staged disk opened.2 (name :: parent) opened.1 [] := by
  obtain ⟨parent, name, hplace, hlong, ⟨hentry, rfl⟩ | ⟨object, hentry, rfl⟩⟩ :=
    openFile_eq_ok_cases h
  · exact ⟨parent, name, hplace, hlong, staged_addFile (look_eq_none_iff.2 hentry) []⟩
  · refine absurd ?_ (hnone (disk.contents object))
    rw [read_of_named hplace, if_neg (Nat.not_lt.2 hlong), look_of_file hentry]
    rfl

/-- A new file that is opened again is emptied. -/
theorem Staged.openFile {opened : Nat × Disk} {parent : Location} {name : Bytes}
    (h : Staged before disk location object contents)
    (hplace : disk.locate directory path = .ok (.named parent name false))
    (hlocation : location = name :: parent)
    (hopen : disk.openFile directory path true = .ok opened) :
    Staged before opened.2 location opened.1 [] := by
  subst hlocation
  obtain ⟨parent', name', hplace', _, ⟨hentry, _⟩ | ⟨found, hentry, rfl⟩⟩ :=
    openFile_eq_ok_cases hopen
  · cases hplace.symm.trans hplace'
    exact absurd (hentry.symm.trans h.entry) nofun
  · cases hplace.symm.trans hplace'
    cases hentry.symm.trans h.entry
    exact h.setContents []

/-- A file that is renamed goes from one name to another, where no directory stands. -/
theorem rename_eq_ok (h : disk.rename directory source target = .ok after) :
    ∃ sourceParent sourceName targetParent targetName object,
      disk.locate directory source = .ok (.named sourceParent sourceName false) ∧
      disk.locate directory target = .ok (.named targetParent targetName false) ∧
      sourceName.length ≤ nameLimit ∧ targetName.length ≤ nameLimit ∧
      disk.entry? (sourceName :: sourceParent) = some (.file object) ∧
      disk.entry? (targetName :: targetParent) ≠ some .directory ∧
      after = disk.moveFile (sourceName :: sourceParent) (targetName :: targetParent) := by
  rw [rename, bind_eq_ok_iff] at h
  obtain ⟨sourcePlace, hsource, h⟩ := h
  rw [bind_eq_ok_iff] at h
  obtain ⟨targetPlace, htarget, h⟩ := h
  cases sourcePlace with
  | walked location => cases h
  | named sourceParent sourceName sourceSlash =>
    cases targetPlace with
    | walked location => cases h
    | named targetParent targetName targetSlash =>
      dsimp only at h
      by_cases hlong : nameLimit < sourceName.length
      · rw [if_pos hlong] at h
        cases h
      rw [if_neg hlong] at h
      cases hentry : disk.entry? (sourceName :: sourceParent) with
      | none =>
        rw [hentry] at h
        cases h
      | some entry =>
        rw [hentry] at h
        cases entry with
        | directory => cases h
        | file object =>
          dsimp only at h
          split_ifs at h with hlong' hslash hdirectory
          rw [Bool.or_eq_true, not_or, Bool.not_eq_true, Bool.not_eq_true] at hslash
          obtain ⟨rfl, rfl⟩ := hslash
          exact ⟨_, _, _, _, object, hsource, htarget, Nat.le_of_not_lt hlong,
            Nat.le_of_not_lt hlong', hentry, hdirectory, (Except.ok.inj h).symm⟩

/-- Only a file that can be read is taken away. -/
theorem exists_read_of_remove (h : disk.remove directory path = .ok after) :
    ∃ contents, disk.read directory path = .ok contents := by
  rw [remove, bind_eq_ok_iff] at h
  obtain ⟨place, hplace, h⟩ := h
  rw [bind_eq_ok_iff] at h
  obtain ⟨⟨location, entry⟩, hexisting, h⟩ := h
  cases entry with
  | directory => cases h
  | file object =>
    refine ⟨disk.contents object, ?_⟩
    rw [read, bind_eq_ok_iff]
    exact ⟨place, hplace, bind_eq_ok_iff.2 ⟨_, hexisting, rfl⟩⟩

/-- A file that is there is taken away. -/
theorem remove_eq_ok {parent : Location} {name : Bytes}
    (hplace : disk.locate directory path = .ok (.named parent name false))
    (hlong : name.length ≤ nameLimit)
    (hentry : disk.entry? (name :: parent) = some (.file object)) :
    disk.remove directory path = .ok (disk.eraseEntry (name :: parent)) := by
  have hexisting : disk.existing (.named parent name false) =
      .ok (name :: parent, .file object) := by
    rw [existing, if_neg (Nat.not_lt.2 hlong), hentry]
    rfl
  rw [remove, bind_eq_ok_iff]
  exact ⟨_, hplace, bind_eq_ok_iff.2 ⟨_, hexisting, rfl⟩⟩

end Requests

end TestJob.Disk
