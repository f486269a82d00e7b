import Mathlib
import TestJob.Proofs.Staging

/-!
Which object a path leads to. `Disk.object?` follows a path to a file and gives the object behind
the name, so two paths lead to the same file exactly when they lead to the same object. Changes of
files leave the directories as they are; a change through one path leaves every object that the path
does not lead to with all of its names (`Disk.KeepsNames`) and its contents.
-/

namespace TestJob.Disk

/-- The object of the file that a path leads to. -/
def object? (disk : Disk) (directory : Location) (path : Path) : Option Nat :=
  match disk.locate directory path >>= disk.existing with
  | .ok (_, .file object) => some object
  | _ => none

variable {disk before after : Disk} {directory : Location} {path : Path} {object : Nat}

/-- A disk has the directories of another, and an object has the same names on both. -/
structure KeepsNames (object : Nat) (before after : Disk) : Prop where
  directories : ∀ location,
    after.entry? location = some .directory ↔ before.entry? location = some .directory
  names : ∀ location,
    after.entry? location = some (.file object) ↔ before.entry? location = some (.file object)

/-! ### Following a path -/

/-- What a path means is settled by the directories alone. -/
theorem Keeps.locate_eq_ok (h : Keeps before after) {place : Place}
    (hplace : before.locate directory path = .ok place) :
    after.locate directory path = .ok place := by
  rw [Disk.locate] at hplace ⊢
  split_ifs at hplace ⊢
  dsimp only at hplace ⊢
  cases hlast : (path.segments.filter (· ≠ [])).getLast? with
  | none => rwa [hlast] at hplace
  | some last =>
    rw [hlast] at hplace
    obtain ⟨parent, hparent, hplace⟩ := bind_eq_ok_iff.1 hplace
    exact bind_eq_ok_iff.2 ⟨parent, h.walk hparent, hplace⟩

theorem existing_eq_ok_file_iff {place : Place} {location : Location} :
    disk.existing place = .ok (location, .file object) ↔
      ∃ parent name, place = .named parent name false ∧ name.length ≤ nameLimit ∧
        location = name :: parent ∧ disk.entry? (name :: parent) = some (.file object) := by
  cases place with
  | walked location => exact iff_of_false (by simp [existing]) (by simp)
  | named parent name slash =>
    rw [existing]
    by_cases hlong : nameLimit < name.length
    · rw [if_pos hlong]
      exact iff_of_false (by simp) (by rintro ⟨_, _, ⟨⟩, hle, _⟩; omega)
    · rw [if_neg hlong]
      cases hentry : disk.entry? (name :: parent) with
      | none => exact iff_of_false (by simp) (by rintro ⟨_, _, ⟨⟩, _, _, h⟩; simp [hentry] at h)
      | some entry =>
        cases entry with
        | directory =>
          exact iff_of_false (by simp) (by rintro ⟨_, _, ⟨⟩, _, _, h⟩; simp [hentry] at h)
        | file found =>
          cases slash with
          | true => exact iff_of_false (by simp) (by simp)
          | false =>
            have hle : name.length ≤ nameLimit := Nat.le_of_not_lt hlong
            simp [hle, hentry, eq_comm]

theorem object?_eq_some_iff :
    disk.object? directory path = some object ↔
      ∃ parent name, disk.locate directory path = .ok (.named parent name false) ∧
        name.length ≤ nameLimit ∧ disk.entry? (name :: parent) = some (.file object) := by
  have hobject : disk.object? directory path = some object ↔
      ∃ location, disk.locate directory path >>= disk.existing = .ok (location, .file object) := by
    rw [object?]
    split
    · next location found hfound => simp [hfound]
    · next hnone => exact iff_of_false (by simp) fun ⟨location, h⟩ => hnone location object h
  simp only [hobject, bind_eq_ok_iff, existing_eq_ok_file_iff]
  constructor
  · rintro ⟨_, _, hplace, parent, name, rfl, hle, _, hentry⟩
    exact ⟨parent, name, hplace, hle, hentry⟩
  · rintro ⟨parent, name, hplace, hle, hentry⟩
    exact ⟨_, _, hplace, parent, name, rfl, hle, rfl, hentry⟩

theorem read_of_object? (h : disk.object? directory path = some object) :
    disk.read directory path = .ok (disk.contents object) := by
  obtain ⟨parent, name, hplace, hle, hentry⟩ := object?_eq_some_iff.1 h
  rw [read_of_named hplace, if_neg (Nat.not_lt.2 hle), look_of_file hentry]
  rfl

/-- An object that a path leads to is there. -/
theorem lt_of_object? (h : disk.object? directory path = some object) :
    object < disk.objects.length := by
  obtain ⟨_, _, _, _, hentry⟩ := object?_eq_some_iff.1 h
  exact object_lt hentry

namespace KeepsNames

theorem refl (object : Nat) (disk : Disk) : KeepsNames object disk disk :=
  ⟨fun _ => Iff.rfl, fun _ => Iff.rfl⟩

theorem trans {middle : Disk} (h : KeepsNames object before middle)
    (h' : KeepsNames object middle after) : KeepsNames object before after :=
  ⟨fun location => (h'.directories location).trans (h.directories location),
    fun location => (h'.names location).trans (h.names location)⟩

theorem symm (h : KeepsNames object before after) : KeepsNames object after before :=
  ⟨fun location => (h.directories location).symm, fun location => (h.names location).symm⟩

theorem keeps (h : KeepsNames object before after) : Keeps before after := by
  intro location hlocation
  rw [look_eq_directory_iff] at hlocation ⊢
  exact (h.directories location).2 hlocation

theorem object?_eq_some (h : KeepsNames object before after)
    (hobject : before.object? directory path = some object) :
    after.object? directory path = some object := by
  obtain ⟨parent, name, hplace, hle, hentry⟩ := object?_eq_some_iff.1 hobject
  exact object?_eq_some_iff.2
    ⟨parent, name, h.keeps.locate_eq_ok hplace, hle, (h.names _).2 hentry⟩

/-- The same paths lead to the object. -/
theorem object?_iff (h : KeepsNames object before after) :
    after.object? directory path = some object ↔ before.object? directory path = some object :=
  ⟨h.symm.object?_eq_some, h.object?_eq_some⟩

end KeepsNames

/-! ### Changes -/

theorem keepsNames_setContents (disk : Disk) (changed : Nat) (contents : Bytes) :
    KeepsNames object disk (disk.setContents changed contents) :=
  ⟨fun _ => Iff.rfl, fun _ => Iff.rfl⟩

theorem contents_setContents_of_ne {changed : Nat} (h : changed ≠ object) (contents : Bytes) :
    (disk.setContents changed contents).contents object = disk.contents object := by
  rw [Disk.contents, setContents, Disk.contents, List.getElem?_set_ne h]

/-- A new file names a new object. -/
theorem keepsNames_addFile {location : Location} (habsent : disk.entry? location = none)
    (hobject : object < disk.objects.length) (contents : Bytes) :
    KeepsNames object disk (disk.addFile location contents) := by
  have hroot : location ≠ [] := ne_nil_of_look_eq_none (look_eq_none_iff.2 habsent)
  have hentry := entry?_addFile disk hroot contents
  refine ⟨fun other => ?_, fun other => ?_⟩
  · by_cases hother : other = location
    · rw [hentry, if_pos hother, hother, habsent]
      exact iff_of_false nofun nofun
    · rw [hentry, if_neg hother]
  · by_cases hother : other = location
    · rw [hentry, if_pos hother, hother, habsent]
      refine iff_of_false ?_ nofun
      rintro heq
      rw [Option.some.injEq, Entry.file.injEq] at heq
      omega
    · rw [hentry, if_neg hother]

section Requests

variable {truncate : Bool} {opened : Nat × Disk} {source target : Path}

theorem object?_openFile (h : disk.openFile directory path truncate = .ok opened) :
    opened.2.object? directory path = some opened.1 := by
  obtain ⟨parent, name, hplace, hlong, ⟨hentry, rfl⟩ | ⟨found, hentry, rfl⟩⟩ :=
    openFile_eq_ok_cases h
  · have hstaged := staged_addFile (look_eq_none_iff.2 hentry) []
    exact object?_eq_some_iff.2
      ⟨parent, name, hstaged.keeps.locate_eq_ok hplace, hlong, hstaged.entry⟩
  · have hbefore : disk.object? directory path = some found :=
      object?_eq_some_iff.2 ⟨parent, name, hplace, hlong, hentry⟩
    cases truncate with
    | true => exact (keepsNames_setContents disk found []).object?_eq_some hbefore
    | false => exact hbefore

/-- A file that is there is opened to be continued, and the disk stays. -/
theorem openFile_of_object? (h : disk.object? directory path = some object) :
    disk.openFile directory path false = .ok (object, disk) := by
  obtain ⟨parent, name, hplace, hle, hentry⟩ := object?_eq_some_iff.1 h
  rw [openFile, hplace]
  simp [bind, Except.bind, Nat.not_lt.2 hle, hentry]

/-- A file that is opened anew is empty. -/
theorem contents_openFile_truncate (h : disk.openFile directory path true = .ok opened) :
    opened.2.contents opened.1 = [] := by
  obtain ⟨parent, name, _, _, ⟨hentry, rfl⟩ | ⟨found, hentry, rfl⟩⟩ := openFile_eq_ok_cases h
  · exact (staged_addFile (look_eq_none_iff.2 hentry) []).contents_eq
  · exact (contents_setContents (object_lt hentry) [] found).trans (if_pos rfl)

/-- A file that is opened to be continued has what it had, or nothing if it was not there. -/
theorem contents_openFile_append (h : disk.openFile directory path false = .ok opened) :
    opened.2.contents opened.1 = (disk.read directory path).toOption.getD [] := by
  obtain ⟨parent, name, hplace, hlong, ⟨hentry, rfl⟩ | ⟨found, hentry, rfl⟩⟩ :=
    openFile_eq_ok_cases h
  · rw [read_of_named hplace, if_neg (Nat.not_lt.2 hlong), look_eq_none_iff.2 hentry]
    exact (staged_addFile (look_eq_none_iff.2 hentry) []).contents_eq
  · rw [read_of_object? (object?_eq_some_iff.2 ⟨parent, name, hplace, hlong, hentry⟩)]
    rfl

/-- Opening a file spares every other one. -/
theorem openFile_spares (h : disk.openFile directory path truncate = .ok opened)
    (hobject : object < disk.objects.length) (hother : disk.object? directory path ≠ some object) :
    opened.1 ≠ object ∧ KeepsNames object disk opened.2 ∧
      opened.2.contents object = disk.contents object := by
  obtain ⟨parent, name, hplace, hlong, ⟨hentry, rfl⟩ | ⟨found, hentry, rfl⟩⟩ :=
    openFile_eq_ok_cases h
  · exact ⟨Ne.symm (Nat.ne_of_lt hobject), keepsNames_addFile hentry hobject [],
      contents_allocate_of_lt hobject []⟩
  · have hne : found ≠ object := by
      rintro rfl
      exact hother (object?_eq_some_iff.2 ⟨parent, name, hplace, hlong, hentry⟩)
    cases truncate with
    | true => exact ⟨hne, keepsNames_setContents disk found [], contents_setContents_of_ne hne []⟩
    | false => exact ⟨hne, .refl object disk, rfl⟩

/-- Directories stay where they are when a file is moved. -/
theorem directory_moveFile_iff {source target : Location}
    (hmoved : ∀ location, after.entry? location =
      if location = target then some (.file object)
      else if location = source then none else disk.entry? location)
    (hsource : disk.entry? source = some (.file object))
    (htarget : disk.entry? target ≠ some .directory) (location : Location) :
    after.entry? location = some .directory ↔ disk.entry? location = some .directory := by
  rw [hmoved]
  split_ifs with hlocation hlocation
  · exact iff_of_false nofun (hlocation ▸ htarget)
  · rw [hlocation, hsource]
    exact iff_of_false nofun nofun
  · rfl

/-- A file that is renamed takes the object of one path to another. -/
theorem object?_rename (h : disk.rename directory source target = .ok after) :
    ∃ moved, disk.object? directory source = some moved ∧
      after.object? directory target = some moved ∧
      after.contents moved = disk.contents moved := by
  obtain ⟨sourceParent, sourceName, targetParent, targetName, moved, hsource, htarget, hsourceLong,
    htargetLong, hentry, hdirectory, rfl⟩ := rename_eq_ok h
  have hmoved := entry?_moveFile (List.cons_ne_nil sourceName sourceParent)
    (List.cons_ne_nil targetName targetParent) hentry
  have hkeeps : Keeps disk
      (disk.moveFile (sourceName :: sourceParent) (targetName :: targetParent)) := by
    intro location hlocation
    rw [look_eq_directory_iff] at hlocation ⊢
    exact (directory_moveFile_iff hmoved hentry hdirectory location).2 hlocation
  refine ⟨moved, object?_eq_some_iff.2 ⟨_, _, hsource, hsourceLong, hentry⟩,
    object?_eq_some_iff.2 ⟨_, _, hkeeps.locate_eq_ok htarget, htargetLong, ?_⟩,
    contents_moveFile disk _ _ moved⟩
  exact (hmoved _).trans (if_pos rfl)

/-- Renaming spares every object that neither path leads to. -/
theorem rename_spares (h : disk.rename directory source target = .ok after)
    (hsource : disk.object? directory source ≠ some object)
    (htarget : disk.object? directory target ≠ some object) :
    KeepsNames object disk after ∧ after.contents object = disk.contents object := by
  obtain ⟨sourceParent, sourceName, targetParent, targetName, moved, hsourcePlace, htargetPlace,
    hsourceLong, htargetLong, hentry, hdirectory, rfl⟩ := rename_eq_ok h
  have hmoved := entry?_moveFile (List.cons_ne_nil sourceName sourceParent)
    (List.cons_ne_nil targetName targetParent) hentry
  have hne : moved ≠ object := by
    rintro rfl
    exact hsource (object?_eq_some_iff.2 ⟨_, _, hsourcePlace, hsourceLong, hentry⟩)
  refine ⟨⟨directory_moveFile_iff hmoved hentry hdirectory, fun location => ?_⟩,
    contents_moveFile disk _ _ object⟩
  rw [hmoved]
  split_ifs with hlocation hlocation
  · refine iff_of_false (by simpa using hne) ?_
    rintro hnamed
    rw [hlocation] at hnamed
    exact htarget (object?_eq_some_iff.2 ⟨_, _, htargetPlace, htargetLong, hnamed⟩)
  · rw [hlocation, hentry]
    exact iff_of_false nofun (by simpa using hne)
  · rfl

/-- A file that is taken away is the one the path leads to. -/
theorem remove_spares (h : disk.remove directory path = .ok after)
    (hother : disk.object? directory path ≠ some object) :
    KeepsNames object disk after ∧ after.contents object = disk.contents object := by
  rw [remove, bind_eq_ok_iff] at h
  obtain ⟨place, hplace, h⟩ := h
  obtain ⟨⟨location, entry⟩, hexisting, h⟩ := bind_eq_ok_iff.1 h
  cases entry with
  | directory => cases h
  | file found =>
    obtain rfl := Except.ok.inj h
    obtain ⟨parent, name, rfl, hlong, rfl, hentry⟩ := existing_eq_ok_file_iff.1 hexisting
    have hne : found ≠ object := by
      rintro rfl
      exact hother (object?_eq_some_iff.2 ⟨parent, name, hplace, hlong, hentry⟩)
    have herased : ∀ other, Disk.entry? (disk.eraseEntry (name :: parent)) other =
        if other = name :: parent then none else disk.entry? other :=
      fun other => entry?_eraseEntry (List.cons_ne_nil name parent) other
    refine ⟨⟨fun location => ?_, fun location => ?_⟩, rfl⟩
    · rw [herased]
      split_ifs with hlocation
      · rw [hlocation, hentry]
        exact iff_of_false (by simp) (by simp)
      · rfl
    · rw [herased]
      split_ifs with hlocation
      · rw [hlocation, hentry]
        exact iff_of_false (by simp) (by simpa using hne)
      · rfl

end Requests

end TestJob.Disk
