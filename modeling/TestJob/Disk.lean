import TestJob.IoError
import TestJob.Members
import TestJob.Path

/-!
A tree of directories and files, as a value. A file is a name for an object, and the object holds
the contents: a file that is open stays the same object when its name is given to another. There
are no links. Paths are followed from a directory, name by name; `locate` finds the place that a
path means, which need not exist, and every operation on a path starts from there.
-/

namespace TestJob

/-- The names that lead from the root to a place, last first. -/
abbrev Location := List Bytes

/-- What stands at a place. -/
inductive Entry where
  | directory
  | file (object : Nat)
deriving DecidableEq

/-- An entry names one of the first `count` objects, or none. -/
def Entry.Names (count : Nat) : Entry → Prop
  | directory => True
  | file object => object < count

theorem Entry.Names.mono {count more : Nat} {entry : Entry} (h : entry.Names count)
    (le : count ≤ more) : entry.Names more := by
  cases entry with
  | directory => trivial
  | file object => exact Nat.lt_of_lt_of_le h le

namespace Disk

/-- How many bytes a name may have. -/
def nameLimit : Nat := 255

/-- How many bytes a path must stay below. -/
def pathLimit : Nat := 4096

end Disk

/-- The entries below the root, and the contents of the objects. Every file has its object. -/
structure Disk where
  entries : Members Location Entry
  objects : List Bytes
  names : ∀ e ∈ entries, e.2.Names objects.length
deriving DecidableEq

/-- What a path means. -/
inductive Place where
  /-- A directory that was walked to. -/
  | walked (location : Location)
  /-- A name in a directory; the path may end in a slash. -/
  | named (parent : Location) (name : Bytes) (slash : Bool)
deriving DecidableEq

namespace Disk

/-- What stands at a location; the root is a directory. -/
def entry? (disk : Disk) (location : Location) : Option Entry :=
  if location = [] then some .directory else Members.find? location disk.entries

/-- The contents of an object. -/
def contents (disk : Disk) (object : Nat) : Bytes := (disk.objects[object]?).getD []

/-- Goes from a directory through one segment of a path. -/
def descend (disk : Disk) (location : Location) (segment : Bytes) : Except IoError Location :=
  if Path.isIdle segment then .ok location
  else if segment = Path.above then .ok location.tail
  else if nameLimit < segment.length then .error .nameTooLong
  else
    match disk.entry? (segment :: location) with
    | none => .error .notFound
    | some (.file _) => .error .notDirectory
    | some .directory => .ok (segment :: location)

/-- Where a path begins: at the root, or at the directory that it is followed from. -/
def origin (directory : Location) (path : Path) : Location :=
  if path.bytes.head? = some Path.separator then [] else directory

/-- The place that a path means. -/
def locate (disk : Disk) (directory : Location) (path : Path) : Except IoError Place :=
  if 0 ∈ path.bytes then .error .zeroByte
  else if path.bytes = [] then .error .notFound
  else if pathLimit ≤ path.bytes.length then .error .nameTooLong
  else
    let names := path.segments.filter (· ≠ [])
    match names.getLast? with
    | none => .ok (.walked (origin directory path))
    | some last => do
      let parent ← names.dropLast.foldlM disk.descend (origin directory path)
      if last = Path.here then .ok (.walked parent)
      else if last = Path.above then .ok (.walked parent.tail)
      else .ok (.named parent last (path.segments.getLast? = some []))

/-- The location and the entry of a place that must exist. -/
def existing (disk : Disk) : Place → Except IoError (Location × Entry)
  | .walked location => .ok (location, .directory)
  | .named parent name slash =>
    if nameLimit < name.length then .error .nameTooLong
    else
      match disk.entry? (name :: parent) with
      | none => .error .notFound
      | some .directory => .ok (name :: parent, .directory)
      | some (.file object) =>
        if slash then .error .notDirectory else .ok (name :: parent, .file object)

/-- The contents of the file that a path means. -/
def read (disk : Disk) (directory : Location) (path : Path) : Except IoError Bytes := do
  match ← disk.existing (← disk.locate directory path) with
  | (_, .directory) => .error .isDirectory
  | (_, .file object) => .ok (disk.contents object)

/-- Whether a path leads to a directory. -/
def isDirectory (disk : Disk) (directory : Location) (path : Path) : Bool :=
  match disk.locate directory path >>= disk.existing with
  | .ok (_, .directory) => true
  | _ => false

/-- The disk with only a root. -/
def empty : Disk := ⟨[], [], by simp⟩

/-- The disk with other contents in an object. -/
def setContents (disk : Disk) (object : Nat) (contents : Bytes) : Disk where
  entries := disk.entries
  objects := disk.objects.set object contents
  names := by simpa using disk.names

/-- The disk with one more object, which has no name yet. -/
def allocate (disk : Disk) (contents : Bytes) : Disk where
  entries := disk.entries
  objects := disk.objects ++ [contents]
  names := fun e h => (disk.names e h).mono (by simp)

/-- The disk with an entry, in the place of an earlier one. -/
def setEntry (disk : Disk) (location : Location) (entry : Entry)
    (h : entry.Names disk.objects.length) : Disk where
  entries := Members.insert location entry disk.entries
  objects := disk.objects
  names := fun e he =>
    (Members.eq_or_mem_of_mem_insert he).elim (fun eq => eq ▸ h) (disk.names e)

/-- The disk without the entry at a location. -/
def eraseEntry (disk : Disk) (location : Location) : Disk where
  entries := Members.erase location disk.entries
  objects := disk.objects
  names := fun e he => disk.names e (List.mem_filter.1 he).1

/-- The disk with a directory. -/
def addDirectory (disk : Disk) (location : Location) : Disk :=
  disk.setEntry location .directory trivial

/-- The disk with a new file. -/
def addFile (disk : Disk) (location : Location) (contents : Bytes) : Disk :=
  (disk.allocate contents).setEntry location (.file disk.objects.length)
    (by simp [allocate, Entry.Names])

/-- The disk with a file taken from one location to another. -/
def moveFile (disk : Disk) (source target : Location) : Disk :=
  match h : Members.find? source disk.entries with
  | some (.file object) =>
    (disk.eraseEntry source).setEntry target (.file object)
      (disk.names _ (Members.mem_of_find? h))
  | _ => disk

/-- Opens the file that a path means, making it if it is not there; gives the object. -/
def openFile (disk : Disk) (directory : Location) (path : Path) (truncate : Bool) :
    Except IoError (Nat × Disk) := do
  match ← disk.locate directory path with
  | .walked _ => .error .isDirectory
  | .named parent name slash =>
    if slash then .error .isDirectory
    else if nameLimit < name.length then .error .nameTooLong
    else
      match disk.entry? (name :: parent) with
      | none => .ok (disk.objects.length, disk.addFile (name :: parent) [])
      | some .directory => .error .isDirectory
      | some (.file object) =>
        .ok (object, if truncate then disk.setContents object [] else disk)

/-- Contents with bytes laid over them from an offset on. -/
def overlay (contents : Bytes) (offset : Nat) (bytes : Bytes) : Bytes :=
  contents.take offset ++ List.replicate (offset - contents.length) 0 ++ bytes ++
    contents.drop (offset + bytes.length)

/-- Gives the file of one path the place of another. Only files are renamed. -/
def rename (disk : Disk) (directory : Location) (source target : Path) : Except IoError Disk := do
  let source ← disk.locate directory source
  let target ← disk.locate directory target
  match source, target with
  | .named sourceParent sourceName sourceSlash, .named targetParent targetName targetSlash =>
    if nameLimit < sourceName.length then .error .nameTooLong
    else
      match disk.entry? (sourceName :: sourceParent) with
      | none => .error .notFound
      | some .directory => .error .isDirectory
      | some (.file _) =>
        if nameLimit < targetName.length then .error .nameTooLong
        else if sourceSlash || targetSlash then .error .notDirectory
        else if disk.entry? (targetName :: targetParent) = some .directory then
          .error .isDirectory
        else .ok (disk.moveFile (sourceName :: sourceParent) (targetName :: targetParent))
  | _, _ => .error .busy

/-- Takes away the file that a path means. -/
def remove (disk : Disk) (directory : Location) (path : Path) : Except IoError Disk := do
  match ← disk.existing (← disk.locate directory path) with
  | (_, .directory) => .error .isDirectory
  | (location, .file _) => .ok (disk.eraseEntry location)

end Disk

end TestJob
