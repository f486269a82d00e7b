import TestJob.Text.Utf8

/-!
Paths of files. A path is raw bytes, segments between slashes; it need not be text, and for display
each ill-formed part of it becomes U+FFFD. Empty segments and `.` at the end of a path do not count
when its last name is asked for.
-/

namespace TestJob

/-- A path. -/
structure Path where
  bytes : Bytes
deriving DecidableEq

namespace Path

/-- The path of a text. -/
def ofString (s : String) : Path := ⟨Utf8.encode s⟩

/-- The path as a text for display. -/
def display (p : Path) : String := Utf8.lossy p.bytes

/-- The slash between two segments. -/
def separator : UInt8 := 0x2F

/-- The segment for "this directory". -/
def here : Bytes := [0x2E]

/-- The segment for "the directory above". -/
def above : Bytes := [0x2E, 0x2E]

/-- Puts a byte in front of segments. -/
def prepend (b : UInt8) : List Bytes → List Bytes
  | segment :: rest => if b = separator then [] :: segment :: rest else (b :: segment) :: rest
  | [] => [[b]]

/-- The parts of a path between its slashes, empty ones too; an empty path has one. -/
def segments (p : Path) : List Bytes := p.bytes.foldr prepend [[]]

/-- The path with the given segments. -/
def ofSegments (segments : List Bytes) : Path := ⟨List.intercalate [separator] segments⟩

/-- Whether a segment goes nowhere. -/
def isIdle (segment : Bytes) : Bool := segment = [] || segment = here

/-- The segments without idle ones at the end; the first one always stays. -/
def dropIdleEnd : List Bytes → List Bytes
  | [] => []
  | first :: rest => first :: (rest.reverse.dropWhile isIdle).reverse

/-- The name that a path ends in, unless that is a way through the tree. -/
def fileName? (p : Path) : Option Bytes :=
  (dropIdleEnd p.segments).getLast?.filter fun name => !isIdle name && name ≠ above

/-- The path with another name in the place of its last one. -/
def withFileName (p : Path) (name : Bytes) : Path :=
  ofSegments (dropIdleEnd (dropIdleEnd p.segments).dropLast ++ [name])

/-- The dot before an extension. -/
def dot : UInt8 := 0x2E

/-- What follows the last dot of the last name; a dot in front of a name does not count. -/
def extension? (p : Path) : Option Bytes := do
  let name ← p.fileName?
  let backwards := name.reverse
  match backwards.dropWhile (· ≠ dot) with
  | [] => none
  | [_] => none
  | _ => some (backwards.takeWhile (· ≠ dot)).reverse

/-- How many bytes the whole path may have when displayed. -/
def lengthLimit : Nat := 4096

/-- How many bytes a segment may have when displayed. -/
def segmentLimit : Nat := 255

end Path

end TestJob
