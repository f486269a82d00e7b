import TestJob.Path

/-!
The two formats of definition files. The extension of a file decides: `json`, in letters of either
case, is JSON and everything else is TOML.
-/

namespace TestJob

/-- The format of a definition. -/
inductive DefinitionFormat where
  | toml
  | json
deriving DecidableEq

namespace DefinitionFormat

/-- The small letter of a letter of ASCII. -/
def toSmall (b : UInt8) : UInt8 := if 0x41 ≤ b ∧ b ≤ 0x5A then b + 0x20 else b

/-- The extension of JSON files. -/
def jsonExtension : Bytes := Utf8.encode "json"

/-- The format of the file at a path. -/
def ofPath (path : Path) : DefinitionFormat :=
  match path.extension? with
  | some extension => if extension.map toSmall = jsonExtension then json else toml
  | none => toml

end DefinitionFormat

end TestJob
