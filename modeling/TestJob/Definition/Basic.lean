import TestJob.Definition.Capture
import TestJob.Definition.Format
import TestJob.Json.Reader
import TestJob.Normalize
import TestJob.Toml.Reader

/-!
A job definition: a record as somebody wrote it, with the file it comes from. `Definition.parse`
reads one from a text, `Definition.ofContents` from the bytes of a file under its limits,
`Definition.capture` fills in the environment if the record leaves it out, and
`Definition.toDescriptor` checks the fields.
-/

namespace TestJob

/-- A record that has not been checked yet, and the path of the file it was read from. -/
structure Definition where
  record : Record
  source : Option Path
deriving DecidableEq

namespace Definition

/-- The definition of a record. -/
def ofRecord (record : Record) : Definition := ⟨record, none⟩

/-- The value that a text in a format stands for. -/
def readText (text : String) : DefinitionFormat → Except DefinitionError Json
  | .toml =>
    match Toml.read? text with
    | none => .error (.unreadable "not a TOML document")
    | some members => (Toml.toJson (.table members)).mapError fun e => .invalid (.notFinite e)
  | .json =>
    match Json.read? text with
    | none => .error (.unreadable "not a JSON document")
    | some value => .ok value

/-- The definition that a text holds. -/
def parse (text : String) (format : DefinitionFormat) : Except DefinitionError Definition := do
  match ← readText text format with
  | .obj record => .ok (ofRecord record)
  | _ => .error (.invalid .notTable)

/-- The definition that the contents of a file hold. -/
def ofContents (path : Path) (contents : Bytes) : Except DefinitionError Definition := do
  if sizeLimit < contents.length then .error (.invalid .tooLarge)
  match Utf8.decode? contents with
  | none => .error (.invalid .notUtf8)
  | some text =>
    let definition ← parse text (.ofPath path)
    return ⟨definition.record, some path⟩

/-- Fills in the environment from a listing of variables. One that the record has stays. -/
def capture (definition : Definition) (filter : Capture) (listing : List (Bytes × Bytes)) :
    Except DefinitionFault Definition :=
  match definition.record.lookup FieldName.environment with
  | some _ => .ok definition
  | none => do
    let taken ← filter.collect listing
    return ⟨Members.insert FieldName.environment (.obj taken) definition.record, definition.source⟩

/-- The descriptor of a definition. -/
def toDescriptor (definition : Definition) : Except DefinitionError Descriptor :=
  definition.record.normalize.mapError .rejected

/-- The name of a definition file when none is given. -/
def defaultPath : Path := .ofString "ci-job.toml"

/-- The variable that names a definition file. -/
def pathVariable : Bytes := Utf8.encode "CI_JOB_DEFINITION"

/-- The path of the file to read: the one given, else the value of the variable, else the default.
Only the length of the variable is limited here. -/
def resolve (given : Option Path) (value : Option Bytes) : Except DefinitionFault Path :=
  match given, value with
  | some path, _ => .ok path
  | none, some bytes =>
    if Path.lengthLimit < bytes.length then .error .pathTooLong else .ok ⟨bytes⟩
  | none, none => .ok defaultPath

/-- Refuses a path that is too long as it is displayed, in whole or in a segment. -/
def checkPath (path : Path) : Except DefinitionFault Unit :=
  if Path.lengthLimit < path.display.utf8ByteSize then .error .pathTooLong
  else if path.segments.any fun s => Path.segmentLimit < (Utf8.lossy s).utf8ByteSize then
    .error .segmentTooLong
  else .ok ()

end Definition

end TestJob
