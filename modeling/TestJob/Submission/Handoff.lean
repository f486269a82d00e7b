import TestJob.Descriptor
import TestJob.Json.Writer
import TestJob.Program
import TestJob.Submission.Error
import TestJob.Submission.Result

/-!
Handing a descriptor off through a file. The canonical text is written to a staging file beside the
path, and the staging file then takes the place of whatever is at the path, so a reader of the path
finds the old contents or all of the new ones. If a step fails, the staging file is taken away.
-/

namespace TestJob

/-- The canonical text of a descriptor, on one line. -/
def Descriptor.canonical (d : Descriptor) : String := Json.canonical (.obj d.toRecord)

namespace Handoff

/-- What is written for a descriptor: its canonical text and the end of the line. -/
def payload (d : Descriptor) : Bytes := Utf8.encode (d.canonical ++ "\n")

/-- The name of the staging file for a name, in a process. -/
def stagingName (name : Bytes) (processId : Nat) : Bytes :=
  Utf8.encode "." ++ name ++ Utf8.encode (".tmp." ++ toString processId)

/-- The staging file for a path that ends in a name which is text. -/
def stagingPath? (path : Path) (processId : Nat) : Option Path := do
  let name ← path.fileName?
  let _ ← Utf8.decode? name
  return path.withFileName (stagingName name processId)

/-- A step that may fail. -/
def step {α : Type} (p : Program (Except IoError α)) : ExceptT IoError Program α := ExceptT.mk p

/-- Writes contents to the staging file and puts it in its place. -/
def replace (staging path : Path) (contents : Bytes) : ExceptT IoError Program Unit := do
  let handle ← step (Program.request (.openFile staging .truncate))
  step (Program.request (.write handle contents))
  step (Program.request (.sync handle))
  step (Program.request (.rename staging path))

/-- Puts contents at a path, or leaves everything as it is. -/
def place (path : Path) (contents : Bytes) : Program (Except SubmitError Unit) := do
  let processId ← Program.request .processId
  match stagingPath? path processId with
  | none => return .error (.rejected .noFileName)
  | some staging =>
    match ← (replace staging path contents).run with
    | .ok () => return .ok ()
    | .error e =>
      let _ ← Program.request (.remove staging)
      return .error (.io e)

/-- Hands a descriptor off at a path, which the result refers to as it is displayed. -/
def submit (path : Path) (d : Descriptor) : Program (Except SubmitError RunResult) := do
  if ← Program.request (.isDirectory path) then
    return .error (.rejected (.directory path))
  else
    match ← place path (payload d) with
    | .error e => return .error e
    | .ok () => return .ok ⟨.accepted, some path.display⟩

end Handoff

end TestJob
