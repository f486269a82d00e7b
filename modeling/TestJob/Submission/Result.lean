import TestJob.Json.Node
import TestJob.Json.Writer

/-!
What the engine reports of a run: a status and, if it issues one, a reference. The written form is
one object. Reading is more generous: other members are passed over whatever their values are, as
long as the text is JSON at all; a status may be an object with a null; the two parts may
be the items of an array.
-/

namespace TestJob

/-- How a run stands. -/
inductive RunStatus where
  | accepted
  | succeeded
  | failed
deriving DecidableEq

namespace RunStatus

/-- The name of a status. -/
def label : RunStatus → String
  | accepted => "accepted"
  | succeeded => "succeeded"
  | failed => "failed"

/-- The status of a name. -/
def ofLabel? (s : String) : Option RunStatus :=
  [accepted, succeeded, failed].find? fun status => status.label = s

/-- The status that a node of a text stands for. -/
def ofNode? : Json.Node → Option RunStatus
  | .text (some s) => ofLabel? s
  | .object [(some s, .null)] => ofLabel? s
  | _ => none

end RunStatus

/-- The result of a submission. -/
structure RunResult where
  status : RunStatus
  reference : Option String
deriving DecidableEq

namespace RunResult

/-- The members of a result, in the order in which they are written. -/
def toJson (result : RunResult) : Json :=
  .obj [("status", .str result.status.label), ("reference", Json.textOrNull result.reference)]

/-- The text of a result. -/
def text (result : RunResult) : String := result.toJson.compact

/-- The reference that a node of a text stands for. -/
def referenceOf? : Json.Node → Option (Option String)
  | .null => some none
  | .text (some s) => some (some s)
  | _ => none

/-- The members of a result that have been read. -/
structure Draft where
  status : Option RunStatus
  reference : Option (Option String)

/-- Reads a member. A member of the result must not come twice, and every key must be text. -/
def Draft.take? (draft : Draft) : Option String × Json.Node → Option Draft
  | (none, _) => none
  | (some key, node) =>
    if key = "status" then
      if draft.status.isSome then none
      else (RunStatus.ofNode? node).map fun status => { draft with status := some status }
    else if key = "reference" then
      if draft.reference.isSome then none
      else (referenceOf? node).map fun reference => { draft with reference := some reference }
    else some draft

/-- The result that a node of a text stands for. -/
def ofNode? : Json.Node → Option RunResult
  | .object members => do
    let draft ← members.foldlM Draft.take? ⟨none, none⟩
    return ⟨← draft.status, draft.reference.join⟩
  | .array [status, reference] => do
    return ⟨← RunStatus.ofNode? status, ← referenceOf? reference⟩
  | _ => none

/-- The result that a text stands for. -/
def read? (text : String) : Option RunResult := Json.Node.read? text.toList >>= ofNode?

end RunResult

end TestJob
