import TestJob.Descriptor
import TestJob.Json.Writer
import TestJob.NormalizeError
import TestJob.Program
import TestJob.Submission.Result

/-!
The audit log: an event for each definition that is checked and each descriptor that is handed off,
one object on a line of its own. Every line has the same members in the same order, null where
an event has nothing to say. A log that cannot be written does not stop what it tells of.
-/

namespace TestJob

namespace Audit

/-- How the thing that an event tells of went. -/
inductive Outcome where
  | ok
  | rejected
  | error
deriving DecidableEq

/-- The name of an outcome. -/
def Outcome.label : Outcome → String
  | ok => "ok"
  | rejected => "rejected"
  | error => "error"

/-- An event, without its time. -/
structure Event where
  name : String
  definitionPath : Option String
  outcome : Outcome
  errorKind : Option String
  field : Option String
  message : Option String
  amiImageId : Option String
  agentLabel : Option String
  runStatus : Option RunStatus
  runReference : Option String
deriving DecidableEq

namespace Event

/-- An event that says nothing yet but how it went, and of which definition. -/
def plain (name : String) (path : Option Path) (outcome : Outcome) : Event :=
  ⟨name, path.map Path.display, outcome, none, none, none, none, none, none, none⟩

/-- A definition was found in order. -/
def validated (path : Option Path) (d : Descriptor) : Event :=
  { plain "job_validated" path .ok with
    amiImageId := some d.amiImageId.text, agentLabel := some d.agentLabel.text }

/-- A definition was refused for a fault. -/
def rejected (path : Option Path) (fault : NormalizeError) : Event :=
  { plain "job_rejected" path .rejected with
    errorKind := some fault.kind, field := some fault.field, message := some fault.message }

/-- Something other than a check of fields failed. -/
def failed (name : String) (path : Option Path) (message : String) : Event :=
  { plain name path .error with message := some message }

/-- A descriptor was handed off. -/
def submitted (path : Option Path) (d : Descriptor) (result : RunResult) : Event :=
  { validated path d with
    name := "job_submitted", runStatus := some result.status, runReference := result.reference }

/-- An event at a time, its members in the order in which they are written. -/
def toJson (event : Event) (milliseconds : UInt64) : Json :=
  .obj
    [ ("event", .str event.name),
      ("timestamp_ms", .num (.ofUInt64 milliseconds)),
      ("definition_path", Json.textOrNull event.definitionPath),
      ("outcome", .str event.outcome.label),
      ("error_kind", Json.textOrNull event.errorKind),
      ("field", Json.textOrNull event.field),
      ("message", Json.textOrNull event.message),
      ("ami_image_id", Json.textOrNull event.amiImageId),
      ("agent_label", Json.textOrNull event.agentLabel),
      ("run_status", Json.textOrNull (event.runStatus.map RunStatus.label)),
      ("run_reference", Json.textOrNull event.runReference) ]

/-- The line of an event at a time, without its end. -/
def line (event : Event) (milliseconds : UInt64) : String := (event.toJson milliseconds).compact

end Event

/-- Where events are written. -/
inductive Sink where
  | none
  | errorStream
  | file (handle : Handle)
deriving DecidableEq

namespace Sink

/-- Opens a file as a sink; what is in it stays. -/
def openFile (path : Path) : Program (Except IoError Sink) := do
  return (← Program.request (.openFile path .append)).map Sink.file

/-- Writes an event. Whether that works is not asked. -/
def record (sink : Sink) (event : Event) : Program Unit :=
  match sink with
  | none => return ()
  | errorStream => do
    let now ← Program.request .clock
    let _ ← Program.request (.print .error (event.line now ++ "\n"))
    return ()
  | file handle => do
    let now ← Program.request .clock
    let _ ← Program.request (.write handle (Utf8.encode (event.line now ++ "\n")))
    return ()

end Sink

end Audit

end TestJob
