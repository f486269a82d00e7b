import TestJob.Audit
import TestJob.CommandLine.Invocation
import TestJob.Definition.Load
import TestJob.Reference.DefinitionPage
import TestJob.Reference.DefinitionSchema
import TestJob.Reference.Example
import TestJob.Submission.Handoff

/-!
What an invocation does. Its audit log is opened first, then the command runs: it prints one thing
on the output, or fails with one message on the error stream. Each check of a definition and each
hand-off is recorded in the audit log as it ends.
-/

namespace TestJob

/-- How a process ends. -/
inductive ExitCode where
  | success
  | failure
  /-- The command line is used wrongly. -/
  | usage
deriving DecidableEq

/-- The number that stands for an exit code. -/
def ExitCode.number : ExitCode → UInt32
  | success => 0
  | failure => 1
  | usage => 2

/-- Why a command fails. -/
inductive CommandError where
  | auditLog (path : Path) (error : IoError)
  | definition (error : DefinitionError)
  | submission (error : SubmitError)
  | page (error : Reference.PageError)
  /-- A line was not written to the output. -/
  | output (error : IoError)
deriving DecidableEq

/-- The error in words. -/
def CommandError.message : CommandError → String
  | auditLog path error => "failed to open audit log " ++ path.display ++ ": " ++ error.message
  | definition error => error.message
  | submission error => error.message
  | page error => error.message
  | output error => "failed to write to stdout: " ++ error.message

namespace Command

/-- Prints a line. -/
def printLine (stream : OutputStream) (line : String) : Program (Except IoError Unit) :=
  Program.request (.print stream (line ++ "\n"))

/-- Prints the line of a command on the output; a command whose line cannot be written fails. -/
def writeLine (line : String) : ExceptT CommandError Program Unit :=
  Program.orElseFail (printLine .output line) .output

/-- Loads the definition that is chosen, and captures variables if prefixes are given. -/
def loadChoice (choice : DefinitionChoice) : ExceptT DefinitionError Program Definition := do
  let definition ← Definition.load choice.path
  if choice.prefixes = [] then return definition
  else
    let filter ← Definition.step (Capture.ofPrefixes choice.prefixes)
    definition.captureVariables filter

/-- The descriptor of the definition that is chosen, with the file it comes from. -/
def check (sink : Audit.Sink) (choice : DefinitionChoice) :
    Program (Except CommandError (Descriptor × Option Path)) := do
  match ← (loadChoice choice).run with
  | .error e =>
    sink.record (.failed "job_load_failed" choice.path e.message)
    return .error (.definition e)
  | .ok definition =>
    match definition.record.normalize with
    | .ok d =>
      sink.record (.validated definition.source d)
      return .ok (d, definition.source)
    | .error fault =>
      sink.record (.rejected definition.source fault)
      return .error (.definition (.rejected fault))

/-- The line that tells of a descriptor in order. -/
def validLine (d : Descriptor) : String :=
  "job definition valid: " ++ d.amiImageId.text ++ " on " ++ d.agentLabel.text ++ " (" ++
    toString d.testSplits.length ++ " splits)"

/-- The line that tells of a run. -/
def runLine (result : RunResult) : String :=
  "run " ++ result.status.label ++ ": " ++ result.reference.getD "-"

/-- How a process ends whose run has a status. -/
def exitCode : RunStatus → ExitCode
  | .failed => .failure
  | _ => .success

/-- Hands a descriptor off, and records how that went. -/
def handOff (sink : Audit.Sink) (source : Option Path) (path : Path) (d : Descriptor) :
    Program (Except CommandError RunResult) := do
  match ← Handoff.submit path d with
  | .error e =>
    sink.record (.failed "job_submit_failed" source e.message)
    return .error (.submission e)
  | .ok result =>
    sink.record (.submitted source d result)
    return .ok result

/-- Does what a command asks for. -/
def perform (sink : Audit.Sink) : Command → ExceptT CommandError Program ExitCode
  | validate choice => do
    let (d, _) ← ExceptT.mk (check sink choice)
    writeLine (validLine d)
    return .success
  | normalize choice => do
    let (d, _) ← ExceptT.mk (check sink choice)
    writeLine d.canonical
    return .success
  | submit choice path => do
    let (d, source) ← ExceptT.mk (check sink choice)
    let result ← ExceptT.mk (handOff sink source path d)
    writeLine (runLine result)
    return exitCode result.status
  | schema => do
    writeLine Definition.schema.toJson.indented
    return .success
  | sample => do
    writeLine (Text.trimEnd Reference.exampleText)
    return .success
  | page .show => do
    writeLine (Text.trimEnd Reference.page)
    return .success
  | page (.write path) => do
    (Reference.writePage (some path)).adapt .page
    return .success
  | page (.check path) => do
    (Reference.checkPage (some path)).adapt .page
    writeLine ("docs up to date: " ++ path.display)
    return .success

end Command

namespace Invocation

/-- The path that means the error stream. -/
def errorStream : Path := ⟨[CommandLine.dash]⟩

/-- The sink for an audit log. -/
def openSink : Option Path → Program (Except CommandError Audit.Sink)
  | none => return .ok .none
  | some path =>
    if path = errorStream then return .ok .errorStream
    else do return (← Audit.Sink.openFile path).mapError (.auditLog path)

/-- Runs an invocation to its end. -/
def run (invocation : Invocation) : Program ExitCode := do
  let result ← ExceptT.run do
    let sink ← ExceptT.mk (openSink invocation.auditLog)
    invocation.command.perform sink
  match result with
  | .ok code => return code
  | .error e =>
    let _ ← Command.printLine .error e.message
    return .failure

end Invocation

/-- What is printed when a command line is used wrongly. -/
def usage : String :=
  "usage: ci-job [--audit-log PATH] (validate | normalize | submit | schema | example | docs) ..."

/-- Runs the program on a command line. -/
def runArguments (arguments : List Bytes) : Program ExitCode :=
  match Invocation.ofArguments? arguments with
  | none => do
    let _ ← Command.printLine .error usage
    return .usage
  | some invocation => invocation.run

end TestJob
