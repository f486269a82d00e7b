import TestJob.CommandLine.Run

/-!
The command line on a real system: every request of the program is answered by the system.
-/

namespace TestJob.System

/-- The number and the words of a failure of the system. -/
def codeOf : IO.Error → Option (UInt32 × String)
  | .noFileOrDirectory _ code details => some (code, details)
  | .alreadyExists _ code details => some (code, details)
  | .invalidArgument _ code details => some (code, details)
  | .permissionDenied _ code details => some (code, details)
  | .resourceExhausted _ code details => some (code, details)
  | .inappropriateType _ code details => some (code, details)
  | .noSuchThing _ code details => some (code, details)
  | .resourceBusy code details => some (code, details)
  | .hardwareFault code details => some (code, details)
  | .unsupportedOperation code details => some (code, details)
  | .otherError code details => some (code, details)
  | _ => none

/-- A failure of the system as a failure of the file system. -/
def ioError (e : IO.Error) : IoError :=
  match codeOf e with
  | none => .other (toString e)
  | some (number, details) =>
    -- Some calls of the system give the number with its sign turned.
    let code := if number < 0x80000000 then number else 0 - number
    if code = 2 then .notFound
    else if code = 16 then .busy
    else if code = 20 then .notDirectory
    else if code = 21 then .isDirectory
    else if code = 36 then .nameTooLong
    else .other (details ++ " (os error " ++ toString code.toNat ++ ")")

/-- Does something that may fail. -/
def attempt {α : Type} (action : IO α) : IO (Except IoError α) := do
  try return .ok (← action)
  catch e => return .error (ioError e)

/-- Does something with a path, if it is a text without the character zero. -/
def withPath {α : Type} (path : Path) (action : String → IO α) : IO (Except IoError α) :=
  if 0 ∈ path.bytes then return .error .zeroByte
  else
    match Utf8.decode? path.bytes with
    | none => return .error (.other "path is not text")
    | some "" => return .error .notFound
    | some name => attempt (action name)

/-- The parts of a row of variables that end in the byte zero, as names and values. -/
def variablesOf (row : Bytes) : List (Bytes × Bytes) :=
  let entries := (row.foldr (fun b parts =>
    match parts with
    | part :: rest => if b = 0 then [] :: part :: rest else (b :: part) :: rest
    | [] => [[b]]) [[]])
  (entries.filter (· ≠ [])).map fun entry =>
    (entry.takeWhile (· ≠ CommandLine.equalsSign),
      (entry.dropWhile (· ≠ CommandLine.equalsSign)).drop 1)

/-- The variables of this process. -/
def environment : IO (List (Bytes × Bytes)) := do
  return variablesOf (← IO.FS.readBinFile "/proc/self/environ").toList

/-- The number of this process. -/
def processId : IO Nat := do
  let row ← IO.FS.readFile "/proc/self/stat"
  return (String.ofList (row.toList.takeWhile Char.isDigit)).toNat?.getD 0

/-- The number that follows a word in a text, or zero. -/
def numberAfter (word text : String) : Nat :=
  match text.splitOn word with
  | _ :: rest :: _ =>
    let digits := (rest.toList.dropWhile (· = ' ')).takeWhile Char.isDigit
    (String.ofList digits).toNat?.getD 0
  | _ => 0

/-- Milliseconds since the epoch: when the system was started, and for how long it has run. -/
def clock : IO UInt64 := do
  let started := numberAfter "btime" (← IO.FS.readFile "/proc/stat")
  let running := (← IO.FS.readFile "/proc/uptime").toList.takeWhile (· ≠ ' ')
  let centiseconds := (String.ofList (running.filter (· ≠ '.'))).toNat?.getD 0
  return UInt64.ofNat (1000 * started + 10 * centiseconds)

/-- The handle at a number, or a failure. -/
def withHandle {α : Type} (handles : Array IO.FS.Handle) (handle : Handle)
    (action : IO.FS.Handle → IO α) : IO (Except IoError α) :=
  match handles[handle.index]? with
  | none => return .error (.other "Bad file descriptor (os error 9)")
  | some h => attempt (action h)

/-- Answers a request; the open files are kept in the order in which they were opened. -/
def serve (handles : Array IO.FS.Handle) :
    (request : Request) → IO (request.Answer × Array IO.FS.Handle)
  | .read path => do
    return (← withPath path fun name => do return (← IO.FS.readBinFile name).toList, handles)
  | .isDirectory path => do
    let found ← withPath path fun name => do return ← ((← IO.currentDir) / name).isDir
    return (match found with | .ok b => b | .error _ => false, handles)
  | .openFile path mode => do
    let opened ← withPath path fun name =>
      IO.FS.Handle.mk name (if mode = .truncate then .write else .append)
    match opened with
    | .ok h => return (.ok ⟨handles.size⟩, handles.push h)
    | .error e => return (.error e, handles)
  | .write handle contents => do
    let written ← withHandle handles handle fun h => do
      h.write ⟨contents.toArray⟩
      h.flush
    return (written, handles)
  | .sync handle => do return (← withHandle handles handle fun h => h.flush, handles)
  | .rename source target => do
    let renamed ← withPath source fun old => withPath target fun new => IO.FS.rename old new
    return (renamed.bind id, handles)
  | .remove path => do return (← withPath path fun name => IO.FS.removeFile name, handles)
  | .variableValue name => do
    return (((← environment).find? fun v => v.1 = name).map Prod.snd, handles)
  | .environment => do return (← environment, handles)
  | .print stream text => do
    let target ← if stream = .output then IO.getStdout else IO.getStderr
    let written ← attempt do
      target.putStr text
      target.flush
    return (written, handles)
  | .processId => do return (← processId, handles)
  | .clock => do return (← clock, handles)

/-- Runs a program on the system. -/
def perform {α : Type} (handles : Array IO.FS.Handle) : Program α → IO α
  | .done value => return value
  | .ask request next => do
    let (answer, handles) ← serve handles request
    perform handles (next answer)

end TestJob.System

/-- Runs the command line and gives its exit code. -/
def main (arguments : List String) : IO UInt32 := do
  let program := TestJob.runArguments (arguments.map TestJob.Utf8.encode)
  return (← TestJob.System.perform #[] program).number
