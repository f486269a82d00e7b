import TestJob.Disk
import TestJob.Program

/-!
A machine that answers a program: a disk, the files that are open, the variables, a clock and the
two streams that texts are printed on. Running a program on a machine is a function, so what a
command does can be stated and computed. Whatever the system can refuse can be planned to fail: the
reading of a path, any change of the disk, any text that is printed. A write or a text that fails
may have been taken in part.
-/

namespace TestJob

/-- An open file: its object, and the offset of the next write unless writes go to the end. -/
structure OpenFile where
  object : Nat
  offset : Option Nat
deriving DecidableEq

/-- A planned failure. A write or a text that fails has left its first bytes, `stored` of them. -/
structure Failure where
  error : IoError
  stored : Nat
deriving DecidableEq

/-- The outside of a program. -/
structure Machine where
  disk : Disk
  /-- The directory that relative paths are followed from. -/
  directory : Location
  /-- The variables of the environment, in the order in which they are listed. -/
  environment : List (Bytes × Bytes)
  processId : Nat
  /-- What the clock gives when it is read next, and then; when the list is over, zero. -/
  times : List UInt64
  opened : List OpenFile
  /-- What the two streams have taken. -/
  output : Bytes
  error : Bytes
  /-- The paths that cannot be read, and why. -/
  unreadable : List (Path × IoError)
  /-- What the next changes of the disk meet; when the list is over, nothing fails. -/
  failures : List (Option Failure)
  /-- What the next texts on the output meet, and on the error stream. -/
  outputFailures : List (Option Failure)
  errorFailures : List (Option Failure)
deriving DecidableEq

namespace Machine

/-- A machine on which nothing has happened yet. -/
def start (disk : Disk) (directory : Location) (environment : List (Bytes × Bytes))
    (processId : Nat) : Machine :=
  ⟨disk, directory, environment, processId, [], [], [], [], [], [], [], []⟩

/-- The contents of a file, unless its path cannot be read. -/
def read (m : Machine) (path : Path) : Except IoError Bytes :=
  match m.unreadable.lookup path with
  | some error => .error error
  | none => m.disk.read m.directory path

/-- The machine with its next planned failure taken off. -/
def advance (m : Machine) : Machine := { m with failures := m.failures.tail }

/-- The failure that the next change meets. -/
def failure? (m : Machine) : Option Failure := m.failures.head?.join

/-- Changes the disk, unless a failure is planned. -/
def change (m : Machine) (result : Except IoError Disk) : Except IoError Unit × Machine :=
  match m.failure?, result with
  | some failure, _ => (.error failure.error, m.advance)
  | none, .error e => (.error e, m.advance)
  | none, .ok disk => (.ok (), { m.advance with disk })

/-- Opens a file. -/
def openFile (m : Machine) (path : Path) (mode : OpenMode) : Except IoError Handle × Machine :=
  match m.failure?, m.disk.openFile m.directory path (mode = .truncate) with
  | some failure, _ => (.error failure.error, m.advance)
  | none, .error e => (.error e, m.advance)
  | none, .ok (object, disk) =>
    let offset := if mode = .truncate then some 0 else none
    (.ok ⟨m.opened.length⟩, { m.advance with disk, opened := m.opened ++ [⟨object, offset⟩] })

/-- Stores bytes through an open file. -/
def store (m : Machine) (handle : Handle) (file : OpenFile) (bytes : Bytes) : Machine :=
  let contents := m.disk.contents file.object
  match file.offset with
  | none => { m with disk := m.disk.setContents file.object (contents ++ bytes) }
  | some offset =>
    { m with
      disk := m.disk.setContents file.object (Disk.overlay contents offset bytes)
      opened := m.opened.set handle.index ⟨file.object, some (offset + bytes.length)⟩ }

/-- Writes bytes through a handle. -/
def write (m : Machine) (handle : Handle) (bytes : Bytes) : Except IoError Unit × Machine :=
  match m.opened[handle.index]? with
  | none => (.error (.other "Bad file descriptor (os error 9)"), m.advance)
  | some file =>
    match m.failure? with
    | some failure =>
      (.error failure.error, m.advance.store handle file (bytes.take failure.stored))
    | none => (.ok (), m.advance.store handle file bytes)

/-- The machine after a stream has taken bytes, with the next planned failure of it taken off. -/
def emit (m : Machine) (stream : OutputStream) (bytes : Bytes) : Machine :=
  match stream with
  | .output => { m with output := m.output ++ bytes, outputFailures := m.outputFailures.tail }
  | .error => { m with error := m.error ++ bytes, errorFailures := m.errorFailures.tail }

/-- The failure that the next text on a stream meets. -/
def printFailure? (m : Machine) : OutputStream → Option Failure
  | .output => m.outputFailures.head?.join
  | .error => m.errorFailures.head?.join

/-- Prints a text. -/
def print (m : Machine) (stream : OutputStream) (text : String) : Except IoError Unit × Machine :=
  match m.printFailure? stream with
  | some failure => (.error failure.error, m.emit stream ((Utf8.encode text).take failure.stored))
  | none => (.ok (), m.emit stream (Utf8.encode text))

/-- The answer to a request, and the machine after it. -/
def answer (m : Machine) : (request : Request) → request.Answer × Machine
  | .read path => (m.read path, m)
  | .isDirectory path => (m.disk.isDirectory m.directory path, m)
  | .openFile path mode => m.openFile path mode
  | .write handle contents => m.write handle contents
  | .sync _ => m.change (.ok m.disk)
  | .rename source target => m.change (m.disk.rename m.directory source target)
  | .remove path => m.change (m.disk.remove m.directory path)
  | .variableValue name => ((m.environment.find? fun v => v.1 = name).map Prod.snd, m)
  | .environment => (m.environment, m)
  | .print stream text => m.print stream text
  | .processId => (m.processId, m)
  | .clock => (m.times.headD 0, { m with times := m.times.tail })

end Machine

namespace Program

variable {α β : Type}

/-- Runs a program on a machine. -/
def run : Program α → Machine → α × Machine
  | done value, m => (value, m)
  | ask request next, m => (next (m.answer request).1).run (m.answer request).2

@[simp] theorem run_pure (value : α) (m : Machine) : (pure value : Program α).run m = (value, m) :=
  rfl

@[simp] theorem run_bind (p : Program α) (f : α → Program β) (m : Machine) :
    (p >>= f).run m = (f (p.run m).1).run (p.run m).2 := by
  induction p generalizing m with
  | done value => rfl
  | ask r next ih => exact ih _ _

@[simp] theorem run_request (r : Request) (m : Machine) : (request r).run m = m.answer r := rfl

/-- The machine at the start of a run and after each request. -/
def states : Program α → Machine → List Machine
  | done _, m => [m]
  | ask request next, m => m :: (next (m.answer request).1).states (m.answer request).2

end Program

end TestJob
