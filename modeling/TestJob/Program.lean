import TestJob.IoError
import TestJob.Path

/-!
Programs that ask the outside for things: files, variables, the clock. A program is a tree with a
request at each node and a branch for each answer, so it is run by whoever answers: by a machine
that is a value, or by the system. Nothing else in the library has an effect.
-/

namespace TestJob

/-- An open file; files are numbered in the order in which they are opened. -/
structure Handle where
  index : Nat
deriving DecidableEq

/-- What becomes of the contents of a file that is opened for writing. -/
inductive OpenMode where
  /-- They are dropped. -/
  | truncate
  /-- They stay, and everything is written after them. -/
  | append
deriving DecidableEq

/-- Where a text is printed. -/
inductive OutputStream where
  | output
  | error
deriving DecidableEq

/-- A question to the outside. -/
inductive Request where
  /-- The contents of a file. -/
  | read (path : Path)
  /-- Whether a path leads to a directory. -/
  | isDirectory (path : Path)
  /-- Opens a file for writing; it is made if it is not there. -/
  | openFile (path : Path) (mode : OpenMode)
  | write (handle : Handle) (contents : Bytes)
  /-- Waits until what was written is kept. -/
  | sync (handle : Handle)
  /-- Puts the file of one path in the place of another. -/
  | rename (source target : Path)
  | remove (path : Path)
  /-- The value of a variable of the environment. -/
  | variableValue (name : Bytes)
  /-- Every variable of the environment. -/
  | environment
  | print (stream : OutputStream) (text : String)
  /-- The number of the running process. -/
  | processId
  /-- Milliseconds since the epoch. -/
  | clock
deriving DecidableEq

/-- What a request is answered with. -/
abbrev Request.Answer : Request → Type
  | read _ => Except IoError Bytes
  | isDirectory _ => Bool
  | openFile _ _ => Except IoError Handle
  | write _ _ => Except IoError Unit
  | sync _ => Except IoError Unit
  | rename _ _ => Except IoError Unit
  | remove _ => Except IoError Unit
  | variableValue _ => Option Bytes
  | environment => List (Bytes × Bytes)
  | print _ _ => Except IoError Unit
  | processId => Nat
  | clock => UInt64

/-- A program that ends in a value. -/
inductive Program (α : Type) where
  | done (value : α)
  | ask (request : Request) (next : request.Answer → Program α)

namespace Program

variable {α β : Type}

/-- Runs a program, then the one that its value chooses. -/
def bind : Program α → (α → Program β) → Program β
  | done value, f => f value
  | ask request next, f => ask request fun answer => (next answer).bind f

instance instMonad : Monad Program where
  pure := done
  bind := bind

/-- The program of one request. -/
def request (r : Request) : Program r.Answer := ask r done

@[simp] theorem bind_done (p : Program α) : p.bind done = p := by
  induction p with
  | done value => rfl
  | ask r next ih => simp only [bind, ih]

theorem bind_assoc {γ : Type} (p : Program α) (f : α → Program β) (g : β → Program γ) :
    (p.bind f).bind g = p.bind fun value => (f value).bind g := by
  induction p with
  | done value => rfl
  | ask r next ih => simp only [bind, ih]

instance instLawfulMonad : LawfulMonad Program :=
  LawfulMonad.mk' Program
    (fun p => bind_done p)
    (fun _ _ => rfl)
    (fun p f g => bind_assoc p f g)

/-- A program that may fail, with its failures told as others. -/
def orElseFail {ε δ : Type} (p : Program (Except δ α)) (f : δ → ε) : ExceptT ε Program α :=
  ExceptT.mk (p.bind fun result => done (result.mapError f))

end Program

end TestJob
