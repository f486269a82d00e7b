import TestJob.Definition.Basic
import TestJob.Program

/-!
Loading a definition: find its path, check it, read the file, and read the definition in it. The
first step that fails gives the error.
-/

namespace TestJob.Definition

/-- A step that fails with a fault of the definition. -/
def step {α : Type} (result : Except DefinitionFault α) : ExceptT DefinitionError Program α :=
  ExceptT.mk (.done (result.mapError .invalid))

/-- Reads a file. -/
def readFile (path : Path) : ExceptT DefinitionError Program Bytes :=
  Program.orElseFail (Program.request (.read path)) .io

/-- The definition at a path, at the path that the environment names, or at the default path. -/
def load (given : Option Path) : ExceptT DefinitionError Program Definition := do
  let value ← ExceptT.lift (Program.request (.variableValue pathVariable))
  let path ← step (resolve given value)
  step (checkPath path)
  let contents ← readFile path
  ExceptT.mk (.done (ofContents path contents))

/-- Fills in the environment of a definition from the variables of the process. -/
def captureVariables (definition : Definition) (filter : Capture) :
    ExceptT DefinitionError Program Definition := do
  let listing ← ExceptT.lift (Program.request .environment)
  step (definition.capture filter listing)

/-- The descriptor of the definition at a path, with captured variables if a filter is given. -/
def loadDescriptor (given : Option Path) (filter : Option Capture) :
    ExceptT DefinitionError Program Descriptor := do
  let definition ← load given
  let definition ←
    match filter with
    | none => pure definition
    | some filter => definition.captureVariables filter
  ExceptT.mk (.done definition.toDescriptor)

end TestJob.Definition
