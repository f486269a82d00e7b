import TestJob.Json.Reader
import TestJob.Text.Measure

/-!
Identifiers that a job carries. They are texts of their own types, without a rule on the text:
what they may hold is checked once, when a record is normalized.
-/

namespace TestJob

/-- What an identifier names. -/
inductive IdentifierKind where
  | amiImage
  | agentLabel
  | branch
  | split
deriving DecidableEq

/-- A text that names something of a kind. -/
structure Identifier (kind : IdentifierKind) where
  text : String
deriving DecidableEq

/-- The machine image that a test machine is made from. -/
abbrev AmiImageId := Identifier .amiImage

/-- The label by which the scheduler places a job. -/
abbrev AgentLabel := Identifier .agentLabel

/-- The branch with the definitions of the golden images. -/
abbrev BranchName := Identifier .branch

/-- A part of the test suite. -/
abbrev SplitName := Identifier .split

namespace Identifier

variable {kind : IdentifierKind}

/-- An identifier is written as its text. -/
def toJson (id : Identifier kind) : Json := .str id.text

/-- Only a text is read as an identifier. -/
def ofJson? : Json → Option (Identifier kind)
  | .str text => some ⟨text⟩
  | _ => none

/-- The identifier in the middle of a column. -/
def centred (width : Nat) (fill : Char) (id : Identifier kind) : String :=
  Text.centre width fill id.text

/-- The beginning of the identifier. -/
def cut (length : Nat) (id : Identifier kind) : String := Text.cut length id.text

/-- Identifiers in the order of their texts, each once. -/
def distinct (ids : List (Identifier kind)) : List (Identifier kind) :=
  (Members.ofList (ids.map fun id => (id.text, id))).map Prod.snd

end Identifier

end TestJob
