import TestJob.Json.Node
import TestJob.Json.Value

/-!
From a JSON text to a value. A number written as an integer is kept exactly if a word of 64 bits
holds it, signed or unsigned; every other number becomes the nearest float and must be finite. Of
several members with one key the last counts. Containers nest up to a limit.
-/

namespace TestJob.Json

/-- The number that a literal stands for. Minus zero is a float, which alone keeps the sign. -/
def Literal.number? (l : Literal) : Option Number :=
  let n : Int := if l.value.negative then -l.value.digits else l.value.digits
  if h : l.integral ∧ ¬(l.value.negative ∧ l.value.digits = 0) ∧ Number.Fits n then
    some (.int n h.2.2)
  else l.value.toBinary64?.map .float

namespace Node

mutual

/-- The value of a node that nests at most `depth` containers. -/
def value? (depth : Nat) : Node → Option Json
  | .null => some .null
  | .bool value => some (.bool value)
  | .number literal => literal.number?.map .num
  | .text value => value.map .str
  | .array items =>
    match depth with
    | 0 => none
    | depth + 1 => (items? depth [] items).map .arr
  | .object members =>
    match depth with
    | 0 => none
    | depth + 1 => (members? depth [] members).map .obj

/-- The values of nodes, put after those already read (last first). -/
def items? (depth : Nat) (read : List Json) : List Node → Option (List Json)
  | [] => some read.reverse
  | item :: rest =>
    match value? depth item with
    | some value => items? depth (value :: read) rest
    | none => none

/-- The members of an object, inserted into those already read. -/
def members? (depth : Nat) (read : Record) : List (Option String × Node) → Option Record
  | [] => some read
  | (key, node) :: rest =>
    match key, value? depth node with
    | some key, some value => members? depth (read.insert key value) rest
    | _, _ => none

end

end Node

/-- How many containers may be open at once in a text. -/
def nestingLimit : Nat := 127

/-- The value of a text that nests at most `depth` containers. -/
def readWithin? (depth : Nat) (text : String) : Option Json :=
  Node.read? text.toList >>= Node.value? depth

/-- The value of a text. -/
def read? (text : String) : Option Json := readWithin? nestingLimit text

end TestJob.Json
