import TestJob.Json.Token

/-!
The tree of a JSON text, before any limit or rule on its values: numbers as written, members in
their order with repeated keys, texts that may hold half a surrogate pair. `Node.read?` builds it
with one step for each token and a stack of the containers that are open, so nesting of any depth
is read with bounded recursion.
-/

namespace TestJob.Json

/-- A value as it is written. -/
inductive Node where
  | null
  | bool (value : Bool)
  | number (literal : Literal)
  | text (value : Option String)
  | array (items : List Node)
  | object (members : List (Option String × Node))

namespace Node

/-- A container that is open: what it holds so far, last first, and the key of the member whose
value comes next. -/
inductive Frame where
  | array (items : List Node)
  | object (members : List (Option String × Node)) (key : Option String)

/-- What may come next, with the open containers, innermost first. -/
inductive Builder where
  | value (outer : List Frame)
  | arrayBegun (outer : List Frame)
  | afterItem (outer : List Frame) (items : List Node)
  | objectBegun (outer : List Frame)
  | key (outer : List Frame) (members : List (Option String × Node))
  | afterKey (outer : List Frame) (members : List (Option String × Node)) (key : Option String)
  | afterMember (outer : List Frame) (members : List (Option String × Node))
  | whole (node : Node)

/-- Gives a finished value to the innermost open container. -/
def deliver (outer : List Frame) (node : Node) : Builder :=
  match outer with
  | [] => .whole node
  | .array items :: outer => .afterItem outer (node :: items)
  | .object members key :: outer => .afterMember outer ((key, node) :: members)

/-- The first token of a value. -/
def begin? (outer : List Frame) : Token → Option Builder
  | .null => some (deliver outer .null)
  | .bool value => some (deliver outer (.bool value))
  | .number literal => some (deliver outer (.number literal))
  | .text value => some (deliver outer (.text value))
  | .beginArray => some (.arrayBegun outer)
  | .beginObject => some (.objectBegun outer)
  | _ => none

/-- One token. -/
def step (b : Builder) (token : Token) : Option Builder :=
  match b, token with
  | .value outer, token => begin? outer token
  | .arrayBegun outer, .endArray => some (deliver outer (.array []))
  | .arrayBegun outer, token => begin? (.array [] :: outer) token
  | .afterItem outer items, .comma => some (.value (.array items :: outer))
  | .afterItem outer items, .endArray => some (deliver outer (.array items.reverse))
  | .objectBegun outer, .endObject => some (deliver outer (.object []))
  | .objectBegun outer, .text key => some (.afterKey outer [] key)
  | .key outer members, .text key => some (.afterKey outer members key)
  | .afterKey outer members key, .colon => some (.value (.object members key :: outer))
  | .afterMember outer members, .comma => some (.key outer members)
  | .afterMember outer members, .endObject => some (deliver outer (.object members.reverse))
  | _, _ => none

/-- The one value that a row of tokens is. -/
def ofTokens? (tokens : List Token) : Option Node :=
  match tokens.foldlM step (.value []) with
  | some (.whole node) => some node
  | _ => none

/-- The one value that a text is. -/
def read? (cs : List Char) : Option Node := Token.read? cs >>= ofTokens?

end Node

end TestJob.Json
