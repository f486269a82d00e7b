import TestJob.Decimal.Layout
import TestJob.Json.Value

/-!
JSON texts of values, in three forms. The compact form writes members in the order they have; the
canonical form writes them in ascending order of their keys *as written*, quotes and escapes
included; the indented form is for people. In all of them a text escapes the quote, the backslash
and the characters below U+0020, and nothing else.
-/

namespace TestJob.Json

/-- A character inside a written text. -/
def escape (c : Char) : List Char :=
  match c with
  | '"' => ['\\', '"']
  | '\\' => ['\\', '\\']
  | '\x08' => ['\\', 'b']
  | '\x0c' => ['\\', 'f']
  | '\n' => ['\\', 'n']
  | '\r' => ['\\', 'r']
  | '\t' => ['\\', 't']
  | c =>
    if c.toNat < 0x20 then
      ['\\', 'u', '0', '0', Nat.digitChar (c.toNat / 16), Nat.digitChar (c.toNat % 16)]
    else [c]

/-- A written text. -/
def quote (s : String) : List Char := '"' :: s.toList.flatMap escape ++ ['"']

/-- A written number. -/
def numberChars (l : Layout) : Number → List Char
  | .int value _ => (toString value).toList
  | .float value => l.binary64 value

/-- Parts with a comma between each two, in brackets. -/
def bracket (first last : Char) (parts : List (List Char)) : List Char :=
  first :: List.intercalate [','] parts ++ [last]

/-- A member: its written key, a colon, its written value. -/
def memberChars (member : List Char × List Char) : List Char := member.1 ++ ':' :: member.2

/-- How the members of an object are put in order before they are written. -/
abbrev Arrangement := List (List Char × List Char) → List (List Char × List Char)

mutual

/-- A written value, with its numbers laid out by `l` and its members arranged by `arrange`. -/
def chars (l : Layout) (arrange : Arrangement) : Json → List Char
  | .null => ['n', 'u', 'l', 'l']
  | .bool true => ['t', 'r', 'u', 'e']
  | .bool false => ['f', 'a', 'l', 's', 'e']
  | .num value => numberChars l value
  | .str value => quote value
  | .arr items => bracket '[' ']' (itemParts l arrange [] items)
  | .obj members => bracket '{' '}' ((arrange (memberParts l arrange [] members)).map memberChars)

/-- The written items, after those already written (last first). -/
def itemParts (l : Layout) (arrange : Arrangement) (written : List (List Char)) :
    List Json → List (List Char)
  | [] => written.reverse
  | item :: rest => itemParts l arrange (chars l arrange item :: written) rest

/-- The written members, after those already written (last first). -/
def memberParts (l : Layout) (arrange : Arrangement) (written : List (List Char × List Char)) :
    List (String × Json) → List (List Char × List Char)
  | [] => written.reverse
  | (key, value) :: rest =>
    memberParts l arrange ((quote key, chars l arrange value) :: written) rest

end

/-- The compact text of a value, members in the order they have. -/
def compact (value : Json) : String := String.ofList (chars .faithful id value)

/-- The canonical text of a value. -/
def canonical (value : Json) : String := String.ofList (chars .canonical Members.ofList value)

/-- A new line and its indentation. -/
def newLine (depth : Nat) : List Char := '\n' :: List.replicate (2 * depth) ' '

/-- Parts on a line each, in brackets. -/
def bracketLines (depth : Nat) (first last : Char) (parts : List (List Char)) : List Char :=
  if parts.isEmpty then [first, last]
  else
    first :: newLine (depth + 1) ++ List.intercalate (',' :: newLine (depth + 1)) parts ++
      newLine depth ++ [last]

mutual

/-- A value written over several lines. -/
def indentedChars (depth : Nat) : Json → List Char
  | .arr items => bracketLines depth '[' ']' (indentedItems (depth + 1) items)
  | .obj members => bracketLines depth '{' '}' (indentedMembers (depth + 1) members)
  | value => chars .faithful id value

/-- The items of an array written over several lines. -/
def indentedItems (depth : Nat) : List Json → List (List Char)
  | [] => []
  | item :: rest => indentedChars depth item :: indentedItems depth rest

/-- The members of an object written over several lines. -/
def indentedMembers (depth : Nat) : List (String × Json) → List (List Char)
  | [] => []
  | (key, value) :: rest =>
    (quote key ++ ':' :: ' ' :: indentedChars depth value) :: indentedMembers depth rest

end

/-- The text of a value over several lines, indented by two blanks. -/
def indented (value : Json) : String := String.ofList (indentedChars 0 value)

end TestJob.Json
