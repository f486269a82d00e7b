import TestJob.Toml.Value

/-!
Values as they are written in a document, and the values they stand for. A number may be written
that has no value or is out of range, and one key is reserved: inside a document, a table whose
least key is `dateKey` stands for the date or time that the text under that key spells. Nothing else
in such a table is looked at, so a number there need not have a value.
-/

namespace TestJob

/-- A value as it is written: an integer of any size, or none for a word without value; a float, or
none if it is too large. -/
inductive Toml.Written where
  | string (value : String)
  | integer (value : Option Int)
  | float (value : Option Toml.Real)
  | boolean (value : Bool)
  | datetime (value : Toml.Datetime)
  | array (items : List Written)
  | table (members : List (String × Written))

namespace Toml

/-- The key of a table that stands for a date or time. -/
def dateKey : String := "$__toml_private_datetime"

namespace Written

/-- The date or time that a text spells; no other value spells one. -/
def datetime? : Written → Option Datetime
  | .string text => Datetime.ofChars? text.toList
  | _ => none

/-- An integer, if it is in range. -/
def inRange? (n : Int) : Option Toml := if fits : Fits n then some (.integer n fits) else none

mutual

/-- The value that stands for a written one, if its numbers are in range and the texts under its
reserved keys spell dates or times. -/
def toToml? : Written → Option Toml
  | .string value => some (.string value)
  | .integer value => value.bind inRange?
  | .float value => value.map .float
  | .boolean value => some (.boolean value)
  | .datetime value => some (.datetime value)
  | .array items => (itemsToToml? [] items).map .array
  | .table [] => some (.table [])
  | .table ((key, value) :: rest) =>
    if key = dateKey then (datetime? value).map .datetime
    else
      match toToml? value with
      | some value => (membersToToml? [(key, value)] rest).map .table
      | none => none

/-- The values of written items, put after those already made (last first). -/
def itemsToToml? (made : List Toml) : List Written → Option (List Toml)
  | [] => some made.reverse
  | item :: rest =>
    match toToml? item with
    | some value => itemsToToml? (value :: made) rest
    | none => none

/-- The values of written members, put after those already made (last first). -/
def membersToToml? (made : List (String × Toml)) :
    List (String × Written) → Option (List (String × Toml))
  | [] => some made.reverse
  | (key, item) :: rest =>
    match toToml? item with
    | some value => membersToToml? ((key, value) :: made) rest
    | none => none

end

end Written

end Toml

end TestJob
