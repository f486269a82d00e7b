import TestJob.Json.Value
import TestJob.Toml.Value

/-!
From TOML to JSON. Every value keeps its shape and its kind, except that a date or time becomes its
text. Only a float that is infinite or not a number has no counterpart; of several the first in
the order of the document's tables and arrays is named.
-/

namespace TestJob.Toml

/-- A float that JSON does not have. -/
inductive NonFinite where
  | infinite (negative : Bool)
  | notANumber
deriving DecidableEq

/-- The text of such a float. -/
def NonFinite.text : NonFinite → String
  | infinite negative => if negative then "-inf" else "inf"
  | notANumber => "NaN"

/-- Signed words are among the numbers of JSON. -/
theorem Fits.number {n : Int} (h : Fits n) : Number.Fits n := by
  obtain ⟨low, high⟩ := h
  constructor <;> omega

mutual

/-- The JSON value, or the float that has none. -/
def toJson : Toml → Except NonFinite Json
  | .string value => .ok (.str value)
  | .integer value fits => .ok (.num (.int value fits.number))
  | .float (.finite value) => .ok (.num (.float value))
  | .float (.infinite negative) => .error (.infinite negative)
  | .float .notANumber => .error .notANumber
  | .boolean value => .ok (.bool value)
  | .datetime value => .ok (.str value.text)
  | .array items => (itemsToJson [] items).map .arr
  | .table members => (membersToJson [] members).map .obj

/-- The JSON values of items, put after those already made (last first). -/
def itemsToJson (made : List Json) : List Toml → Except NonFinite (List Json)
  | [] => .ok made.reverse
  | item :: rest =>
    match toJson item with
    | .ok value => itemsToJson (value :: made) rest
    | .error e => .error e

/-- The JSON members of a table, put after those already made (last first). -/
def membersToJson (made : List (String × Json)) :
    List (String × Toml) → Except NonFinite (List (String × Json))
  | [] => .ok made.reverse
  | (key, item) :: rest =>
    match toJson item with
    | .ok value => membersToJson ((key, value) :: made) rest
    | .error e => .error e

end

end TestJob.Toml
