import TestJob.Field

/-!
The faults of a record, and how they are told. A record is refused with exactly one of them, and
each names the field at fault.
-/

namespace TestJob

/-- The kind of a value that was met. -/
inductive ValueKind where
  | null
  | boolean
  | integer
  | float
  | string
  | sequence
  | mapping
deriving DecidableEq

namespace ValueKind

/-- The kind of a value; a number is an integer if it is kept as one. -/
def of : Json → ValueKind
  | .null => null
  | .bool _ => boolean
  | .num (.int _ _) => integer
  | .num (.float _) => float
  | .str _ => string
  | .arr _ => sequence
  | .obj _ => mapping

/-- The name of a kind in messages. -/
def label : ValueKind → String
  | null => "null"
  | boolean => "boolean"
  | integer => "integer"
  | float => "float"
  | string => "string"
  | sequence => "sequence"
  | mapping => "mapping"

end ValueKind

/-- Why a record is refused. -/
inductive NormalizeError where
  | missingField (field : String)
  | typeMismatch (field : String) (expected : String) (actual : ValueKind)
  | invalidRange (field : String) (value : Int)
  | duplicateSplit (name : String)
  | emptySplitName
  | emptyField (field : String)
  | unknownField (field : String)
deriving DecidableEq

namespace NormalizeError

/-- The field at fault; items of a list are told apart by an index. -/
def field : NormalizeError → String
  | missingField field => field
  | typeMismatch field _ _ => field
  | invalidRange field _ => field
  | duplicateSplit _ => FieldName.testSplits
  | emptySplitName => FieldName.testSplits
  | emptyField field => field
  | unknownField field => field

/-- The name of the fault. -/
def kind : NormalizeError → String
  | missingField _ => "missing_field"
  | typeMismatch _ _ _ => "type_mismatch"
  | invalidRange _ _ => "invalid_range"
  | duplicateSplit _ => "duplicate_split"
  | emptySplitName => "empty_split_name"
  | emptyField _ => "empty_field"
  | unknownField _ => "unknown_field"

/-- The fault in words. -/
def message : NormalizeError → String
  | missingField field => "missing required field: " ++ field
  | typeMismatch field expected actual =>
    "type mismatch for " ++ field ++ ": expected " ++ expected ++ ", found " ++ actual.label
  | invalidRange field value => "value out of range for " ++ field ++ ": " ++ toString value
  | duplicateSplit name => "duplicate test split: " ++ name
  | emptySplitName => "empty test split name"
  | emptyField field => "field must not be empty: " ++ field
  | unknownField field => "unknown field: " ++ field

end NormalizeError

end TestJob
