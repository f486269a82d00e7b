import TestJob.Json.Value
import TestJob.Members

/-!
JSON schemas, as far as definitions of jobs need them: a schema is a row of keywords, and each
keyword is a member of the object that the schema is written as.
-/

namespace TestJob

/-- The types that a schema can ask for. -/
inductive SchemaType where
  | string
  | integer
  | boolean
  | array
  | object
deriving DecidableEq

/-- The name of a type in a schema. -/
def SchemaType.label : SchemaType → String
  | string => "string"
  | integer => "integer"
  | boolean => "boolean"
  | array => "array"
  | object => "object"

/-- A keyword of a schema. -/
inductive Keyword where
  | type (type : SchemaType)
  | minLength (length : UInt32)
  /-- A text must hold a character that is not white space. -/
  | notBlank
  | minimum (value : UInt32)
  | maximum (value : UInt32)
  /-- A schema for every item of an array. -/
  | items (schema : List Keyword)
  | uniqueItems
  /-- Schemas for the values of an object, by key. -/
  | properties (schemas : List (String × List Keyword))
  | required (keys : List String)
  /-- An object has no key without a schema. -/
  | closed
  /-- A remark, which asks for nothing. -/
  | remark (name : String) (value : Json)

/-- A schema. -/
abbrev Schema := List Keyword

namespace Keyword

/-- The name under which a keyword is written. -/
def name : Keyword → String
  | type _ => "type"
  | minLength _ => "minLength"
  | notBlank => "pattern"
  | minimum _ => "minimum"
  | maximum _ => "maximum"
  | items _ => "items"
  | uniqueItems => "uniqueItems"
  | properties _ => "properties"
  | required _ => "required"
  | closed => "additionalProperties"
  | remark name _ => name

mutual

/-- The value with which a keyword is written. -/
def value : Keyword → Json
  | type t => .str t.label
  | minLength n => .num (.ofUInt32 n)
  | notBlank => .str "\\S"
  | minimum n => .num (.ofUInt32 n)
  | maximum n => .num (.ofUInt32 n)
  | items schema => .obj (Members.ofList (members schema))
  | uniqueItems => .bool true
  | properties schemas => .obj (Members.ofList (objects schemas))
  | required keys => .arr (keys.map Json.str)
  | closed => .bool false
  | remark _ v => v

/-- The members with which keywords are written. -/
def members : List Keyword → List (String × Json)
  | [] => []
  | k :: rest => (k.name, k.value) :: members rest

/-- The objects with which schemas are written. -/
def objects : List (String × List Keyword) → List (String × Json)
  | [] => []
  | (key, schema) :: rest => (key, .obj (Members.ofList (members schema))) :: objects rest

end

end Keyword

/-- The object that a schema is written as. -/
def Schema.toJson (schema : Schema) : Json := .obj (Members.ofList (Keyword.members schema))

end TestJob
