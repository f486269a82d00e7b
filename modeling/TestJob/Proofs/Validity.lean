import Mathlib
import TestJob.Schema
import TestJob.Text.Blank

/-!
What a schema asks of a value. `Keyword.Allows` gives each keyword its meaning in JSON Schema
2020-12: a keyword for one kind of value asks nothing of the others, and a remark asks nothing at
all. Numbers count by their value, so `1` and `1.0` are one number and `1.0` is an integer. A schema
accepts a value when each of its keywords allows it (`Schema.accepts_iff`).
-/

namespace TestJob

/-! ### Values -/

namespace Number

/-- One, in units of 2^-1074. -/
def one : Int := 2 ^ 1074

/-- The value of a number, in units of 2^-1074. -/
def units : Number → Int
  | int value _ => value * one
  | float x => if x.negative then -(x.units : Int) else x.units

/-- A number without a fractional part. -/
def IsWhole (n : Number) : Prop := one ∣ n.units

theorem one_pos : 0 < one := Int.pow_pos (by decide)

end Number

mutual

/-- Two values are the same value, numbers being compared as numbers. -/
def Json.Same : Json → Json → Prop
  | .null, .null => True
  | .bool a, .bool b => a = b
  | .num a, .num b => a.units = b.units
  | .str a, .str b => a = b
  | .arr a, .arr b => Json.SameItems a b
  | .obj a, .obj b => Json.SameMembers a b
  | _, _ => False

/-- `Same`, item by item. -/
def Json.SameItems : List Json → List Json → Prop
  | [], [] => True
  | a :: as, b :: bs => Json.Same a b ∧ Json.SameItems as bs
  | _, _ => False

/-- `Same`, member by member; the keys of both are in order. -/
def Json.SameMembers : List (String × Json) → List (String × Json) → Prop
  | [], [] => True
  | (j, a) :: as, (k, b) :: bs => j = k ∧ Json.Same a b ∧ Json.SameMembers as bs
  | _, _ => False

end

/-- The values of a type. -/
def SchemaType.Describes : SchemaType → Json → Prop
  | string, .str _ => True
  | integer, .num n => n.IsWhole
  | boolean, .bool _ => True
  | array, .arr _ => True
  | object, .obj _ => True
  | _, _ => False

/-! ### Keywords -/

/-- The keys that a schema has schemas for. -/
def Schema.declared (schema : Schema) : List String :=
  schema.flatMap fun
    | .properties schemas => schemas.map Prod.fst
    | _ => []

mutual

/-- What a keyword asks of a value. `declared` are the keys that the schema around it has schemas
for. -/
def Keyword.Allows (declared : List String) : Keyword → Json → Prop
  | .type t, value => t.Describes value
  | .minLength least, .str s => least.toNat ≤ s.length
  | .notBlank, .str s => ∃ c ∈ s.toList, Text.isWhiteSpace c = false
  | .minimum least, .num n => least.toNat * Number.one ≤ n.units
  | .maximum most, .num n => n.units ≤ most.toNat * Number.one
  | .items schema, .arr parts =>
    ∀ part ∈ parts, Keyword.AllowEach (Schema.declared schema) schema part
  | .uniqueItems, .arr parts => parts.Pairwise fun a b => ¬Json.Same a b
  | .properties schemas, .obj members => Keyword.AllowMembers schemas members
  | .required keys, .obj members => ∀ key ∈ keys, key ∈ Members.keys members
  | .closed, .obj members => ∀ key ∈ Members.keys members, key ∈ declared
  | _, _ => True

/-- Each keyword of a row allows a value. -/
def Keyword.AllowEach (declared : List String) : List Keyword → Json → Prop
  | [], _ => True
  | keyword :: rest, value => keyword.Allows declared value ∧ Keyword.AllowEach declared rest value

/-- The value of each key that is there is as the schema of the key asks. -/
def Keyword.AllowMembers : List (String × List Keyword) → Record → Prop
  | [], _ => True
  | (key, schema) :: rest, members =>
    (∀ value, Members.find? key members = some value →
      Keyword.AllowEach (Schema.declared schema) schema value) ∧
    Keyword.AllowMembers rest members

end

/-- A value is valid against a schema. -/
def Schema.Accepts (schema : Schema) (value : Json) : Prop :=
  Keyword.AllowEach schema.declared schema value

theorem Keyword.allowEach_iff {declared : List String} {value : Json} :
    ∀ {keywords : List Keyword}, Keyword.AllowEach declared keywords value ↔
      ∀ keyword ∈ keywords, keyword.Allows declared value
  | [] => by simp [Keyword.AllowEach]
  | keyword :: rest => by
    rw [Keyword.AllowEach, Keyword.allowEach_iff, List.forall_mem_cons]

theorem Schema.accepts_iff {schema : Schema} {value : Json} :
    schema.Accepts value ↔ ∀ keyword ∈ schema, keyword.Allows schema.declared value :=
  Keyword.allowEach_iff

end TestJob
