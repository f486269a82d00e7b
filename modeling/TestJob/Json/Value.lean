import TestJob.Decimal.Binary64
import TestJob.Members

/-!
JSON values as the program holds them. Numbers are whole numbers of 64 bits, signed or unsigned,
or finite floats; objects are members with ascending keys (`Json.Ordered`, which every reader
keeps), so that two equal objects are equal as values.
-/

namespace TestJob

/-- A whole number that a signed or an unsigned word of 64 bits holds. -/
def Number.Fits (n : Int) : Prop := -9223372036854775808 ≤ n ∧ n < 18446744073709551616

instance Number.decidableFits (n : Int) : Decidable (Number.Fits n) :=
  inferInstanceAs (Decidable (_ ∧ _))

/-- A JSON number. -/
inductive Number where
  | int (value : Int) (fits : Number.Fits value)
  | float (value : Binary64)
deriving DecidableEq

namespace Number

/-- The number of an unsigned word of 32 bits. -/
def ofUInt32 (n : UInt32) : Number :=
  .int n.toNat (by have := n.toNat_lt; constructor <;> omega)

/-- The number of an unsigned word of 64 bits. -/
def ofUInt64 (n : UInt64) : Number :=
  .int n.toNat (by have := n.toNat_lt; constructor <;> omega)

end Number

/-- A JSON value. -/
inductive Json where
  | null
  | bool (value : Bool)
  | num (value : Number)
  | str (value : String)
  | arr (items : List Json)
  | obj (members : List (String × Json))

/-- The members of an object: values by key. -/
abbrev Record := Members String Json

namespace Json

mutual

/-- Equality of values. -/
def beq : Json → Json → Bool
  | .null, .null => true
  | .bool a, .bool b => a == b
  | .num a, .num b => a == b
  | .str a, .str b => a == b
  | .arr a, .arr b => beqItems a b
  | .obj a, .obj b => beqMembers a b
  | _, _ => false

/-- Equality of lists of values. -/
def beqItems : List Json → List Json → Bool
  | [], [] => true
  | a :: as, b :: bs => beq a b && beqItems as bs
  | _, _ => false

/-- Equality of members. -/
def beqMembers : List (String × Json) → List (String × Json) → Bool
  | [], [] => true
  | (j, a) :: as, (k, b) :: bs => j == k && beq a b && beqMembers as bs
  | _, _ => false

end

mutual

theorem beq_iff : ∀ a b : Json, beq a b = true ↔ a = b
  | .null, b => by cases b <;> simp [beq]
  | .bool _, b => by cases b <;> simp [beq]
  | .num _, b => by cases b <;> simp [beq]
  | .str _, b => by cases b <;> simp [beq]
  | .arr items, b => by cases b <;> simp [beq, beqItems_iff items]
  | .obj members, b => by cases b <;> simp [beq, beqMembers_iff members]

theorem beqItems_iff : ∀ as bs : List Json, beqItems as bs = true ↔ as = bs
  | [], bs => by cases bs <;> simp [beqItems]
  | a :: as, bs => by cases bs <;> simp [beqItems, beq_iff a, beqItems_iff as]

theorem beqMembers_iff : ∀ as bs : List (String × Json), beqMembers as bs = true ↔ as = bs
  | [], bs => by cases bs <;> simp [beqMembers]
  | (j, a) :: as, bs => by
    rcases bs with _ | ⟨⟨k, b⟩, bs⟩ <;> simp [beqMembers, beq_iff a, beqMembers_iff as]

end

instance : DecidableEq Json := fun a b => decidable_of_iff _ (beq_iff a b)

mutual

/-- Every object, at any depth, has its keys in ascending order. -/
def Ordered : Json → Prop
  | .arr items => OrderedItems items
  | .obj members => Members.Ascending members ∧ OrderedMembers members
  | _ => True

/-- `Ordered` of each item. -/
def OrderedItems : List Json → Prop
  | [] => True
  | item :: rest => Ordered item ∧ OrderedItems rest

/-- `Ordered` of each value. -/
def OrderedMembers : List (String × Json) → Prop
  | [] => True
  | (_, value) :: rest => Ordered value ∧ OrderedMembers rest

end

/-- A text, or null. -/
def textOrNull : Option String → Json
  | some s => .str s
  | none => .null

/-- Whether a value is null. -/
def isNull : Json → Bool
  | .null => true
  | _ => false

end Json

end TestJob
