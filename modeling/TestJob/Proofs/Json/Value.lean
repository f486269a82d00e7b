import Mathlib
import TestJob.Json.Value
import TestJob.Proofs.Members

/-!
JSON values by induction. A property of values passes from the items of an array and the members
of an object to the whole (`Json.induction`), and what the program asks of a value *at any depth*
is asked of each item and each member: its numbers, its nesting, the order of its keys.
-/

namespace TestJob.Json

/-- A property that every array has if its items have it, and every object if its members do. -/
@[elab_as_elim]
theorem induction {motive : Json → Prop} (null : motive .null) (bool : ∀ b, motive (.bool b))
    (num : ∀ n, motive (.num n)) (str : ∀ s, motive (.str s))
    (arr : ∀ items, (∀ item ∈ items, motive item) → motive (.arr items))
    (obj : ∀ members, (∀ m ∈ members, motive m.2) → motive (.obj members)) (value : Json) :
    motive value :=
  @Json.rec motive (fun items => ∀ item ∈ items, motive item)
    (fun members => ∀ m ∈ members, motive m.2) (fun m => motive m.2) null bool num str arr obj
    (fun _ h => absurd h List.not_mem_nil)
    (fun _ _ hfirst hrest => List.forall_mem_cons.2 ⟨hfirst, hrest⟩)
    (fun _ h => absurd h List.not_mem_nil)
    (fun _ _ hfirst hrest => List.forall_mem_cons.2 ⟨hfirst, hrest⟩)
    (fun _ _ h => h) value

/-! ### Numbers -/

mutual

/-- Every number, at any depth, has a property. -/
def EachNumber (p : Number → Prop) : Json → Prop
  | .num n => p n
  | .arr items => EachNumberItems p items
  | .obj members => EachNumberMembers p members
  | _ => True

/-- `EachNumber` of each item. -/
def EachNumberItems (p : Number → Prop) : List Json → Prop
  | [] => True
  | item :: rest => EachNumber p item ∧ EachNumberItems p rest

/-- `EachNumber` of each value. -/
def EachNumberMembers (p : Number → Prop) : List (String × Json) → Prop
  | [] => True
  | (_, value) :: rest => EachNumber p value ∧ EachNumberMembers p rest

end

theorem eachNumberItems_iff {p : Number → Prop} :
    ∀ {items : List Json}, EachNumberItems p items ↔ ∀ item ∈ items, EachNumber p item
  | [] => by simp [EachNumberItems]
  | item :: rest => by rw [EachNumberItems, eachNumberItems_iff, List.forall_mem_cons]

theorem eachNumberMembers_iff {p : Number → Prop} :
    ∀ {members : List (String × Json)},
      EachNumberMembers p members ↔ ∀ m ∈ members, EachNumber p m.2
  | [] => by simp [EachNumberMembers]
  | (_, value) :: rest => by rw [EachNumberMembers, eachNumberMembers_iff, List.forall_mem_cons]

theorem eachNumber_arr {p : Number → Prop} {items : List Json} :
    EachNumber p (.arr items) ↔ ∀ item ∈ items, EachNumber p item := by
  rw [EachNumber, eachNumberItems_iff]

theorem eachNumber_obj {p : Number → Prop} {members : List (String × Json)} :
    EachNumber p (.obj members) ↔ ∀ m ∈ members, EachNumber p m.2 := by
  rw [EachNumber, eachNumberMembers_iff]

mutual

instance decidableEachNumber (p : Number → Prop) [DecidablePred p] :
    ∀ value, Decidable (EachNumber p value)
  | .null => .isTrue trivial
  | .bool _ => .isTrue trivial
  | .num n => inferInstanceAs (Decidable (p n))
  | .str _ => .isTrue trivial
  | .arr items => decidableEachNumberItems p items
  | .obj members => decidableEachNumberMembers p members

instance decidableEachNumberItems (p : Number → Prop) [DecidablePred p] :
    ∀ items, Decidable (EachNumberItems p items)
  | [] => .isTrue trivial
  | item :: rest =>
    @instDecidableAnd _ _ (decidableEachNumber p item) (decidableEachNumberItems p rest)

instance decidableEachNumberMembers (p : Number → Prop) [DecidablePred p] :
    ∀ members, Decidable (EachNumberMembers p members)
  | [] => .isTrue trivial
  | (_, value) :: rest =>
    @instDecidableAnd _ _ (decidableEachNumber p value) (decidableEachNumberMembers p rest)

end

theorem EachNumber.imp {p q : Number → Prop} (hpq : ∀ n, p n → q n) {value : Json} :
    EachNumber p value → EachNumber q value := by
  induction value using Json.induction with
  | null => exact id
  | bool b => exact id
  | num n => exact hpq n
  | str s => exact id
  | arr items ih =>
    rw [eachNumber_arr, eachNumber_arr]
    exact fun h item hitem => ih item hitem (h item hitem)
  | obj members ih =>
    rw [eachNumber_obj, eachNumber_obj]
    exact fun h m hm => ih m hm (h m hm)

/-- What holds of every number holds of each one in a value. -/
theorem EachNumber.of_forall {p : Number → Prop} (h : ∀ n, p n) {value : Json} :
    EachNumber p value := by
  induction value using Json.induction with
  | null => exact trivial
  | bool b => exact trivial
  | num n => exact h n
  | str s => exact trivial
  | arr items ih => exact eachNumber_arr.2 ih
  | obj members ih => exact eachNumber_obj.2 ih

/-- No number, at any depth, is a float. -/
def FloatFree (value : Json) : Prop := EachNumber (fun n => ∃ m fits, n = .int m fits) value

instance decidableFloatFree (value : Json) : Decidable (FloatFree value) :=
  have : DecidablePred fun n : Number => ∃ m fits, n = .int m fits := fun n =>
    n.casesOn (fun m fits => .isTrue ⟨m, fits, rfl⟩) fun _ => .isFalse (by rintro ⟨_, _, ⟨⟩⟩)
  inferInstanceAs (Decidable (EachNumber _ value))

/-! ### Nesting -/

mutual

/-- How many containers stand in one another. -/
def depth : Json → Nat
  | .arr items => depthItems items + 1
  | .obj members => depthMembers members + 1
  | _ => 0

/-- The depth of the deepest item. -/
def depthItems : List Json → Nat
  | [] => 0
  | item :: rest => max (depth item) (depthItems rest)

/-- The depth of the deepest value. -/
def depthMembers : List (String × Json) → Nat
  | [] => 0
  | (_, value) :: rest => max (depth value) (depthMembers rest)

end

theorem depthItems_le_iff {bound : Nat} :
    ∀ {items : List Json}, depthItems items ≤ bound ↔ ∀ item ∈ items, depth item ≤ bound
  | [] => by simp [depthItems]
  | item :: rest => by rw [depthItems, max_le_iff, depthItems_le_iff, List.forall_mem_cons]

theorem depthMembers_le_iff {bound : Nat} :
    ∀ {members : List (String × Json)},
      depthMembers members ≤ bound ↔ ∀ m ∈ members, depth m.2 ≤ bound
  | [] => by simp [depthMembers]
  | (_, value) :: rest => by
    rw [depthMembers, max_le_iff, depthMembers_le_iff, List.forall_mem_cons]

theorem depth_arr_le_iff {bound : Nat} {items : List Json} :
    depth (.arr items) ≤ bound + 1 ↔ ∀ item ∈ items, depth item ≤ bound := by
  rw [depth, Nat.add_le_add_iff_right, depthItems_le_iff]

theorem depth_obj_le_iff {bound : Nat} {members : List (String × Json)} :
    depth (.obj members) ≤ bound + 1 ↔ ∀ m ∈ members, depth m.2 ≤ bound := by
  rw [depth, Nat.add_le_add_iff_right, depthMembers_le_iff]

/-! ### The order of keys -/

theorem orderedItems_iff :
    ∀ {items : List Json}, OrderedItems items ↔ ∀ item ∈ items, Ordered item
  | [] => by simp [OrderedItems]
  | item :: rest => by rw [OrderedItems, orderedItems_iff, List.forall_mem_cons]

theorem orderedMembers_iff :
    ∀ {members : List (String × Json)}, OrderedMembers members ↔ ∀ m ∈ members, Ordered m.2
  | [] => by simp [OrderedMembers]
  | (_, value) :: rest => by rw [OrderedMembers, orderedMembers_iff, List.forall_mem_cons]

theorem ordered_arr {items : List Json} : Ordered (.arr items) ↔ ∀ item ∈ items, Ordered item := by
  rw [Ordered, orderedItems_iff]

theorem ordered_obj {members : List (String × Json)} :
    Ordered (.obj members) ↔ Members.Ascending members ∧ ∀ m ∈ members, Ordered m.2 := by
  rw [Ordered, orderedMembers_iff]

mutual

instance decidableOrdered : ∀ value, Decidable (Ordered value)
  | .null => .isTrue trivial
  | .bool _ => .isTrue trivial
  | .num _ => .isTrue trivial
  | .str _ => .isTrue trivial
  | .arr items => decidableOrderedItems items
  | .obj members =>
    @instDecidableAnd _ _ (List.instDecidablePairwise members) (decidableOrderedMembers members)

instance decidableOrderedItems : ∀ items, Decidable (OrderedItems items)
  | [] => .isTrue trivial
  | item :: rest => @instDecidableAnd _ _ (decidableOrdered item) (decidableOrderedItems rest)

instance decidableOrderedMembers : ∀ members, Decidable (OrderedMembers members)
  | [] => .isTrue trivial
  | (_, value) :: rest =>
    @instDecidableAnd _ _ (decidableOrdered value) (decidableOrderedMembers rest)

end

mutual

/-- Puts the members of every object, at any depth, in another order. -/
def rearrange (f : List (String × Json) → List (String × Json)) : Json → Json
  | .arr items => .arr (rearrangeItems f items)
  | .obj members => .obj (f (rearrangeMembers f members))
  | value => value

/-- `rearrange` of each item. -/
def rearrangeItems (f : List (String × Json) → List (String × Json)) : List Json → List Json
  | [] => []
  | item :: rest => rearrange f item :: rearrangeItems f rest

/-- `rearrange` of each value. -/
def rearrangeMembers (f : List (String × Json) → List (String × Json)) :
    List (String × Json) → List (String × Json)
  | [] => []
  | (key, value) :: rest => (key, rearrange f value) :: rearrangeMembers f rest

end

variable (f : List (String × Json) → List (String × Json))

theorem rearrangeItems_eq :
    ∀ items : List Json, rearrangeItems f items = items.map (rearrange f)
  | [] => rfl
  | item :: rest => by rw [rearrangeItems, rearrangeItems_eq, List.map_cons]

theorem rearrangeMembers_eq :
    ∀ members : List (String × Json),
      rearrangeMembers f members = members.map fun m => (m.1, rearrange f m.2)
  | [] => rfl
  | (key, value) :: rest => by rw [rearrangeMembers, rearrangeMembers_eq, List.map_cons]

theorem rearrange_arr (items : List Json) :
    rearrange f (.arr items) = .arr (items.map (rearrange f)) := by
  rw [rearrange, rearrangeItems_eq]

theorem rearrange_obj (members : List (String × Json)) :
    rearrange f (.obj members) = .obj (f (members.map fun m => (m.1, rearrange f m.2))) := by
  rw [rearrange, rearrangeMembers_eq]

end TestJob.Json
