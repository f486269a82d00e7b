import Mathlib
import TestJob.Proofs.Json.Number

/-!
What the canonical text keeps of a value. It is the text of the value with each number reread, and
it is read as that value wherever so many containers may be open (`isSome_readWithin?_canonical`).
So two values have one canonical text exactly when they are the same but for numbers that are alike
(`canonical_eq_iff`).
-/

namespace TestJob.Json

/-! ### Values with other numbers -/

mutual

/-- Changes every number, at any depth. -/
def mapNumbers (f : Number → Number) : Json → Json
  | .num n => .num (f n)
  | .arr items => .arr (mapNumbersItems f items)
  | .obj members => .obj (mapNumbersMembers f members)
  | value => value

/-- `mapNumbers` of each item. -/
def mapNumbersItems (f : Number → Number) : List Json → List Json
  | [] => []
  | item :: rest => mapNumbers f item :: mapNumbersItems f rest

/-- `mapNumbers` of each value. -/
def mapNumbersMembers (f : Number → Number) : List (String × Json) → List (String × Json)
  | [] => []
  | (key, value) :: rest => (key, mapNumbers f value) :: mapNumbersMembers f rest

end

section Map

variable (f : Number → Number)

theorem mapNumbersItems_eq :
    ∀ items : List Json, mapNumbersItems f items = items.map (mapNumbers f)
  | [] => rfl
  | item :: rest => by rw [mapNumbersItems, mapNumbersItems_eq, List.map_cons]

theorem mapNumbersMembers_eq :
    ∀ members : List (String × Json),
      mapNumbersMembers f members = members.map fun m => (m.1, mapNumbers f m.2)
  | [] => rfl
  | (key, value) :: rest => by rw [mapNumbersMembers, mapNumbersMembers_eq, List.map_cons]

theorem mapNumbers_arr (items : List Json) :
    mapNumbers f (.arr items) = .arr (items.map (mapNumbers f)) := by
  rw [mapNumbers, mapNumbersItems_eq]

theorem mapNumbers_obj (members : List (String × Json)) :
    mapNumbers f (.obj members) = .obj (members.map fun m => (m.1, mapNumbers f m.2)) := by
  rw [mapNumbers, mapNumbersMembers_eq]

variable {f}

theorem depth_mapNumbers_le_iff (value : Json) :
    ∀ {bound : Nat}, depth (mapNumbers f value) ≤ bound ↔ depth value ≤ bound := by
  induction value using Json.induction with
  | null => exact Iff.rfl
  | bool b => exact Iff.rfl
  | num n => exact Iff.rfl
  | str s => exact Iff.rfl
  | arr items ih =>
    rintro (_ | bound)
    · rw [mapNumbers, depth, depth]
      omega
    · rw [mapNumbers_arr, depth_arr_le_iff, depth_arr_le_iff, List.forall_mem_map]
      exact forall₂_congr fun item hitem => ih item hitem
  | obj members ih =>
    rintro (_ | bound)
    · rw [mapNumbers, depth, depth]
      omega
    · rw [mapNumbers_obj, depth_obj_le_iff, depth_obj_le_iff, List.forall_mem_map]
      exact forall₂_congr fun m hm => ih m hm

theorem ordered_mapNumbers (value : Json) : Ordered value → Ordered (mapNumbers f value) := by
  induction value using Json.induction with
  | null => exact id
  | bool b => exact id
  | num n => exact id
  | str s => exact id
  | arr items ih =>
    rw [mapNumbers_arr, ordered_arr, ordered_arr, List.forall_mem_map]
    exact fun h item hitem => ih item hitem (h item hitem)
  | obj members ih =>
    rw [mapNumbers_obj, ordered_obj, ordered_obj, List.forall_mem_map]
    exact fun h => ⟨List.pairwise_map.2 h.1, fun m hm => ih m hm (h.2 m hm)⟩

theorem eachNumber_mapNumbers {p : Number → Prop} (hp : ∀ n, p (f n)) (value : Json) :
    EachNumber p (mapNumbers f value) := by
  induction value using Json.induction with
  | null => trivial
  | bool b => trivial
  | num n => exact hp n
  | str s => trivial
  | arr items ih =>
    rw [mapNumbers_arr, eachNumber_arr, List.forall_mem_map]
    exact ih
  | obj members ih =>
    rw [mapNumbers_obj, eachNumber_obj, List.forall_mem_map]
    exact ih

/-- A value without changed numbers stays as it is. -/
theorem mapNumbers_eq_self {value : Json} : EachNumber (fun n => f n = n) value →
    mapNumbers f value = value := by
  induction value using Json.induction with
  | null => exact fun _ => rfl
  | bool b => exact fun _ => rfl
  | num n => exact fun h => congrArg num h
  | str s => exact fun _ => rfl
  | arr items ih =>
    rw [eachNumber_arr, mapNumbers_arr]
    intro h
    rw [List.map_congr_left fun item hitem => ih item hitem (h item hitem), List.map_id']
  | obj members ih =>
    rw [eachNumber_obj, mapNumbers_obj]
    intro h
    have hmembers : (members.map fun m => (m.1, mapNumbers f m.2)) = members.map id :=
      List.map_congr_left fun m hm => by
        rw [ih m hm (h m hm)]
        rfl
    rw [hmembers, List.map_id]

/-- A value is written alike whatever its numbers are, if they are. -/
theorem chars_mapNumbers {l : Layout} {arrange : Arrangement}
    (hf : ∀ n, numberChars l (f n) = numberChars l n) (value : Json) :
    chars l arrange (mapNumbers f value) = chars l arrange value := by
  induction value using Json.induction with
  | null => rfl
  | bool b => rfl
  | num n => exact hf n
  | str s => rfl
  | arr items ih =>
    rw [mapNumbers_arr, chars_arr, chars_arr, List.map_map]
    exact congrArg (bracket '[' ']') (List.map_congr_left ih)
  | obj members ih =>
    have hmembers : members.map ((fun m => (quote m.1, chars l arrange m.2)) ∘
        fun m => (m.1, mapNumbers f m.2)) =
          members.map fun m => (quote m.1, chars l arrange m.2) :=
      List.map_congr_left fun m hm => congrArg (Prod.mk (quote m.1)) (ih m hm)
    rw [mapNumbers_obj, chars_obj, chars_obj, List.map_map, hmembers]

end Map

/-! ### The same but for numbers -/

mutual

/-- Two values are the same but for their numbers, which are related place by place. -/
def Related (r : Number → Number → Prop) : Json → Json → Prop
  | .null, .null => True
  | .bool a, .bool b => a = b
  | .num m, .num n => r m n
  | .str s, .str t => s = t
  | .arr items, .arr others => RelatedItems r items others
  | .obj members, .obj others => RelatedMembers r members others
  | _, _ => False

/-- `Related` item by item. -/
def RelatedItems (r : Number → Number → Prop) : List Json → List Json → Prop
  | [], [] => True
  | a :: as, b :: bs => Related r a b ∧ RelatedItems r as bs
  | _, _ => False

/-- `Related` member by member, under the same keys. -/
def RelatedMembers (r : Number → Number → Prop) :
    List (String × Json) → List (String × Json) → Prop
  | [], [] => True
  | (j, a) :: as, (k, b) :: bs => j = k ∧ Related r a b ∧ RelatedMembers r as bs
  | _, _ => False

end

section Related

variable {f : Number → Number}

mutual

/-- A change of numbers makes two values equal exactly when it makes their numbers equal. -/
theorem mapNumbers_eq_iff :
    ∀ v w : Json, mapNumbers f v = mapNumbers f w ↔ Related (fun a b => f a = f b) v w
  | .null, w => by cases w <;> simp [mapNumbers, Related]
  | .bool _, w => by cases w <;> simp [mapNumbers, Related]
  | .num _, w => by cases w <;> simp [mapNumbers, Related]
  | .str _, w => by cases w <;> simp [mapNumbers, Related]
  | .arr items, w => by cases w <;> simp [mapNumbers, Related, mapNumbersItems_eq_iff items]
  | .obj members, w => by cases w <;> simp [mapNumbers, Related, mapNumbersMembers_eq_iff members]

theorem mapNumbersItems_eq_iff :
    ∀ as bs : List Json,
      mapNumbersItems f as = mapNumbersItems f bs ↔ RelatedItems (fun a b => f a = f b) as bs
  | [], bs => by cases bs <;> simp [mapNumbersItems, RelatedItems]
  | a :: as, bs => by
    cases bs <;> simp [mapNumbersItems, RelatedItems, mapNumbers_eq_iff a, mapNumbersItems_eq_iff as]

theorem mapNumbersMembers_eq_iff :
    ∀ as bs : List (String × Json),
      mapNumbersMembers f as = mapNumbersMembers f bs ↔
        RelatedMembers (fun a b => f a = f b) as bs
  | [], bs => by cases bs <;> simp [mapNumbersMembers, RelatedMembers]
  | (j, a) :: as, bs => by
    rcases bs with _ | ⟨⟨k, b⟩, bs⟩ <;>
      simp [mapNumbersMembers, RelatedMembers, mapNumbers_eq_iff a, mapNumbersMembers_eq_iff as,
        and_assoc]

end

end Related

/-! ### The canonical text -/

section Canonical

variable {value other : Json} {bound : Nat}

theorem canonical_mapNumbers (value : Json) :
    (mapNumbers Number.reread value).canonical = value.canonical := by
  rw [canonical, canonical, chars_mapNumbers Number.numberChars_reread]

/-- The canonical text of a value is read as the value with its numbers reread. -/
theorem readWithin?_canonical_reread (hordered : Ordered value) (hdepth : depth value ≤ bound) :
    readWithin? bound value.canonical = some (mapNumbers Number.reread value) := by
  have hspace : ∀ c ∈ ([] : List Char), Token.isSpace c = true := fun _ hc => by cases hc
  have hread : readWithin? bound
      ((mapNumbers Number.reread value).canonical ++ String.ofList []) =
        some (mapNumbers Number.reread value) :=
    readWithin?_canonical hspace (ordered_mapNumbers value hordered)
      (eachNumber_mapNumbers Number.readsBack_reread value)
      ((depth_mapNumbers_le_iff value).2 hdepth)
  rwa [String.ofList_nil, String.append_empty, canonical_mapNumbers] at hread

/-- The canonical text of a value is read exactly where so many containers may be open. -/
theorem isSome_readWithin?_canonical (hordered : Ordered value) :
    (readWithin? bound value.canonical).isSome = true ↔ depth value ≤ bound := by
  constructor
  · intro h
    obtain ⟨read, hread⟩ := Option.isSome_iff_exists.1 h
    have hspace : ∀ c ∈ ([] : List Char), Token.isSpace c = true := fun _ hc => by cases hc
    have hmem : ∀ members : List (String × Json), ∀ m ∈ Members.ofList members, m ∈ members :=
      fun _ _ => Members.mem_of_mem_ofList
    rw [← canonical_mapNumbers, canonical, chars_ofList,
      ← String.append_empty (s := String.ofList _), ← String.ofList_nil,
      readWithin?_chars hspace] at hread
    have hdepth := depth_rearrange_le hmem _ (depth_le_of_value?_node _ hread)
    rwa [rearrange_ofList_byWritten _ (ordered_mapNumbers value hordered),
      depth_mapNumbers_le_iff] at hdepth
  · intro h
    rw [readWithin?_canonical_reread hordered h]
    rfl

/-- Values are the same but for numbers that are alike when they are read again as one value. -/
theorem mapNumbers_reread_eq_iff :
    mapNumbers Number.reread value = mapNumbers Number.reread other ↔
      Related Number.Alike value other := by
  have halike : (fun a b : Number => a.reread = b.reread) = Number.Alike := by
    funext a b
    exact propext Number.reread_eq_iff
  rw [mapNumbers_eq_iff, halike]

/-- Two values have one canonical text exactly when they are the same but for numbers that are
alike. -/
theorem canonical_eq_iff (hvalue : Ordered value) (hother : Ordered other) :
    value.canonical = other.canonical ↔ Related Number.Alike value other := by
  rw [← mapNumbers_reread_eq_iff]
  constructor
  · intro h
    have hread := readWithin?_canonical_reread hvalue (le_max_left value.depth other.depth)
    rw [h, readWithin?_canonical_reread hother (le_max_right _ _)] at hread
    exact (Option.some.inj hread).symm
  · intro h
    rw [← canonical_mapNumbers value, h, canonical_mapNumbers]

/-- Values that reading leaves as they are have different texts if they are different. -/
theorem eq_of_related_alike (hvalue : EachNumber (fun n => n.reread = n) value)
    (hother : EachNumber (fun n => n.reread = n) other) (h : Related Number.Alike value other) :
    value = other := by
  rw [← mapNumbers_eq_self hvalue, ← mapNumbers_eq_self hother]
  exact mapNumbers_reread_eq_iff.2 h

end Canonical

end TestJob.Json
