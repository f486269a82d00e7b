/-!
Mappings with their keys in ascending order, as lists of members. `insert` keeps the order and
gives a key its last value, so a mapping is one list however it was put together.
-/

namespace TestJob

/-- The members of a mapping. -/
abbrev Members (κ ν : Type) := List (κ × ν)

namespace Members

variable {κ ν : Type}

/-- Each key comes before all later ones. -/
def Ascending [LT κ] (members : Members κ ν) : Prop := members.Pairwise fun a b => a.1 < b.1

/-- The keys in order. -/
def keys (members : Members κ ν) : List κ := members.map Prod.fst

variable [DecidableEq κ]

/-- The value of a key. -/
def find? (key : κ) : Members κ ν → Option ν
  | [] => none
  | (k, v) :: rest => if k = key then some v else find? key rest

theorem mem_of_find? {key : κ} {value : ν} {members : Members κ ν}
    (h : find? key members = some value) : (key, value) ∈ members := by
  fun_induction find? key members <;> simp_all

/-- Takes a key away. -/
def erase (key : κ) (members : Members κ ν) : Members κ ν := members.filter fun m => m.1 ≠ key

@[simp] theorem find?_erase_self (key : κ) (members : Members κ ν) :
    find? key (erase key members) = none := by
  induction members with
  | nil => rfl
  | cons m rest ih =>
    by_cases h : m.1 = key <;> simp_all [erase, find?]

theorem find?_erase_of_ne {key other : κ} (h : other ≠ key) (members : Members κ ν) :
    find? other (erase key members) = find? other members := by
  induction members with
  | nil => rfl
  | cons m rest ih =>
    obtain ⟨k, v⟩ := m
    by_cases hk : k = key
    · have : k ≠ other := fun e => h (e.symm.trans hk)
      simp_all [erase, find?]
    · simp_all [erase, find?]

variable [LT κ] [DecidableLT κ]

/-- Gives a key its value, in the place of an earlier value or where the order wants it. -/
def insert (key : κ) (value : ν) : Members κ ν → Members κ ν
  | [] => [(key, value)]
  | (k, v) :: rest =>
    if key < k then (key, value) :: (k, v) :: rest
    else if key = k then (key, value) :: rest
    else (k, v) :: insert key value rest

/-- Inserts one member after the other; of two values for one key the later stays. -/
def ofList (members : List (κ × ν)) : Members κ ν :=
  members.foldl (fun done (k, v) => insert k v done) []

theorem eq_or_mem_of_mem_insert {key : κ} {value : ν} {members : Members κ ν} {m : κ × ν}
    (h : m ∈ insert key value members) : m = (key, value) ∨ m ∈ members := by
  fun_induction insert key value members <;> simp_all <;> grind

@[simp] theorem find?_insert_self (key : κ) (value : ν) (members : Members κ ν) :
    find? key (insert key value members) = some value := by
  fun_induction insert key value members <;> simp_all [find?, eq_comm]

theorem find?_insert_of_ne {key other : κ} (h : other ≠ key) (value : ν) (members : Members κ ν) :
    find? other (insert key value members) = find? other members := by
  fun_induction insert key value members <;> simp_all [find?, eq_comm]

end Members

end TestJob
