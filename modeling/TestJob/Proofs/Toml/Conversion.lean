import Mathlib
import TestJob.NormalizeError
import TestJob.Toml.ToJson
import TestJob.Toml.Written

/-!
From what is written in a document to JSON values. A written value gives a JSON value when its
numbers are in range, the texts under reserved keys spell dates or times, and no float is infinite
or not a number (`Written.Gives`). Containers are gone through item by item, so an array gives an
array of what its items give, and a table an object with the same keys; the kind of the JSON value
can be read off the written one (`Written.Gives.kind_eq`). What stops a conversion is the first of
the floats that JSON does not have (`toJson_eq_error_iff`).
-/

namespace TestJob.Toml

namespace Written

/-- A property that every array has if its items have it, and every table if its members do. -/
@[elab_as_elim]
theorem induction {motive : Written → Prop} (string : ∀ s, motive (.string s))
    (integer : ∀ n, motive (.integer n)) (float : ∀ x, motive (.float x))
    (boolean : ∀ b, motive (.boolean b)) (datetime : ∀ d, motive (.datetime d))
    (array : ∀ items, (∀ item ∈ items, motive item) → motive (.array items))
    (table : ∀ members, (∀ m ∈ members, motive m.2) → motive (.table members))
    (value : Written) : motive value :=
  @Written.rec motive (fun items => ∀ item ∈ items, motive item)
    (fun members => ∀ m ∈ members, motive m.2) (fun m => motive m.2) string integer float boolean
    datetime array table
    (fun _ h => absurd h List.not_mem_nil)
    (fun _ _ hfirst hrest => List.forall_mem_cons.2 ⟨hfirst, hrest⟩)
    (fun _ h => absurd h List.not_mem_nil)
    (fun _ _ hfirst hrest => List.forall_mem_cons.2 ⟨hfirst, hrest⟩)
    (fun _ _ h => h) value

/-! ### Containers -/

theorem exists_of_itemsToToml? :
    ∀ {items : List Written} {made values : List Toml}, itemsToToml? made items = some values →
      ∃ rest, values = made.reverse ++ rest ∧
        List.Forall₂ (fun item value => toToml? item = some value) items rest
  | [], made, values, h => by
    rw [itemsToToml?] at h
    exact ⟨[], by rw [List.append_nil, Option.some.inj h], .nil⟩
  | item :: items, made, values, h => by
    rw [itemsToToml?] at h
    cases hitem : toToml? item with
    | none => simp [hitem] at h
    | some value =>
      rw [hitem] at h
      obtain ⟨rest, rfl, hrest⟩ := exists_of_itemsToToml? h
      exact ⟨value :: rest, by simp, .cons hitem hrest⟩

theorem exists_of_membersToToml? :
    ∀ {members : List (String × Written)} {made values : List (String × Toml)},
      membersToToml? made members = some values →
      ∃ rest, values = made.reverse ++ rest ∧
        List.Forall₂ (fun m value => m.1 = value.1 ∧ toToml? m.2 = some value.2) members rest
  | [], made, values, h => by
    rw [membersToToml?] at h
    exact ⟨[], by rw [List.append_nil, Option.some.inj h], .nil⟩
  | (key, item) :: members, made, values, h => by
    rw [membersToToml?] at h
    cases hitem : toToml? item with
    | none => simp [hitem] at h
    | some value =>
      rw [hitem] at h
      obtain ⟨rest, rfl, hrest⟩ := exists_of_membersToToml? h
      exact ⟨(key, value) :: rest, by simp, .cons ⟨rfl, hitem⟩ hrest⟩

end Written

theorem exists_of_itemsToJson :
    ∀ {items : List Toml} {made values : List Json}, itemsToJson made items = .ok values →
      ∃ rest, values = made.reverse ++ rest ∧
        List.Forall₂ (fun item value => toJson item = .ok value) items rest
  | [], made, values, h => by
    rw [itemsToJson] at h
    exact ⟨[], by rw [List.append_nil, Except.ok.inj h], .nil⟩
  | item :: items, made, values, h => by
    rw [itemsToJson] at h
    cases hitem : toJson item with
    | error e => simp [hitem] at h
    | ok value =>
      rw [hitem] at h
      obtain ⟨rest, rfl, hrest⟩ := exists_of_itemsToJson h
      exact ⟨value :: rest, by simp, .cons hitem hrest⟩

theorem exists_of_membersToJson :
    ∀ {members : List (String × Toml)} {made values : List (String × Json)},
      membersToJson made members = .ok values →
      ∃ rest, values = made.reverse ++ rest ∧
        List.Forall₂ (fun m value => m.1 = value.1 ∧ toJson m.2 = .ok value.2) members rest
  | [], made, values, h => by
    rw [membersToJson] at h
    exact ⟨[], by rw [List.append_nil, Except.ok.inj h], .nil⟩
  | (key, item) :: members, made, values, h => by
    rw [membersToJson] at h
    cases hitem : toJson item with
    | error e => simp [hitem] at h
    | ok value =>
      rw [hitem] at h
      obtain ⟨rest, rfl, hrest⟩ := exists_of_membersToJson h
      exact ⟨(key, value) :: rest, by simp, .cons ⟨rfl, hitem⟩ hrest⟩

theorem itemsToJson_of_forall₂ {items : List Toml} {values : List Json}
    (h : List.Forall₂ (fun item value => toJson item = .ok value) items values) :
    ∀ made, itemsToJson made items = .ok (made.reverse ++ values) := by
  induction h with
  | nil => simp [itemsToJson]
  | cons hfirst _ ih => simp [itemsToJson, hfirst, ih]

theorem membersToJson_of_forall₂ {members : List (String × Toml)} {values : List (String × Json)}
    (h : List.Forall₂ (fun m v => m.1 = v.1 ∧ toJson m.2 = .ok v.2) members values) :
    ∀ made, membersToJson made members = .ok (made.reverse ++ values) := by
  induction h with
  | nil => simp [membersToJson]
  | cons hfirst _ ih =>
    obtain ⟨hkey, hvalue⟩ := hfirst
    simp [membersToJson, hvalue, ih, hkey]

theorem toJson_array_eq_ok_iff {items : List Toml} {json : Json} :
    toJson (.array items) = .ok json ↔ ∃ values, json = .arr values ∧
      List.Forall₂ (fun item value => toJson item = .ok value) items values := by
  rw [toJson]
  constructor
  · intro h
    cases hvalues : itemsToJson [] items with
    | error e => simp [hvalues, Except.map] at h
    | ok values =>
      rw [hvalues] at h
      obtain ⟨_, rfl, hrest⟩ := exists_of_itemsToJson hvalues
      exact ⟨_, (Except.ok.inj h).symm, hrest⟩
  · rintro ⟨values, rfl, hvalues⟩
    rw [itemsToJson_of_forall₂ hvalues]
    rfl

theorem toJson_table_eq_ok_iff {members : List (String × Toml)} {json : Json} :
    toJson (.table members) = .ok json ↔ ∃ values, json = .obj values ∧
      List.Forall₂ (fun m v => m.1 = v.1 ∧ toJson m.2 = .ok v.2) members values := by
  rw [toJson]
  constructor
  · intro h
    cases hvalues : membersToJson [] members with
    | error e => simp [hvalues, Except.map] at h
    | ok values =>
      rw [hvalues] at h
      obtain ⟨_, rfl, hrest⟩ := exists_of_membersToJson hvalues
      exact ⟨_, (Except.ok.inj h).symm, hrest⟩
  · rintro ⟨values, rfl, hvalues⟩
    rw [membersToJson_of_forall₂ hvalues]
    rfl

/-- Two steps, item by item, are one. -/
theorem forall₂_step {α β γ : Type} {r : α → β → Prop} {s : β → γ → Prop} {xs : List α}
    {ys : List β} (hr : List.Forall₂ r xs ys) :
    ∀ {zs : List γ}, List.Forall₂ s ys zs →
      List.Forall₂ (fun x z => ∃ y, r x y ∧ s y z) xs zs := by
  induction hr with
  | nil =>
    rintro _ ⟨⟩
    exact .nil
  | cons hfirst _ ih =>
    rintro _ (_ | ⟨hnext, hs⟩)
    exact .cons ⟨_, hfirst, hnext⟩ (ih hs)

/-! ### What a written value gives -/

namespace Written

/-- The JSON value that a written one becomes. -/
def Gives (written : Written) (value : Json) : Prop :=
  ∃ toml, toToml? written = some toml ∧ toJson toml = .ok value

/-- Whether a table is written for a date or time: its first key is the reserved one. -/
def IsDate (members : List (String × Written)) : Prop := ∃ m ∈ members.head?, m.1 = dateKey

instance (members : List (String × Written)) : Decidable (IsDate members) :=
  decidable_of_iff (members.head?.any fun m => m.1 = dateKey) (by simp [IsDate, Option.any_eq_true])

/-- The kind of the value that a written one gives: that of its own type, but a text for a date or
time. -/
def kind : Written → ValueKind
  | .string _ => .string
  | .integer _ => .integer
  | .float _ => .float
  | .boolean _ => .boolean
  | .datetime _ => .string
  | .array _ => .sequence
  | .table members => if IsDate members then .string else .mapping

theorem exists_of_inRange? {n : Int} {value : Toml} (h : inRange? n = some value) :
    ∃ fits, value = .integer n fits := by
  rw [inRange?] at h
  split at h
  · next fits => exact ⟨fits, (Option.some.inj h).symm⟩
  · cases h

theorem toToml?_table_of_isDate {members : List (String × Written)} {value : Toml}
    (hdate : IsDate members) (h : toToml? (.table members) = some value) :
    ∃ date, value = .datetime date := by
  obtain ⟨⟨key, first⟩, hhead, rfl⟩ := hdate
  obtain ⟨rest, rfl⟩ : ∃ rest, members = (dateKey, first) :: rest :=
    ⟨members.tail, (List.cons_head?_tail hhead).symm⟩
  rw [toToml?, if_pos rfl, Option.map_eq_some_iff] at h
  obtain ⟨date, _, rfl⟩ := h
  exact ⟨date, rfl⟩

theorem toToml?_table_of_not_isDate {members : List (String × Written)} (h : ¬IsDate members) :
    toToml? (.table members) = (membersToToml? [] members).map .table := by
  cases members with
  | nil => rfl
  | cons m rest =>
    obtain ⟨key, first⟩ := m
    have hkey : key ≠ dateKey := fun heq => h ⟨(key, first), rfl, heq⟩
    rw [toToml?, if_neg hkey, membersToToml?]
    cases toToml? first <;> rfl

theorem gives_members {members : List (String × Written)} {tables : List (String × Toml)}
    {values : List (String × Json)} (h : membersToToml? [] members = some tables)
    (hjson : toJson (.table tables) = .ok (.obj values)) :
    List.Forall₂ (fun m value => m.1 = value.1 ∧ m.2.Gives value.2) members values := by
  obtain ⟨_, rfl, htables⟩ := exists_of_membersToToml? h
  obtain ⟨_, hobject, hvalues⟩ := toJson_table_eq_ok_iff.1 hjson
  obtain rfl := Json.obj.inj hobject
  refine (forall₂_step htables hvalues).imp ?_
  rintro m value ⟨table, ⟨hkey, htable⟩, hkey', hvalue⟩
  exact ⟨hkey.trans hkey', table.2, htable, hvalue⟩

namespace Gives

variable {value : Json}

theorem eq {written : Written} {other : Json} (h : written.Gives value)
    (h' : written.Gives other) : value = other := by
  obtain ⟨toml, htoml, hjson⟩ := h
  obtain ⟨toml', htoml', hjson'⟩ := h'
  obtain rfl : toml = toml' := Option.some.inj (htoml.symm.trans htoml')
  exact Except.ok.inj (hjson.symm.trans hjson')

theorem array {items : List Written} (h : (Written.array items).Gives value) :
    ∃ values, value = .arr values ∧ List.Forall₂ Gives items values := by
  obtain ⟨toml, htoml, hjson⟩ := h
  rw [toToml?, Option.map_eq_some_iff] at htoml
  obtain ⟨tables, htables, rfl⟩ := htoml
  obtain ⟨_, rfl, hitems⟩ := exists_of_itemsToToml? htables
  obtain ⟨values, rfl, hvalues⟩ := toJson_array_eq_ok_iff.1 hjson
  exact ⟨values, rfl, forall₂_step hitems hvalues⟩

theorem table {members : List (String × Written)} (hdate : ¬IsDate members)
    (h : (Written.table members).Gives value) :
    ∃ values, value = .obj values ∧
      List.Forall₂ (fun m value => m.1 = value.1 ∧ m.2.Gives value.2) members values := by
  obtain ⟨toml, htoml, hjson⟩ := h
  rw [toToml?_table_of_not_isDate hdate, Option.map_eq_some_iff] at htoml
  obtain ⟨tables, htables, rfl⟩ := htoml
  obtain ⟨values, rfl, _⟩ := toJson_table_eq_ok_iff.1 hjson
  exact ⟨values, rfl, gives_members htables hjson⟩

theorem date {members : List (String × Written)} (hdate : IsDate members)
    (h : (Written.table members).Gives value) : ∃ text, value = .str text := by
  obtain ⟨toml, htoml, hjson⟩ := h
  obtain ⟨date, rfl⟩ := toToml?_table_of_isDate hdate htoml
  exact ⟨_, (Except.ok.inj hjson).symm⟩

theorem float {x : Option Toml.Real} (h : (Written.float x).Gives value) :
    ∃ y, value = .num (.float y) := by
  obtain ⟨toml, htoml, hjson⟩ := h
  rw [toToml?, Option.map_eq_some_iff] at htoml
  obtain ⟨real, _, rfl⟩ := htoml
  cases real with
  | finite y => exact ⟨y, (Except.ok.inj hjson).symm⟩
  | infinite negative => simp [toJson] at hjson
  | notANumber => simp [toJson] at hjson

theorem integer {n : Option Int} (h : (Written.integer n).Gives value) :
    ∃ m fits, value = .num (.int m fits) := by
  obtain ⟨toml, htoml, hjson⟩ := h
  rw [toToml?, Option.bind_eq_some_iff] at htoml
  obtain ⟨m, _, hm⟩ := htoml
  obtain ⟨fits, rfl⟩ := exists_of_inRange? hm
  exact ⟨m, fits.number, (Except.ok.inj hjson).symm⟩

/-- The kind of the JSON value can be read off the written one. -/
theorem kind_eq {written : Written} (h : written.Gives value) :
    ValueKind.of value = written.kind := by
  cases written with
  | string s =>
    have hvalue : value = .str s := h.eq ⟨.string s, rfl, rfl⟩
    rw [hvalue]
    rfl
  | integer n =>
    obtain ⟨_, _, rfl⟩ := h.integer
    rfl
  | float x =>
    obtain ⟨_, rfl⟩ := h.float
    rfl
  | boolean b =>
    have hvalue : value = .bool b := h.eq ⟨.boolean b, rfl, rfl⟩
    rw [hvalue]
    rfl
  | datetime d =>
    have hvalue : value = .str d.text := h.eq ⟨.datetime d, rfl, rfl⟩
    rw [hvalue]
    rfl
  | array items =>
    obtain ⟨_, rfl, _⟩ := h.array
    rfl
  | table members =>
    rw [kind]
    split
    · next hdate =>
      obtain ⟨_, rfl⟩ := h.date hdate
      rfl
    · next hdate =>
      obtain ⟨_, rfl, _⟩ := h.table hdate
      rfl

end Gives

/-- Written members are found again in what they give. -/
theorem find?_of_forall₂ {key : String} {members : List (String × Written)}
    {values : List (String × Json)} {written : Written}
    (hmembers : List.Forall₂ (fun m value => m.1 = value.1 ∧ m.2.Gives value.2) members values)
    (hwritten : Members.find? key members = some written) :
    ∃ value, Members.find? key values = some value ∧ written.Gives value := by
  induction hmembers with
  | nil => cases hwritten
  | cons hhead _ ih =>
    obtain ⟨hkey, hgives⟩ := hhead
    rw [Members.find?, ← hkey]
    rw [Members.find?] at hwritten
    split at hwritten
    · next heq =>
      obtain rfl := Option.some.inj hwritten
      exact ⟨_, if_pos heq, hgives⟩
    · next hne =>
      rw [if_neg hne]
      exact ih hwritten

end Written

/-! ### Floats without a counterpart -/

/-- The float as one that JSON does not have. -/
def Real.nonFinite? : Real → Option NonFinite
  | .finite _ => none
  | .infinite negative => some (.infinite negative)
  | .notANumber => some .notANumber

mutual

/-- The floats of a value, in the order in which they stand. -/
def floats : Toml → List Real
  | .float value => [value]
  | .array items => itemFloats items
  | .table members => memberFloats members
  | _ => []

/-- The floats of items. -/
def itemFloats : List Toml → List Real
  | [] => []
  | item :: rest => floats item ++ itemFloats rest

/-- The floats of the values of a table. -/
def memberFloats : List (String × Toml) → List Real
  | [] => []
  | (_, item) :: rest => floats item ++ memberFloats rest

end

/-- The first of these floats. -/
def firstNonFinite? (values : List Real) : Option NonFinite := values.findSome? Real.nonFinite?

/-- What stops a conversion. -/
def stop? {α : Type} : Except NonFinite α → Option NonFinite
  | .ok _ => none
  | .error e => some e

theorem stop?_map {α β : Type} (f : α → β) (result : Except NonFinite α) :
    stop? (result.map f) = stop? result := by
  cases result <;> rfl

theorem firstNonFinite?_append (values others : List Real) :
    firstNonFinite? (values ++ others) =
      (firstNonFinite? values).or (firstNonFinite? others) :=
  List.findSome?_append

mutual

/-- A conversion stops at the first float that JSON does not have, and at nothing else. -/
theorem stop?_toJson : ∀ value : Toml, stop? (toJson value) = firstNonFinite? (floats value)
  | .string _ => rfl
  | .integer _ _ => rfl
  | .float (.finite _) => rfl
  | .float (.infinite _) => rfl
  | .float .notANumber => rfl
  | .boolean _ => rfl
  | .datetime _ => rfl
  | .array items => by rw [toJson, stop?_map, floats, stop?_itemsToJson items]
  | .table members => by rw [toJson, stop?_map, floats, stop?_membersToJson members]

theorem stop?_itemsToJson :
    ∀ (items : List Toml) (made : List Json),
      stop? (itemsToJson made items) = firstNonFinite? (itemFloats items)
  | [], _ => rfl
  | item :: rest, made => by
    have hitem := stop?_toJson item
    rw [itemsToJson, itemFloats, firstNonFinite?_append, ← hitem]
    cases toJson item with
    | ok value => exact stop?_itemsToJson rest _
    | error e => rfl

theorem stop?_membersToJson :
    ∀ (members : List (String × Toml)) (made : List (String × Json)),
      stop? (membersToJson made members) = firstNonFinite? (memberFloats members)
  | [], _ => rfl
  | (key, item) :: rest, made => by
    have hitem := stop?_toJson item
    rw [membersToJson, memberFloats, firstNonFinite?_append, ← hitem]
    cases toJson item with
    | ok value => exact stop?_membersToJson rest _
    | error e => rfl

end

theorem toJson_eq_error_iff {value : Toml} {e : NonFinite} :
    toJson value = .error e ↔ firstNonFinite? (floats value) = some e := by
  rw [← stop?_toJson]
  cases toJson value <;> simp [stop?]

end TestJob.Toml
