import Mathlib
import TestJob.Proofs.Toml.Order

/-!
The shape that a conversion keeps. `Toml.Mirrors` says that a JSON value has the shape of a TOML
value and the same data in its places: items in the same order, the same keys, texts, flags and
numbers as they are. The JSON value that a conversion gives is the one that mirrors the TOML value,
with dates and times spelled out (`toJson_eq_ok_iff`). `Occurs` are the parts of a value at any
depth: each part of a mirror mirrors a part, so null is none of them (`not_occurs_null`).
-/

namespace TestJob

/-- A value stands in another, at any depth, or is it. -/
inductive Json.Occurs (part : Json) : Json → Prop where
  | here : Occurs part part
  | item {items : List Json} {item : Json} (hitem : item ∈ items) (hpart : Occurs part item) :
    Occurs part (.arr items)
  | member {members : List (String × Json)} {m : String × Json} (hm : m ∈ members)
    (hpart : Occurs part m.2) : Occurs part (.obj members)

namespace Toml

/-- A value stands in another, at any depth, or is it. -/
inductive Occurs (part : Toml) : Toml → Prop where
  | here : Occurs part part
  | item {items : List Toml} {item : Toml} (hitem : item ∈ items) (hpart : Occurs part item) :
    Occurs part (.array items)
  | member {members : List (String × Toml)} {m : String × Toml} (hm : m ∈ members)
    (hpart : Occurs part m.2) : Occurs part (.table members)

/-- A JSON value has the shape of a TOML value and the same data in its places, where dates and
times are the texts that spell them. -/
inductive Mirrors (spell : Datetime → Option String) : Toml → Json → Prop where
  | string (s : String) : Mirrors spell (.string s) (.str s)
  | integer (n : Int) (fits : Fits n) (fits' : Number.Fits n) :
    Mirrors spell (.integer n fits) (.num (.int n fits'))
  | float (x : Binary64) : Mirrors spell (.float (.finite x)) (.num (.float x))
  | boolean (b : Bool) : Mirrors spell (.boolean b) (.bool b)
  | datetime {date : Datetime} {text : String} (htext : spell date = some text) :
    Mirrors spell (.datetime date) (.str text)
  | array {items : List Toml} {values : List Json}
    (hitems : List.Forall₂ (Mirrors spell) items values) :
    Mirrors spell (.array items) (.arr values)
  -- the keys stand apart from the values, since only the relation itself may be nested in a list
  | table {members : List (String × Toml)} {values : List (String × Json)}
    (hkeys : Members.keys members = Members.keys values)
    (hvalues : List.Forall₂ (Mirrors spell) (members.map Prod.snd) (values.map Prod.snd)) :
    Mirrors spell (.table members) (.obj values)

/-- A JSON value holds the same data, which no date or time has a counterpart in. -/
def SameData : Toml → Json → Prop := Mirrors fun _ => none

/-- A property that every array has if its items have it, and every table if its members do. -/
@[elab_as_elim]
theorem induction {motive : Toml → Prop} (string : ∀ s, motive (.string s))
    (integer : ∀ n fits, motive (.integer n fits)) (float : ∀ x, motive (.float x))
    (boolean : ∀ b, motive (.boolean b)) (datetime : ∀ d, motive (.datetime d))
    (array : ∀ items, (∀ item ∈ items, motive item) → motive (.array items))
    (table : ∀ members, (∀ m ∈ members, motive m.2) → motive (.table members))
    (value : Toml) : motive value :=
  @Toml.rec motive (fun items => ∀ item ∈ items, motive item)
    (fun members => ∀ m ∈ members, motive m.2) (fun m => motive m.2) string integer float boolean
    datetime array table
    (fun _ h => absurd h List.not_mem_nil)
    (fun _ _ hfirst hrest => List.forall_mem_cons.2 ⟨hfirst, hrest⟩)
    (fun _ h => absurd h List.not_mem_nil)
    (fun _ _ hfirst hrest => List.forall_mem_cons.2 ⟨hfirst, hrest⟩)
    (fun _ _ h => h) value

/-! ### Parts -/

section Parts

variable {part : Toml}

theorem occurs_array_iff {items : List Toml} :
    Occurs part (.array items) ↔ part = .array items ∨ ∃ item ∈ items, Occurs part item := by
  constructor
  · rintro (_ | ⟨hitem, hpart⟩)
    exacts [.inl rfl, .inr ⟨_, hitem, hpart⟩]
  · rintro (rfl | ⟨item, hitem, hpart⟩)
    exacts [.here, .item hitem hpart]

theorem occurs_table_iff {members : List (String × Toml)} :
    Occurs part (.table members) ↔ part = .table members ∨ ∃ m ∈ members, Occurs part m.2 := by
  constructor
  · rintro (_ | _ | ⟨hm, hpart⟩)
    exacts [.inl rfl, .inr ⟨_, hm, hpart⟩]
  · rintro (rfl | ⟨m, hm, hpart⟩)
    exacts [.here, .member hm hpart]

/-- A value that is no container has no other part. -/
theorem occurs_leaf_iff {value : Toml} (harray : ∀ items, value ≠ .array items)
    (htable : ∀ members, value ≠ .table members) : Occurs part value ↔ part = value := by
  constructor
  · rintro (_ | ⟨_, _⟩ | ⟨_, _⟩)
    exacts [rfl, absurd rfl (harray _), absurd rfl (htable _)]
  · rintro rfl
    exact .here

end Parts

/-! ### Containers -/

/-- Lists are related place by place alike, where the relations agree on the items of the first. -/
theorem forall₂_congr {α β : Type} {r s : α → β → Prop} {xs : List α} {ys : List β}
    (h : ∀ x ∈ xs, ∀ y, r x y ↔ s x y) : List.Forall₂ r xs ys ↔ List.Forall₂ s xs ys := by
  induction xs generalizing ys with
  | nil => simp
  | cons x xs ih =>
    obtain ⟨hfirst, hrest⟩ := List.forall_mem_cons.1 h
    simp only [List.forall₂_cons_left_iff, hfirst, ih hrest]

/-- Members are related place by place when their keys are the same and their values are related. -/
theorem forall₂_members_iff {α β : Type} {r : α → β → Prop} {members : List (String × α)}
    {values : List (String × β)} :
    List.Forall₂ (fun m v => m.1 = v.1 ∧ r m.2 v.2) members values ↔
      Members.keys members = Members.keys values ∧
        List.Forall₂ r (members.map Prod.snd) (values.map Prod.snd) := by
  induction members generalizing values with
  | nil => cases values <;> simp [Members.keys]
  | cons m rest ih =>
    cases values with
    | nil => simp
    | cons v values =>
      simp only [List.forall₂_cons, ih, Members.keys, List.map_cons, List.cons.injEq]
      tauto

/-! ### Mirrors -/

section Mirrors

variable {spell : Datetime → Option String} {value : Toml} {json : Json}

theorem mirrors_array_iff {items : List Toml} :
    Mirrors spell (.array items) json ↔
      ∃ values, json = .arr values ∧ List.Forall₂ (Mirrors spell) items values := by
  constructor
  · rintro ⟨⟩
    exact ⟨_, rfl, ‹_›⟩
  · rintro ⟨values, rfl, h⟩
    exact .array h

theorem mirrors_table_iff {members : List (String × Toml)} :
    Mirrors spell (.table members) json ↔ ∃ values, json = .obj values ∧
      List.Forall₂ (fun m v => m.1 = v.1 ∧ Mirrors spell m.2 v.2) members values := by
  constructor
  · rintro ⟨⟩
    exact ⟨_, rfl, forall₂_members_iff.2 ⟨‹_›, ‹_›⟩⟩
  · rintro ⟨values, rfl, h⟩
    obtain ⟨hkeys, hvalues⟩ := forall₂_members_iff.1 h
    exact .table hkeys hvalues

/-- A conversion gives the value that mirrors, with dates and times spelled out, and no other. -/
theorem toJson_eq_ok_iff (value : Toml) :
    ∀ {json}, toJson value = .ok json ↔ Mirrors (some ∘ Datetime.text) value json := by
  induction value using Toml.induction with
  | string s =>
    intro json
    constructor <;> rintro ⟨⟩
    exacts [.string s, rfl]
  | integer n fits =>
    intro json
    constructor <;> rintro ⟨⟩
    exacts [.integer n fits _, rfl]
  | float x =>
    intro json
    constructor
    · cases x <;> rintro ⟨⟩
      exact .float _
    · rintro ⟨⟩
      rfl
  | boolean b =>
    intro json
    constructor <;> rintro ⟨⟩
    exacts [.boolean b, rfl]
  | datetime d =>
    intro json
    constructor
    · rintro ⟨⟩
      exact .datetime rfl
    · rintro (_ | _ | _ | _ | htext)
      rw [toJson, Option.some.inj htext]
  | array items ih =>
    intro json
    rw [toJson_array_eq_ok_iff, mirrors_array_iff]
    refine exists_congr fun values => and_congr_right fun _ => ?_
    exact forall₂_congr fun item hitem _ => ih item hitem
  | table members ih =>
    intro json
    rw [toJson_table_eq_ok_iff, mirrors_table_iff]
    refine exists_congr fun values => and_congr_right fun _ => ?_
    exact forall₂_congr fun m hm _ => and_congr_right fun _ => ih m hm

/-- Each part of a value that mirrors another mirrors a part of it. -/
theorem Mirrors.exists_occurs {part : Json} (h : Mirrors spell value json)
    (hpart : Json.Occurs part json) :
    ∃ source, Occurs source value ∧ Mirrors spell source part := by
  induction hpart generalizing value with
  | here => exact ⟨value, .here, h⟩
  | item hitem _ ih =>
    cases h with
    | array hitems =>
      obtain ⟨item, hmem, h⟩ := Json.exists_mem_of_forall₂ hitems _ hitem
      obtain ⟨source, hsource, hmirrors⟩ := ih h
      exact ⟨source, .item hmem hsource, hmirrors⟩
  | member hm _ ih =>
    cases h with
    | table hkeys hvalues =>
      obtain ⟨m, hmem, _, h⟩ :=
        Json.exists_mem_of_forall₂ (forall₂_members_iff.2 ⟨hkeys, hvalues⟩) _ hm
      obtain ⟨source, hsource, hmirrors⟩ := ih h
      exact ⟨source, .member hmem hsource, hmirrors⟩

/-- TOML has no null, so no mirror has one, at any depth. -/
theorem Mirrors.not_occurs_null (h : Mirrors spell value json) : ¬Json.Occurs .null json := by
  intro hnull
  obtain ⟨_, _, hmirrors⟩ := h.exists_occurs hnull
  cases hmirrors

/-- Only the dates and times of a value have a say in how they are spelled. -/
theorem mirrors_congr {spell' : Datetime → Option String} (value : Toml) :
    ∀ {json}, (∀ d, Occurs (.datetime d) value → spell d = spell' d) →
      (Mirrors spell value json ↔ Mirrors spell' value json) := by
  induction value using Toml.induction with
  | string s =>
    intro json _
    constructor <;> rintro ⟨⟩ <;> exact .string s
  | integer n fits =>
    intro json _
    constructor <;> rintro ⟨⟩ <;> exact .integer n fits _
  | float x =>
    intro json _
    constructor <;> rintro ⟨⟩ <;> exact .float _
  | boolean b =>
    intro json _
    constructor <;> rintro ⟨⟩ <;> exact .boolean b
  | datetime d =>
    intro json hspell
    constructor <;> rintro (_ | _ | _ | _ | htext)
    · exact .datetime (hspell d .here ▸ htext)
    · exact .datetime ((hspell d .here).trans htext)
  | array items ih =>
    intro json hspell
    rw [mirrors_array_iff, mirrors_array_iff]
    refine exists_congr fun values => and_congr_right fun _ => ?_
    exact forall₂_congr fun item hitem _ => ih item hitem fun d hd => hspell d (.item hitem hd)
  | table members ih =>
    intro json hspell
    rw [mirrors_table_iff, mirrors_table_iff]
    refine exists_congr fun values => and_congr_right fun _ => ?_
    exact forall₂_congr fun m hm _ => and_congr_right fun _ =>
      ih m hm fun d hd => hspell d (.member hm hd)

/-- Without dates and times a mirror holds the same data. -/
theorem sameData_iff (hdates : ∀ d, ¬Occurs (.datetime d) value) :
    SameData value json ↔ Mirrors spell value json :=
  mirrors_congr value fun d hd => absurd hd (hdates d)

end Mirrors

/-! ### Floats -/

theorem itemFloats_eq (items : List Toml) : itemFloats items = items.flatMap floats := by
  induction items with
  | nil => rfl
  | cons item rest ih => rw [itemFloats, ih, List.flatMap_cons]

theorem memberFloats_eq (members : List (String × Toml)) :
    memberFloats members = members.flatMap fun m => floats m.2 := by
  induction members with
  | nil => rfl
  | cons m rest ih => rw [memberFloats, ih, List.flatMap_cons]

/-- The floats that stand in a value, at any depth, are all among its floats. -/
theorem mem_floats_iff (value : Toml) : ∀ {x}, x ∈ floats value ↔ Occurs (.float x) value := by
  induction value using Toml.induction with
  | string s => simp [floats, occurs_leaf_iff]
  | integer n fits => simp [floats, occurs_leaf_iff]
  | float y => simp [floats, occurs_leaf_iff]
  | boolean b => simp [floats, occurs_leaf_iff]
  | datetime d => simp [floats, occurs_leaf_iff]
  | array items ih =>
    simp only [floats, itemFloats_eq, List.mem_flatMap, occurs_array_iff, reduceCtorEq, false_or]
    exact exists_congr fun item => and_congr_right fun hitem => ih item hitem
  | table members ih =>
    simp only [floats, memberFloats_eq, List.mem_flatMap, occurs_table_iff, reduceCtorEq, false_or]
    exact exists_congr fun m => and_congr_right fun hm => ih m hm

/-- Of the floats of a value that JSON does not have, the first: those before it are finite. -/
def FirstNonFinite (value : Toml) (e : NonFinite) : Prop :=
  ∃ before x after, floats value = before ++ x :: after ∧ x.nonFinite? = some e ∧
    ∀ y ∈ before, y.nonFinite? = none

theorem toJson_eq_error_iff_first {value : Toml} {e : NonFinite} :
    toJson value = .error e ↔ FirstNonFinite value e := by
  rw [toJson_eq_error_iff, firstNonFinite?, List.findSome?_eq_some_iff, FirstNonFinite]

/-- A conversion fails when a float that JSON does not have stands anywhere. -/
theorem exists_toJson_eq_error_iff {value : Toml} :
    (∃ e, toJson value = .error e) ↔
      ∃ x e, Occurs (.float x) value ∧ x.nonFinite? = some e := by
  simp_rw [toJson_eq_error_iff, firstNonFinite?, ← Option.isSome_iff_exists,
    List.findSome?_isSome_iff, mem_floats_iff, Option.isSome_iff_exists, exists_and_left]

/-! ### The tables of a document -/

/-- The tables of a table in order are in order, if those of its members are. -/
theorem ascending_of_membersToToml? {written : List (String × Written)}
    {members table : List (String × Toml)} (h : Written.membersToToml? [] written = some members)
    (hordered : (Written.table written).Ordered)
    (hvalues : ∀ m ∈ written, ∀ {value}, m.2.toToml? = some value → m.2.Ordered →
      Occurs (.table table) value → Members.Ascending table)
    (htable : Occurs (.table table) (.table members)) : Members.Ascending table := by
  obtain ⟨hascending, hordered⟩ := Written.ordered_table.1 hordered
  obtain ⟨values, rfl, hforall⟩ := Written.exists_of_membersToToml? h
  rcases htable with _ | _ | ⟨hmem, htable⟩
  · exact hascending.of_keys_eq
      (forall₂_members_iff (r := fun w t => w.toToml? = some t).1 hforall).1
  · obtain ⟨m, hm, _, hvalue⟩ := Json.exists_mem_of_forall₂ hforall _ hmem
    exact hvalues m hm hvalue (hordered m hm) htable

/-- What a value in order stands for has its keys in ascending order, at any depth. -/
theorem ascending_of_toToml? {table : List (String × Toml)} (written : Written) :
    ∀ {value}, written.toToml? = some value → written.Ordered →
      Occurs (.table table) value → Members.Ascending table := by
  induction written using Written.induction with
  | string s => rintro _ ⟨⟩ _ ⟨⟩
  | integer n =>
    intro value h _ htable
    obtain ⟨m, _, hm⟩ := Option.bind_eq_some_iff.1 h
    obtain ⟨_, rfl⟩ := Written.exists_of_inRange? hm
    cases htable
  | float x =>
    intro value h _ htable
    obtain ⟨_, _, rfl⟩ := Option.map_eq_some_iff.1 h
    cases htable
  | boolean b => rintro _ ⟨⟩ _ ⟨⟩
  | datetime d => rintro _ ⟨⟩ _ ⟨⟩
  | array items ih =>
    intro value h hordered htable
    rw [Written.toToml?, Option.map_eq_some_iff] at h
    obtain ⟨_, hvalues, rfl⟩ := h
    obtain ⟨values, rfl, hforall⟩ := Written.exists_of_itemsToToml? hvalues
    rcases htable with _ | ⟨hmem, htable⟩
    obtain ⟨item, hitem, hvalue⟩ := Json.exists_mem_of_forall₂ hforall _ hmem
    exact ih item hitem hvalue (Written.ordered_array.1 hordered item hitem) htable
  | table members ih =>
    intro value h hordered htable
    by_cases hdate : Written.IsDate members
    · obtain ⟨_, rfl⟩ := Written.toToml?_table_of_isDate hdate h
      cases htable
    · rw [Written.toToml?_table_of_not_isDate hdate, Option.map_eq_some_iff] at h
      obtain ⟨_, hvalues, rfl⟩ := h
      exact ascending_of_membersToToml? hvalues hordered ih htable

/-- Every table of a document has its keys in ascending order. -/
theorem ascending_of_occurs {text : String} {members table : List (String × Toml)}
    (h : read? text = some members) (htable : Occurs (.table table) (.table members)) :
    Members.Ascending table := by
  obtain ⟨written, hwritten, hmembers⟩ := Option.bind_eq_some_iff.1 h
  exact ascending_of_membersToToml? hmembers (ordered_readWritten? hwritten)
    (fun m _ => ascending_of_toToml? m.2) htable

end Toml

end TestJob
