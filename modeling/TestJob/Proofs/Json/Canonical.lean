import Mathlib
import TestJob.Proofs.Json.Line
import TestJob.Proofs.Json.Writer
import TestJob.Proofs.KeyOrder
import TestJob.Text.Blank

/-!
What canonical texts look like. `Written` are the texts of a value that have no room between their
parts and list the members of every object once each, in the order that it is given. The canonical
text of a value is one of these for the order of written keys (`written_ofList`), and outside its
string literals there is no white space (`Tight.composes`).
-/

namespace TestJob.Json

/-! ### Outside string literals -/

/-- Where a character of a text stands: outside a string literal, in one, or after a backslash. -/
inductive Place where
  | outside
  | inside
  | escaped

/-- The characters outside the string literals of a text. -/
def outer : Place → List Char → List Char
  | _, [] => []
  | .outside, '"' :: cs => outer .inside cs
  | .outside, c :: cs => c :: outer .outside cs
  | .inside, '"' :: cs => outer .outside cs
  | .inside, '\\' :: cs => outer .escaped cs
  | .inside, _ :: cs => outer .inside cs
  | .escaped, _ :: cs => outer .inside cs

/-- Characters that end outside string literals and have no white space there. -/
def Tight (cs : List Char) : Prop :=
  ∃ marks, (∀ c ∈ marks, Text.isWhiteSpace c = false) ∧
    ∀ rest, outer .outside (cs ++ rest) = marks ++ outer .outside rest

theorem Tight.append {cs ds : List Char} (hcs : Tight cs) (hds : Tight ds) : Tight (cs ++ ds) := by
  obtain ⟨marks, hmarks, hcs⟩ := hcs
  obtain ⟨others, hothers, hds⟩ := hds
  refine ⟨marks ++ others, List.forall_mem_append.2 ⟨hmarks, hothers⟩, fun rest => ?_⟩
  rw [List.append_assoc, hcs, hds, List.append_assoc]

theorem Tight.not_whiteSpace {cs : List Char} (h : Tight cs) :
    ∀ c ∈ outer .outside cs, Text.isWhiteSpace c = false := by
  obtain ⟨marks, hmarks, hcs⟩ := h
  have houter := hcs []
  rw [List.append_nil, outer, List.append_nil] at houter
  rwa [houter]

/-- Characters of which none opens a string literal and none is white space. -/
def Bare (cs : List Char) : Prop := ∀ c ∈ cs, c ≠ '"' ∧ Text.isWhiteSpace c = false

instance (cs : List Char) : Decidable (Bare cs) :=
  List.decidableBAll (fun c : Char => c ≠ '"' ∧ Text.isWhiteSpace c = false) cs

theorem Bare.tight {cs : List Char} (h : Bare cs) : Tight cs := by
  refine ⟨cs, fun c hc => (h c hc).2, fun rest => ?_⟩
  induction cs with
  | nil => rfl
  | cons c cs ih =>
    obtain ⟨hc, hcs⟩ := List.forall_mem_cons.1 h
    rw [List.cons_append, outer, ih hcs, List.cons_append]
    exact hc.1

theorem bare_of_isDigit {c : Char} (h : c.isDigit = true) :
    c ≠ '"' ∧ Text.isWhiteSpace c = false := by
  have hdigit : 48 ≤ c.toNat ∧ c.toNat ≤ 57 := by
    simpa [Char.isDigit, UInt32.le_iff_toNat_le] using h
  constructor
  · rintro rfl
    exact absurd hdigit (by decide)
  · simp [Text.isWhiteSpace, Text.whiteSpaceRanges]
    omega

theorem Numeric.bare {cs : List Char} (h : Numeric cs) : Bare cs := by
  intro c hc
  rcases h c hc with hdigit | rfl | rfl | rfl | rfl
  · exact bare_of_isDigit hdigit
  all_goals decide

theorem outer_inside_cons {c : Char} (hquote : c ≠ '"') (hbackslash : c ≠ '\\')
    (rest : List Char) : outer .inside (c :: rest) = outer .inside rest := by
  rw [outer]
  exacts [hquote, hbackslash]

theorem digitChar_ne : ∀ d < 16, Nat.digitChar d ≠ '"' ∧ Nat.digitChar d ≠ '\\' := by decide

/-- No escape ends the literal that it stands in. -/
theorem outer_escape (c : Char) (rest : List Char) :
    outer .inside (escape c ++ rest) = outer .inside rest := by
  rw [escape.eq_def]
  split
  case h_8 hquote hbackslash _ _ _ _ _ =>
    split_ifs with hlow
    · have hhigh := digitChar_ne (c.toNat / 16) (by omega)
      have hrest := digitChar_ne (c.toNat % 16) (by omega)
      change outer .inside (_ :: _ :: rest) = _
      rw [outer_inside_cons hhigh.1 hhigh.2, outer_inside_cons hrest.1 hrest.2]
    · exact outer_inside_cons hquote hbackslash rest
  all_goals rfl

theorem outer_flatMap_escape (cs rest : List Char) :
    outer .inside (cs.flatMap escape ++ rest) = outer .inside rest := by
  induction cs with
  | nil => rfl
  | cons c cs ih => rw [List.flatMap_cons, List.append_assoc, outer_escape, ih]

theorem tight_quote (s : String) : Tight (quote s) := by
  refine ⟨[], List.forall_mem_nil _, fun rest => ?_⟩
  rw [quote, List.cons_append, List.cons_append, outer, List.append_assoc, outer_flatMap_escape]
  rfl

theorem Tight.composes : Composes Tight where
  nil := Bare.tight (by decide)
  append := Tight.append
  mark c hc :=
    have hmarks : Bare ['[', ']', '{', '}', ':', ','] := by decide
    Bare.tight (List.forall_mem_singleton.2 (hmarks c hc))
  null := Bare.tight (by decide)
  yes := Bare.tight (by decide)
  no := Bare.tight (by decide)
  quote := tight_quote

/-- What is written for a value has no white space outside its string literals. -/
theorem tight_chars (l : Layout) (value : Json) : Tight (chars l id value) :=
  Tight.composes.chars value (.of_forall fun n => (Numeric.numberChars l n).bare.tight)

example : outer .outside "[\"a \\\" b\", 1]".toList = "[, 1]".toList := by decide

/-! ### Members in order -/

mutual

/-- The keys of all objects in a value, at any depth. -/
def allKeys : Json → List String
  | .arr items => itemKeys items
  | .obj members => memberKeys members
  | _ => []

/-- The keys of all objects in each item. -/
def itemKeys : List Json → List String
  | [] => []
  | item :: rest => allKeys item ++ itemKeys rest

/-- Each key, and the keys of all objects in its value. -/
def memberKeys : List (String × Json) → List String
  | [] => []
  | (key, value) :: rest => key :: allKeys value ++ memberKeys rest

end

theorem itemKeys_eq : ∀ items : List Json, itemKeys items = items.flatMap allKeys
  | [] => rfl
  | item :: rest => by rw [itemKeys, itemKeys_eq, List.flatMap_cons]

theorem memberKeys_eq :
    ∀ members : List (String × Json),
      memberKeys members = members.flatMap fun m => m.1 :: allKeys m.2
  | [] => rfl
  | (key, value) :: rest => by rw [memberKeys, memberKeys_eq, List.flatMap_cons]

theorem mem_allKeys_arr {key : String} {items : List Json} :
    key ∈ allKeys (.arr items) ↔ ∃ item ∈ items, key ∈ allKeys item := by
  rw [allKeys, itemKeys_eq, List.mem_flatMap]

theorem mem_allKeys_obj {key : String} {members : List (String × Json)} :
    key ∈ allKeys (.obj members) ↔ ∃ m ∈ members, key = m.1 ∨ key ∈ allKeys m.2 := by
  simp only [allKeys, memberKeys_eq, List.mem_flatMap, List.mem_cons]

/-- The canonical texts of a value, where the members of every object stand in an order of keys:
nothing stands between the parts of an array or an object but commas and colons, and each member is
listed once. -/
inductive Written (before : String → String → Prop) : Json → List Char → Prop where
  | null : Written before .null ['n', 'u', 'l', 'l']
  | yes : Written before (.bool true) ['t', 'r', 'u', 'e']
  | no : Written before (.bool false) ['f', 'a', 'l', 's', 'e']
  | num (n : Number) : Written before (.num n) (numberChars .canonical n)
  | str (s : String) : Written before (.str s) (quote s)
  | arr {items : List Json} {texts : List (List Char)}
    (htexts : List.Forall₂ (Written before) items texts) :
    Written before (.arr items) (bracket '[' ']' texts)
  -- the keys stand apart from the values, since only the relation itself may be nested in a list
  | obj {members listed : List (String × Json)} {texts : List (List Char)}
    (hlisted : listed.Perm members) (horder : (Members.keys listed).Pairwise before)
    (htexts : List.Forall₂ (Written before) (listed.map Prod.snd) texts) :
    Written before (.obj members) (bracket '{' '}'
      (List.zipWith (fun key text => quote key ++ ':' :: text) (Members.keys listed) texts))

theorem pairwise_byWritten (members : List (String × Json)) :
    (byWritten members).Pairwise fun m other => quote m.1 < quote other.1 := by
  have hascending := Members.ascending_ofList (members.map fun m => (quote m.1, m))
  rw [ofList_written fun m => m, Members.Ascending, List.pairwise_map] at hascending
  exact hascending

/-- The canonical text of a value lists members in every order that goes along with the order of
their written keys. -/
theorem written_ofList {before : String → String → Prop} (value : Json) :
    Ordered value →
    (∀ key ∈ allKeys value, ∀ other ∈ allKeys value, quote key < quote other → before key other) →
      Written before value (chars .canonical Members.ofList value) := by
  induction value using Json.induction with
  | null => exact fun _ _ => .null
  | bool b =>
    cases b with
    | true => exact fun _ _ => .yes
    | false => exact fun _ _ => .no
  | num n => exact fun _ _ => .num n
  | str s => exact fun _ _ => .str s
  | arr items ih =>
    rw [ordered_arr, chars_arr]
    intro hordered hbefore
    refine .arr (List.forall₂_map_right_iff.2 (List.forall₂_same.2 fun item hitem => ?_))
    have hkeys : ∀ key ∈ allKeys item, key ∈ allKeys (.arr items) := fun key hkey =>
      mem_allKeys_arr.2 ⟨item, hitem, hkey⟩
    exact ih item hitem (hordered item hitem) fun key hkey other hother =>
      hbefore key (hkeys key hkey) other (hkeys other hother)
  | obj members ih =>
    rw [ordered_obj, chars_obj, ofList_written fun m => chars .canonical Members.ofList m.2]
    intro ⟨hascending, hordered⟩ hbefore
    have hkey : ∀ m ∈ byWritten members, m.1 ∈ allKeys (.obj members) := fun m hm =>
      mem_allKeys_obj.2 ⟨m, mem_of_mem_byWritten hm, .inl rfl⟩
    have horder : (Members.keys (byWritten members)).Pairwise before := by
      rw [Members.keys, List.pairwise_map]
      exact (pairwise_byWritten members).imp_of_mem fun {m other} hm hother =>
        hbefore m.1 (hkey m hm) other.1 (hkey other hother)
    have hvalue : ∀ m ∈ byWritten members,
        Written before m.2 (chars .canonical Members.ofList m.2) := by
      intro m hm
      have hmem := mem_of_mem_byWritten hm
      have hkeys : ∀ key ∈ allKeys m.2, key ∈ allKeys (.obj members) := fun key hkey =>
        mem_allKeys_obj.2 ⟨m, hmem, .inr hkey⟩
      exact ih m hmem (hordered m hmem) fun key hkey other hother =>
        hbefore key (hkeys key hkey) other (hkeys other hother)
    have htexts : List.Forall₂ (Written before) ((byWritten members).map Prod.snd)
        ((byWritten members).map fun m => chars .canonical Members.ofList m.2) :=
      List.forall₂_map_left_iff.2 (List.forall₂_map_right_iff.2 (List.forall₂_same.2 hvalue))
    have hwritten := Written.obj (byWritten_perm hascending.nodup_keys) horder htexts
    rw [Members.keys, List.zipWith_map, List.zipWith_self] at hwritten
    rw [List.map_map]
    exact hwritten

end TestJob.Json
