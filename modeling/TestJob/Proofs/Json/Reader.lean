import Mathlib
import TestJob.Proofs.Json.Writer

/-!
Written values are read back. The tree of a value has the value with its members inserted again,
which for a value whose keys are in order is the value itself (`rearrange_ofList_byWritten`); so
the canonical text of a value without floats is read as that value, as long as it nests no deeper
than a text may (`readWithin?_canonical`).
-/

namespace TestJob

/-- A number that is read back from what is written for it. -/
def Number.ReadsBack (l : Layout) (n : Number) : Prop :=
  ∃ literal, n.literal? l = some literal ∧ literal.number? = some n

theorem Number.readsBack_int (l : Layout) (n : Int) (fits : Fits n) :
    (int n fits).ReadsBack l :=
  ⟨_, literal?_int l n fits, number?_int fits⟩

namespace Json

/-! ### Trees to values -/

section Trees

variable {l : Layout} {bound : Nat} {f : Json → Json}

theorem items?_map :
    ∀ {items read : List Json},
      (∀ item ∈ items, Node.value? bound (node l item) = some (f item)) →
      Node.items? bound read (items.map (node l)) = some (read.reverse ++ items.map f)
  | [], read, _ => by rw [List.map_nil, Node.items?, List.map_nil, List.append_nil]
  | item :: rest, read, h => by
    obtain ⟨hitem, hrest⟩ := List.forall_mem_cons.1 h
    rw [List.map_cons, Node.items?, hitem]
    dsimp only
    rw [items?_map hrest, List.reverse_cons, List.append_assoc, List.map_cons,
      List.singleton_append]

theorem members?_map :
    ∀ {members : List (String × Json)} {read : Record},
      (∀ m ∈ members, Node.value? bound (node l m.2) = some (f m.2)) →
      Node.members? bound read (members.map fun m => (some m.1, node l m.2)) =
        some ((members.map fun m => (m.1, f m.2)).foldl (fun done (k, v) => done.insert k v) read)
  | [], read, _ => by rw [List.map_nil, Node.members?, List.map_nil, List.foldl_nil]
  | (key, value) :: rest, read, h => by
    obtain ⟨hvalue, hrest⟩ := List.forall_mem_cons.1 h
    rw [List.map_cons, Node.members?, List.map_cons, List.foldl_cons, ← members?_map hrest]
    exact hvalue

end Trees

/-- The value of a tree has the members of each object inserted one after the other. -/
theorem value?_node {l : Layout} (value : Json) :
    ∀ {bound : Nat}, EachNumber (Number.ReadsBack l) value → depth value ≤ bound →
      Node.value? bound (node l value) = some (rearrange Members.ofList value) := by
  induction value using Json.induction with
  | null => exact fun _ _ => rfl
  | bool b => exact fun _ _ => rfl
  | num n =>
    rintro bound ⟨literal, hliteral, hnumber⟩ _
    rw [node, hliteral, Node.value?, Option.getD_some, hnumber]
    rfl
  | str s => exact fun _ _ => rfl
  | arr items ih =>
    intro bound hnumbers hdepth
    cases bound with
    | zero => rw [depth] at hdepth; omega
    | succ bound =>
      rw [eachNumber_arr] at hnumbers
      rw [depth_arr_le_iff] at hdepth
      rw [node_arr, Node.value?, rearrange_arr,
        items?_map fun item hitem => ih item hitem (hnumbers item hitem) (hdepth item hitem)]
      rfl
  | obj members ih =>
    intro bound hnumbers hdepth
    cases bound with
    | zero => rw [depth] at hdepth; omega
    | succ bound =>
      rw [eachNumber_obj] at hnumbers
      rw [depth_obj_le_iff] at hdepth
      rw [node_obj, Node.value?, rearrange_obj,
        members?_map fun m hm => ih m hm (hnumbers m hm) (hdepth m hm)]
      rfl

/-! ### Rearranged values -/

section Rearranged

variable {f : List (String × Json) → List (String × Json)}
  (hf : ∀ members, ∀ m ∈ f members, m ∈ members)

include hf

theorem depth_rearrange_le (value : Json) :
    ∀ {bound : Nat}, depth value ≤ bound → depth (rearrange f value) ≤ bound := by
  induction value using Json.induction with
  | null => exact id
  | bool b => exact id
  | num n => exact id
  | str s => exact id
  | arr items ih =>
    intro bound h
    cases bound with
    | zero => rw [depth] at h; omega
    | succ bound =>
      rw [depth_arr_le_iff] at h
      rw [rearrange_arr, depth_arr_le_iff, List.forall_mem_map]
      exact fun item hitem => ih item hitem (h item hitem)
  | obj members ih =>
    intro bound h
    cases bound with
    | zero => rw [depth] at h; omega
    | succ bound =>
      rw [depth_obj_le_iff] at h
      rw [rearrange_obj, depth_obj_le_iff]
      intro m hm
      obtain ⟨first, hfirst, rfl⟩ := List.mem_map.1 (hf _ m hm)
      exact ih first hfirst (h first hfirst)

theorem eachNumber_rearrange {p : Number → Prop} (value : Json) :
    EachNumber p value → EachNumber p (rearrange f value) := by
  induction value using Json.induction with
  | null => exact id
  | bool b => exact id
  | num n => exact id
  | str s => exact id
  | arr items ih =>
    rw [eachNumber_arr, rearrange_arr, eachNumber_arr, List.forall_mem_map]
    exact fun h item hitem => ih item hitem (h item hitem)
  | obj members ih =>
    rw [eachNumber_obj, rearrange_obj, eachNumber_obj]
    intro h m hm
    obtain ⟨first, hfirst, rfl⟩ := List.mem_map.1 (hf _ m hm)
    exact ih first hfirst (h first hfirst)

end Rearranged

/-- Inserting the members again undoes their rearrangement. -/
theorem rearrange_ofList_byWritten (value : Json) :
    Ordered value → rearrange Members.ofList (rearrange byWritten value) = value := by
  induction value using Json.induction with
  | null => exact fun _ => rfl
  | bool b => exact fun _ => rfl
  | num n => exact fun _ => rfl
  | str s => exact fun _ => rfl
  | arr items ih =>
    rw [ordered_arr]
    intro h
    have hitems : items.map (rearrange Members.ofList ∘ rearrange byWritten) = items.map id :=
      List.map_congr_left fun item hitem => ih item hitem (h item hitem)
    rw [rearrange_arr, rearrange_arr, List.map_map, hitems, List.map_id]
  | obj members ih =>
    rw [ordered_obj]
    rintro ⟨hascending, h⟩
    have hmembers : (byWritten members).map (fun m => (m.1,
        rearrange Members.ofList (rearrange byWritten m.2))) = (byWritten members).map id :=
      List.map_congr_left fun m hm => by
        have hmem := mem_of_mem_byWritten hm
        rw [ih m hmem (h m hmem)]
        rfl
    rw [rearrange_obj, rearrange_obj, byWritten_map, List.map_map, Function.comp_def, hmembers,
      List.map_id, Members.ofList_eq_of_perm (byWritten_perm hascending.nodup_keys) hascending]

section Written

variable {l : Layout} {value : Json} {bound : Nat} {space : List Char}
  (hspace : ∀ c ∈ space, Token.isSpace c = true)

include hspace

theorem readWithin?_chars :
    readWithin? bound (String.ofList (chars l id value) ++ String.ofList space) =
      Node.value? bound (node l value) := by
  rw [readWithin?, String.toList_append, String.toList_ofList, String.toList_ofList,
    read?_chars l value hspace, Option.bind_eq_bind, Option.bind_some]

/-- A written value, with white space after it, is read as the value with the members of each
object inserted one after the other. -/
theorem readWithin?_written (hback : EachNumber (Number.ReadsBack l) value)
    (hdepth : depth value ≤ bound) :
    readWithin? bound (String.ofList (chars l id value) ++ String.ofList space) =
      some (rearrange Members.ofList value) := by
  rw [readWithin?_chars hspace, value?_node _ hback hdepth]

/-- The canonical text of a value, with white space after it, is read as the value. -/
theorem readWithin?_canonical (hordered : Ordered value)
    (hback : EachNumber (Number.ReadsBack .canonical) value) (hdepth : depth value ≤ bound) :
    readWithin? bound (value.canonical ++ String.ofList space) = some value := by
  have hmem : ∀ members, ∀ m ∈ byWritten members, m ∈ members := fun _ _ => mem_of_mem_byWritten
  rw [canonical, chars_ofList, readWithin?_written hspace (eachNumber_rearrange hmem value hback)
    (depth_rearrange_le hmem value hdepth), rearrange_ofList_byWritten value hordered]

end Written

theorem read?_canonical_of_floatFree {value : Json} (hordered : Ordered value)
    (hfloat : FloatFree value) (hdepth : depth value ≤ nestingLimit) {space : List Char}
    (hspace : ∀ c ∈ space, Token.isSpace c = true) :
    read? (value.canonical ++ String.ofList space) = some value := by
  refine readWithin?_canonical hspace hordered (hfloat.imp ?_) hdepth
  rintro _ ⟨n, fits, rfl⟩
  exact Number.readsBack_int _ n fits

theorem read?_compact_of_floatFree {value : Json} (hfloat : FloatFree value)
    (hdepth : depth value ≤ nestingLimit) :
    read? value.compact = some (rearrange Members.ofList value) := by
  have hspace : ∀ c ∈ ([] : List Char), Token.isSpace c = true := fun _ hc => by cases hc
  have hread := readWithin?_written (l := .faithful) hspace
    (hfloat.imp fun _ ⟨n, fits, hn⟩ => hn ▸ Number.readsBack_int _ n fits) hdepth
  rwa [String.ofList_nil, String.append_empty] at hread

/-! ### What a reader gives -/

/-- Of two lists related place by place, everything in the second is related to something in the
first. -/
theorem exists_mem_of_forall₂ {α β : Type} {r : α → β → Prop} {xs : List α} {ys : List β}
    (h : List.Forall₂ r xs ys) : ∀ y ∈ ys, ∃ x ∈ xs, r x y := by
  induction h with
  | nil => exact fun y hy => absurd hy List.not_mem_nil
  | cons hfirst _ ih =>
    refine List.forall_mem_cons.2 ⟨⟨_, List.mem_cons_self, hfirst⟩, fun y hy => ?_⟩
    obtain ⟨x, hx, hxy⟩ := ih y hy
    exact ⟨x, List.mem_cons_of_mem _ hx, hxy⟩

namespace Node

theorem exists_of_items? {bound : Nat} :
    ∀ {nodes : List Node} {read values : List Json}, items? bound read nodes = some values →
      ∃ rest, values = read.reverse ++ rest ∧
        List.Forall₂ (fun node value => value? bound node = some value) nodes rest
  | [], read, values, h => by
    rw [items?] at h
    exact ⟨[], by rw [List.append_nil, Option.some.inj h], .nil⟩
  | node :: nodes, read, values, h => by
    rw [items?] at h
    cases hnode : value? bound node with
    | none => simp [hnode] at h
    | some value =>
      rw [hnode] at h
      obtain ⟨rest, rfl, hrest⟩ := exists_of_items? h
      exact ⟨value :: rest, by simp, .cons hnode hrest⟩

theorem exists_of_members? {bound : Nat} :
    ∀ {nodes : List (Option String × Node)} {read record : Record},
      members? bound read nodes = some record →
      ∃ listed, record = listed.foldl (fun done (k, v) => done.insert k v) read ∧
        List.Forall₂ (fun node m => node.1 = some m.1 ∧ value? bound node.2 = some m.2) nodes listed
  | [], read, record, h => by
    rw [members?] at h
    exact ⟨[], (Option.some.inj h).symm, .nil⟩
  | (key, node) :: nodes, read, record, h => by
    cases key with
    | none => simp [members?] at h
    | some key =>
      cases hnode : value? bound node with
      | none => simp [members?, hnode] at h
      | some value =>
        simp only [members?, hnode] at h
        obtain ⟨listed, rfl, hlisted⟩ := exists_of_members? h
        exact ⟨(key, value) :: listed, rfl, .cons ⟨rfl, hnode⟩ hlisted⟩

/-- The value of a tree has its keys in order, and nests no deeper than was allowed. -/
theorem value?_spec (node : Node) :
    ∀ {bound : Nat} {value : Json}, value? bound node = some value →
      Ordered value ∧ depth value ≤ bound := by
  induction node using Node.induction with
  | null =>
    intro bound value h
    rw [value?] at h
    exact Option.some.inj h ▸ ⟨trivial, Nat.zero_le _⟩
  | bool b =>
    intro bound value h
    rw [value?] at h
    exact Option.some.inj h ▸ ⟨trivial, Nat.zero_le _⟩
  | number literal =>
    intro bound value h
    rw [value?] at h
    obtain ⟨n, _, rfl⟩ := Option.map_eq_some_iff.1 h
    exact ⟨trivial, Nat.zero_le _⟩
  | text t =>
    intro bound value h
    rw [value?] at h
    obtain ⟨s, _, rfl⟩ := Option.map_eq_some_iff.1 h
    exact ⟨trivial, Nat.zero_le _⟩
  | array nodes ih =>
    rintro (_ | bound) value h
    · cases h
    · rw [value?] at h
      obtain ⟨values, hvalues, rfl⟩ := Option.map_eq_some_iff.1 h
      obtain ⟨_, rfl, hforall⟩ := exists_of_items? hvalues
      rw [ordered_arr, depth_arr_le_iff, ← forall₂_and]
      intro item hitem
      obtain ⟨node, hnode, hitem⟩ := exists_mem_of_forall₂ hforall item hitem
      exact ih node hnode hitem
  | object nodes ih =>
    rintro (_ | bound) value h
    · cases h
    · rw [value?] at h
      obtain ⟨record, hrecord, rfl⟩ := Option.map_eq_some_iff.1 h
      obtain ⟨listed, rfl, hforall⟩ := exists_of_members? hrecord
      have hmembers : ∀ m ∈ Members.ofList listed, Ordered m.2 ∧ depth m.2 ≤ bound := by
        intro m hm
        obtain ⟨node, hnode, _, hvalue⟩ :=
          exists_mem_of_forall₂ hforall m (Members.mem_of_mem_ofList hm)
        exact ih node hnode hvalue
      exact ⟨ordered_obj.2 ⟨Members.ascending_ofList listed, fun m hm => (hmembers m hm).1⟩,
        depth_obj_le_iff.2 fun m hm => (hmembers m hm).2⟩

/-! ### One member replaced -/

section Replaced

variable {bound : Nat} {key : String} {value value' : Json} {node node' : Node}

theorem members?_cons_some {rest : List (Option String × Node)} {read : Record}
    (h : value? bound node = some value) :
    members? bound read ((some key, node) :: rest) =
      members? bound (Members.insert key value read) rest := by
  simp only [members?, h]

theorem members?_append {earlier later : List (Option String × Node)} {read : Record} :
    members? bound read (earlier ++ later) =
      (members? bound read earlier).bind fun read => members? bound read later := by
  induction earlier generalizing read with
  | nil => rw [List.nil_append, members?, Option.bind_some]
  | cons m rest ih =>
    obtain ⟨_ | key, node⟩ := m
    · rfl
    · rw [List.cons_append]
      cases hnode : value? bound node with
      | none => simp only [members?, hnode, Option.bind_none]
      | some value => rw [members?_cons_some hnode, members?_cons_some hnode, ih]

/-- Later members leave the value of another key as it is. -/
theorem members?_insert :
    ∀ {later : List (Option String × Node)} {read record : Record}, Members.Ascending read →
      (∀ m ∈ later, m.1 ≠ some key) →
      members? bound (Members.insert key value read) later = some record →
      members? bound (Members.insert key value' read) later =
        some (Members.insert key value' record)
  | [], read, record, hread, _, h => by
    rw [members?] at h ⊢
    rw [← Option.some.inj h, Members.insert_insert_self hread]
  | (none, node) :: rest, read, record, _, _, h => by
    simp [members?] at h
  | (some other, node) :: rest, read, record, hread, hlater, h => by
    obtain ⟨hother, hrest⟩ := List.forall_mem_cons.1 hlater
    have hne : other ≠ key := fun heq => hother (congrArg some heq)
    cases hnode : value? bound node with
    | none => simp [members?, hnode] at h
    | some value =>
      rw [members?_cons_some hnode, Members.insert_comm hread hne] at h ⊢
      exact members?_insert (Members.ascending_insert _ _ hread) hrest h

/-- Another value in the place of the last member of a key is the value of that key. -/
theorem value?_object_replace {earlier later : List (Option String × Node)} {record : Record}
    (hnode : value? bound node = some value) (hnode' : value? bound node' = some value')
    (hlater : ∀ m ∈ later, m.1 ≠ some key)
    (h : value? (bound + 1) (.object (earlier ++ (some key, node) :: later)) =
      some (.obj record)) :
    value? (bound + 1) (.object (earlier ++ (some key, node') :: later)) =
      some (.obj (Members.insert key value' record)) := by
  rw [value?, members?_append] at h ⊢
  obtain ⟨_, hrecord, heq⟩ := Option.map_eq_some_iff.1 h
  obtain rfl := Json.obj.inj heq
  obtain ⟨read, hread, hlast⟩ := Option.bind_eq_some_iff.1 hrecord
  obtain ⟨listed, rfl, _⟩ := exists_of_members? hread
  rw [members?_cons_some hnode] at hlast
  have hreplaced : members? bound (Members.insert key value' (Members.ofList listed)) later = _ :=
    members?_insert (Members.ascending_ofList listed) hlater hlast
  rw [hread, Option.bind_some, members?_cons_some hnode']
  exact congrArg (Option.map Json.obj) hreplaced

end Replaced

end Node

theorem readWithin?_spec {bound : Nat} {text : String} {value : Json}
    (h : readWithin? bound text = some value) : Ordered value ∧ depth value ≤ bound := by
  obtain ⟨node, _, hvalue⟩ := Option.bind_eq_some_iff.1 h
  exact Node.value?_spec node hvalue

/-- No value is read from the tree of one that nests deeper than is allowed. -/
theorem depth_le_of_value?_node {l : Layout} (value : Json) :
    ∀ {bound : Nat} {read : Json}, Node.value? bound (node l value) = some read →
      depth value ≤ bound := by
  induction value using Json.induction with
  | null => exact fun _ => Nat.zero_le _
  | bool b => exact fun _ => Nat.zero_le _
  | num n => exact fun _ => Nat.zero_le _
  | str s => exact fun _ => Nat.zero_le _
  | arr items ih =>
    rintro (_ | bound) read h
    · cases h
    · rw [node_arr, Node.value?] at h
      obtain ⟨values, hvalues, rfl⟩ := Option.map_eq_some_iff.1 h
      obtain ⟨_, rfl, hforall⟩ := Node.exists_of_items? hvalues
      rw [depth_arr_le_iff]
      intro item hitem
      obtain ⟨_, _, hread⟩ := exists_mem_of_forall₂ hforall.flip _ (List.mem_map_of_mem hitem)
      exact ih item hitem hread
  | obj members ih =>
    rintro (_ | bound) read h
    · cases h
    · rw [node_obj, Node.value?] at h
      obtain ⟨record, hrecord, rfl⟩ := Option.map_eq_some_iff.1 h
      obtain ⟨_, rfl, hforall⟩ := Node.exists_of_members? hrecord
      rw [depth_obj_le_iff]
      intro m hm
      obtain ⟨_, _, _, hread⟩ := exists_mem_of_forall₂ hforall.flip _ (List.mem_map_of_mem hm)
      exact ih m hm hread

end Json

end TestJob
