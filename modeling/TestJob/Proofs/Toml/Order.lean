import Mathlib
import TestJob.Proofs.Json.Reader
import TestJob.Proofs.Toml.Conversion
import TestJob.Toml.Reader

/-!
The order of keys in TOML documents. Every table of a document has its keys in ascending order, at
any depth (`ordered_readWritten?`): a table is only ever changed by giving a key a value, and what
is given is in order itself. So the JSON value of a document is in order too (`Gives.ordered`).
-/

namespace TestJob.Toml

namespace Written

mutual

/-- Every table, at any depth, has its keys in ascending order. -/
def Ordered : Written → Prop
  | .array items => OrderedItems items
  | .table members => Members.Ascending members ∧ OrderedMembers members
  | _ => True

/-- `Ordered` of each item. -/
def OrderedItems : List Written → Prop
  | [] => True
  | item :: rest => Ordered item ∧ OrderedItems rest

/-- `Ordered` of each value. -/
def OrderedMembers : List (String × Written) → Prop
  | [] => True
  | (_, value) :: rest => Ordered value ∧ OrderedMembers rest

end

theorem orderedItems_iff :
    ∀ {items : List Written}, OrderedItems items ↔ ∀ item ∈ items, Ordered item
  | [] => by simp [OrderedItems]
  | item :: rest => by rw [OrderedItems, orderedItems_iff, List.forall_mem_cons]

theorem orderedMembers_iff :
    ∀ {members : List (String × Written)}, OrderedMembers members ↔ ∀ m ∈ members, Ordered m.2
  | [] => by simp [OrderedMembers]
  | (_, value) :: rest => by rw [OrderedMembers, orderedMembers_iff, List.forall_mem_cons]

theorem ordered_array {items : List Written} :
    Ordered (.array items) ↔ ∀ item ∈ items, Ordered item := by
  rw [Ordered, orderedItems_iff]

theorem ordered_table {members : List (String × Written)} :
    Ordered (.table members) ↔ Members.Ascending members ∧ ∀ m ∈ members, Ordered m.2 := by
  rw [Ordered, orderedMembers_iff]

/-- What tables in order give is in order. -/
theorem ascending_of_forall₂ {members : List (String × Written)} {values : List (String × Json)}
    (h : List.Forall₂ (fun m value => m.1 = value.1 ∧ m.2.Gives value.2) members values)
    (hmembers : Members.Ascending members) : Members.Ascending values := by
  have hkeys : members.map Prod.fst = values.map Prod.fst := by
    rw [← List.forall₂_eq_eq_eq, List.forall₂_map_left_iff, List.forall₂_map_right_iff]
    exact h.imp fun _ _ hm => hm.1
  exact hmembers.of_keys_eq hkeys

theorem Gives.ordered (written : Written) :
    ∀ {value : Json}, written.Gives value → written.Ordered → value.Ordered := by
  induction written using Written.induction with
  | string s =>
    intro value h _
    rw [h.eq ⟨.string s, rfl, rfl⟩]
    trivial
  | integer n =>
    intro value h _
    obtain ⟨_, _, rfl⟩ := h.integer
    trivial
  | float x =>
    intro value h _
    obtain ⟨_, rfl⟩ := h.float
    trivial
  | boolean b =>
    intro value h _
    rw [h.eq ⟨.boolean b, rfl, rfl⟩]
    trivial
  | datetime d =>
    intro value h _
    rw [h.eq ⟨.datetime d, rfl, rfl⟩]
    trivial
  | array items ih =>
    intro value h hitems
    obtain ⟨values, rfl, hforall⟩ := h.array
    rw [ordered_array] at hitems
    rw [Json.ordered_arr]
    intro value hvalue
    obtain ⟨item, hitem, hgives⟩ := Json.exists_mem_of_forall₂ hforall value hvalue
    exact ih item hitem hgives (hitems item hitem)
  | table members ih =>
    intro value h hmembers
    by_cases hdate : IsDate members
    · obtain ⟨_, rfl⟩ := h.date hdate
      trivial
    · obtain ⟨values, rfl, hforall⟩ := h.table hdate
      rw [ordered_table] at hmembers
      refine Json.ordered_obj.2 ⟨ascending_of_forall₂ hforall hmembers.1, fun value hvalue => ?_⟩
      obtain ⟨m, hm, _, hgives⟩ := Json.exists_mem_of_forall₂ hforall value hvalue
      exact ih m hm hgives (hmembers.2 m hm)

end Written

/-! ### Tables while a document is read -/

theorem membersOf_eq :
    ∀ (entries : List (String × Entry)) (made : List (String × Written)),
      membersOf made entries = made.reverse ++ entries.map fun m => (m.1, m.2.toWritten)
  | [], made => by rw [membersOf, List.map_nil, List.append_nil]
  | (key, entry) :: rest, made => by
    rw [membersOf, membersOf_eq, List.reverse_cons, List.append_assoc, List.map_cons,
      List.singleton_append]

theorem mem_tablesOf :
    ∀ {tables : List (List (String × Entry))} {made : List Written} {written : Written},
      written ∈ tablesOf made tables ↔
        written ∈ made ∨ ∃ entries ∈ tables, written = .table (membersOf [] entries)
  | [], made, written => by simp [tablesOf]
  | entries :: rest, made, written => by
    rw [tablesOf, mem_tablesOf, List.mem_cons, List.exists_mem_cons_iff]
    tauto

namespace Entries

/-- The keys are in ascending order, and so is every table inside, at any depth. -/
def Ordered (entries : Entries) : Prop :=
  Members.Ascending entries ∧ ∀ m ∈ entries, m.2.toWritten.Ordered

theorem ordered_toWritten {entries : Entries} :
    (Written.table (membersOf [] entries)).Ordered ↔ Ordered entries := by
  rw [Written.ordered_table, membersOf_eq, List.reverse_nil, List.nil_append, List.forall_mem_map,
    Ordered, Members.Ascending, List.pairwise_map]
  rfl

theorem ordered_nil : Ordered [] := ⟨List.Pairwise.nil, fun _ h => absurd h List.not_mem_nil⟩

variable {entries after : Entries} {key : String} {entry : Entry}

theorem Ordered.insert (h : Ordered entries) (hentry : entry.toWritten.Ordered) :
    Ordered (Members.insert key entry entries) := by
  refine ⟨Members.ascending_insert key entry h.1, fun m hm => ?_⟩
  rcases Members.eq_or_mem_of_mem_insert hm with rfl | hm
  · exact hentry
  · exact h.2 m hm

theorem Ordered.find? (h : Ordered entries) (hfind : Members.find? key entries = some entry) :
    entry.toWritten.Ordered :=
  h.2 _ (Members.mem_of_find? hfind)

theorem ordered_table {origin : Origin} {inner : Entries} :
    (Entry.table origin inner).toWritten.Ordered ↔ Ordered inner := by
  rw [Entry.toWritten, ordered_toWritten]

theorem ordered_tables {earlier : List Entries} {last : Entries} :
    (Entry.tables earlier last).toWritten.Ordered ↔
      (∀ inner ∈ earlier, Ordered inner) ∧ Ordered last := by
  rw [Entry.toWritten, Written.ordered_array]
  simp only [mem_tablesOf, List.mem_singleton]
  constructor
  · intro h
    exact ⟨fun inner hinner => ordered_toWritten.1 (h _ (Or.inr ⟨inner, hinner, rfl⟩)),
      ordered_toWritten.1 (h _ (Or.inl rfl))⟩
  · rintro ⟨hearlier, hlast⟩ _ (rfl | ⟨inner, hinner, rfl⟩)
    · exact ordered_toWritten.2 hlast
    · exact ordered_toWritten.2 (hearlier inner hinner)

/-- A key that is given its value in a table leaves the table in order. -/
theorem ordered_assign {value : Written} (hvalue : value.Ordered) :
    ∀ {keys : List String} {entries after : Entries}, assign keys value entries = some after →
      Ordered entries → Ordered after
  | [], entries, after, h, _ => by
    rw [assign] at h
    cases h
  | [key], entries, after, h, hentries => by
    rw [assign] at h
    split at h
    · cases h
    · obtain rfl := Option.some.inj h
      exact hentries.insert hvalue
  | key :: next :: rest, entries, after, h, hentries => by
    rw [assign] at h
    · split at h
      · obtain ⟨inner, hinner, rfl⟩ := Option.map_eq_some_iff.1 h
        exact hentries.insert (ordered_table.2 (ordered_assign hvalue hinner ordered_nil))
      · next hfind =>
        obtain ⟨inner, hinner, rfl⟩ := Option.map_eq_some_iff.1 h
        have hold := ordered_table.1 (hentries.find? hfind)
        exact hentries.insert (ordered_table.2 (ordered_assign hvalue hinner hold))
      · next hfind =>
        split at h
        · cases h
        · obtain ⟨inner, hinner, rfl⟩ := Option.map_eq_some_iff.1 h
          have hold := ordered_table.1 (hentries.find? hfind)
          exact hentries.insert (ordered_table.2 (ordered_assign hvalue hinner hold))
      · next hfind =>
        split at h
        · cases h
        · obtain ⟨last, hlast, rfl⟩ := Option.map_eq_some_iff.1 h
          have hold := ordered_tables.1 (hentries.find? hfind)
          exact hentries.insert (ordered_tables.2 ⟨hold.1, ordered_assign hvalue hlast hold.2⟩)
      · cases h
    · exact List.cons_ne_nil next rest

/-- A change at a path keeps the order where the change of the one table does. -/
theorem ordered_within {edit : Entries → Option Entries}
    (hedit : ∀ {entries after}, edit entries = some after → Ordered entries → Ordered after) :
    ∀ {path : List String} {entries after : Entries}, within edit path entries = some after →
      Ordered entries → Ordered after
  | [], entries, after, h, hentries => hedit h hentries
  | key :: rest, entries, after, h, hentries => by
    rw [within] at h
    split at h
    · obtain ⟨inner, hinner, rfl⟩ := Option.map_eq_some_iff.1 h
      exact hentries.insert (ordered_table.2 (ordered_within hedit hinner ordered_nil))
    · next hfind =>
      obtain ⟨inner, hinner, rfl⟩ := Option.map_eq_some_iff.1 h
      have hold := ordered_table.1 (hentries.find? hfind)
      exact hentries.insert (ordered_table.2 (ordered_within hedit hinner hold))
    · next hfind =>
      obtain ⟨last, hlast, rfl⟩ := Option.map_eq_some_iff.1 h
      have hold := ordered_tables.1 (hentries.find? hfind)
      exact hentries.insert (ordered_tables.2 ⟨hold.1, ordered_within hedit hlast hold.2⟩)
    · cases h

theorem ordered_openTable (h : openTable key entries = some after) (hentries : Ordered entries) :
    Ordered after := by
  rw [openTable] at h
  split at h
  · obtain rfl := Option.some.inj h
    exact hentries.insert (ordered_table.2 ordered_nil)
  · next hfind =>
    obtain rfl := Option.some.inj h
    exact hentries.insert (ordered_table.2 (ordered_table.1 (hentries.find? hfind)))
  · cases h

theorem ordered_appendTable (h : appendTable key entries = some after)
    (hentries : Ordered entries) : Ordered after := by
  rw [appendTable] at h
  split at h
  · obtain rfl := Option.some.inj h
    exact hentries.insert
      (ordered_tables.2 ⟨fun _ hinner => absurd hinner List.not_mem_nil, ordered_nil⟩)
  · next hfind =>
    obtain rfl := Option.some.inj h
    have hold := ordered_tables.1 (hentries.find? hfind)
    exact hentries.insert
      (ordered_tables.2 ⟨List.forall_mem_cons.2 ⟨hold.2, hold.1⟩, ordered_nil⟩)
  · cases h

end Entries

/-! ### Readers -/

/-- A reader gives only what has a property. -/
def Reader.Gives {α : Type} (reader : Reader α) (p : α → Prop) : Prop :=
  ∀ {cs : List Char} {a : α} {rest : List Char}, reader cs = some (a, rest) → p a

theorem ordered_integer? {sign : Sign} {cs : List Char} {value : Written}
    (h : integer? sign cs = some value) : value.Ordered := by
  rw [integer?, Option.ite_none_right_eq_some] at h
  rw [← Option.some.inj h.2]
  trivial

theorem ordered_inBase? {base : Nat} {cs : List Char} {value : Written}
    (h : inBase? base cs = some value) : value.Ordered := by
  rw [inBase?, Option.ite_none_right_eq_some] at h
  rw [← Option.some.inj h.2]
  trivial

theorem ordered_float? {sign : Sign} {whole : List Char} {fraction exponent : Option (List Char)}
    {value : Written} (h : float? sign whole fraction exponent = some value) : value.Ordered := by
  simp only [float?, Option.bind_eq_bind, Option.bind_eq_some_iff] at h
  obtain ⟨_, _, _, _, _, _, h⟩ := h
  split at h
  · cases h
  · rw [← Option.some.inj h]
    trivial

theorem ordered_number? {cs : List Char} {value : Written} (h : number? cs = some value) :
    value.Ordered := by
  rw [number?.eq_def] at h
  split at h
  · exact ordered_inBase? h
  · exact ordered_inBase? h
  · exact ordered_inBase? h
  · dsimp only at h
    split at h
    · rw [← Option.some.inj h]
      trivial
    · split at h
      · rw [← Option.some.inj h]
        trivial
      · rw [decimal?] at h
        dsimp only at h
        split at h
        · exact ordered_integer? h
        · exact ordered_float? h

/-- A word is no array and no table. -/
theorem ordered_scalar? {word : List Char} {value : Written} (h : scalar? word = some value) :
    value.Ordered := by
  rw [scalar?] at h
  split at h
  · rw [← Option.some.inj h]
    trivial
  · split at h
    · rw [← Option.some.inj h]
      trivial
    · split at h
      · next hnumber =>
        rw [← Option.some.inj h]
        exact ordered_number? hnumber
      · obtain ⟨date, _, rfl⟩ := Option.map_eq_some_iff.1 h
        trivial

theorem ordered_word? : Reader.Gives word? Written.Ordered := by
  intro cs value rest h
  rw [word?] at h
  dsimp only at h
  split at h
  · split at h
    all_goals
      obtain ⟨word, hword, heq⟩ := Option.map_eq_some_iff.1 h
      rw [← (Prod.mk.inj heq).1]
      exact ordered_scalar? hword
  · obtain ⟨word, hword, heq⟩ := Option.map_eq_some_iff.1 h
    rw [← (Prod.mk.inj heq).1]
    exact ordered_scalar? hword

section Containers

variable {value? : Reader Written} (hvalue : Reader.Gives value? Written.Ordered)

include hvalue

theorem ordered_items? :
    ∀ {rounds : Nat} {read items : List Written} {cs rest : List Char},
      items? value? rounds read cs = some (items, rest) → (∀ item ∈ read, item.Ordered) →
      ∀ item ∈ items, item.Ordered
  | 0, read, items, cs, rest, h, _ => by
    rw [items?] at h
    cases h
  | rounds + 1, read, items, cs, rest, h, hread => by
    simp only [items?, Option.bind_eq_bind, Option.bind_eq_some_iff] at h
    obtain ⟨_, _, h⟩ := h
    split at h
    · obtain ⟨rfl, _⟩ := Prod.mk.inj (Option.some.inj h)
      exact fun item hitem => hread item (List.mem_reverse.1 hitem)
    · simp only [Option.bind_eq_some_iff] at h
      obtain ⟨⟨value, _⟩, hread?, _, _, h⟩ := h
      have hnext : ∀ item ∈ value :: read, item.Ordered :=
        List.forall_mem_cons.2 ⟨hvalue hread?, hread⟩
      split at h
      · exact ordered_items? h hnext
      · obtain ⟨rfl, _⟩ := Prod.mk.inj (Option.some.inj h)
        exact fun item hitem => hnext item (List.mem_reverse.1 hitem)
      · cases h

theorem ordered_inlineEntries? :
    ∀ {rounds : Nat} {read entries : Entries} {cs rest : List Char},
      inlineEntries? value? rounds read cs = some (entries, rest) → read.Ordered →
      entries.Ordered
  | 0, read, entries, cs, rest, h, _ => by
    rw [inlineEntries?] at h
    cases h
  | rounds + 1, read, entries, cs, rest, h, hread => by
    simp only [inlineEntries?, Option.bind_eq_bind, Option.bind_eq_some_iff] at h
    obtain ⟨_, _, h⟩ := h
    split at h
    · obtain ⟨rfl, _⟩ := Prod.mk.inj (Option.some.inj h)
      exact hread
    · simp only [Option.bind_eq_some_iff] at h
      obtain ⟨_, _, _, _, h⟩ := h
      split at h
      · simp only [Option.bind_eq_some_iff] at h
        obtain ⟨_, _, ⟨value, _⟩, hread?, after, hassign, _, _, h⟩ := h
        have hnext := Entries.ordered_assign (hvalue hread?) hassign hread
        split at h
        · exact ordered_inlineEntries? h hnext
        · obtain ⟨rfl, _⟩ := Prod.mk.inj (Option.some.inj h)
          exact hnext
        · cases h
      · cases h

end Containers

theorem ordered_valueWithin? (depth : Nat) : Reader.Gives (valueWithin? depth) Written.Ordered := by
  induction depth with
  | zero =>
    intro cs value rest h
    rw [valueWithin?.eq_def] at h
    split at h
    · obtain ⟨_, _, heq⟩ := Option.map_eq_some_iff.1 h
      rw [← (Prod.mk.inj heq).1]
      trivial
    · obtain ⟨_, _, heq⟩ := Option.map_eq_some_iff.1 h
      rw [← (Prod.mk.inj heq).1]
      trivial
    · cases h
    · cases h
    · exact ordered_word? h
  | succ depth ih =>
    intro cs value rest h
    rw [valueWithin?.eq_def] at h
    split at h
    · obtain ⟨_, _, heq⟩ := Option.map_eq_some_iff.1 h
      rw [← (Prod.mk.inj heq).1]
      trivial
    · obtain ⟨_, _, heq⟩ := Option.map_eq_some_iff.1 h
      rw [← (Prod.mk.inj heq).1]
      trivial
    · obtain ⟨_, hitems, heq⟩ := Option.map_eq_some_iff.1 h
      rw [← (Prod.mk.inj heq).1, Written.ordered_array]
      exact ordered_items? ih hitems fun _ hitem => absurd hitem List.not_mem_nil
    · obtain ⟨_, hentries, heq⟩ := Option.map_eq_some_iff.1 h
      rw [← (Prod.mk.inj heq).1, Entries.ordered_toWritten]
      exact ordered_inlineEntries? ih hentries Entries.ordered_nil
    · exact ordered_word? h

namespace Draft

variable {draft after : Draft}

theorem ordered_takeHeader? {path : List String} {array : Bool}
    (h : draft.takeHeader? path array = some after) (hdraft : draft.entries.Ordered) :
    after.entries.Ordered := by
  rw [takeHeader?] at h
  split at h
  · cases h
  · next key _ =>
    obtain ⟨entries, hentries, rfl⟩ := Option.map_eq_some_iff.1 h
    refine Entries.ordered_within ?_ hentries hdraft
    intro entries after hedit hordered
    cases array with
    | true => exact Entries.ordered_appendTable hedit hordered
    | false => exact Entries.ordered_openTable hedit hordered

theorem ordered_takeValue? {key : List String} {value : Written}
    (h : draft.takeValue? key value = some after) (hvalue : value.Ordered)
    (hdraft : draft.entries.Ordered) : after.entries.Ordered := by
  obtain ⟨entries, hentries, rfl⟩ := Option.map_eq_some_iff.1 h
  exact Entries.ordered_within (Entries.ordered_assign hvalue) hentries hdraft

/-- A line keeps the order of what was read before it. -/
theorem ordered_line? {cs rest : List Char} (h : draft.line? cs = some (after, rest))
    (hdraft : draft.entries.Ordered) : after.entries.Ordered := by
  rw [line?.eq_def] at h
  split at h
  · simp only [Option.bind_eq_bind, Option.bind_eq_some_iff] at h
    obtain ⟨_, _, h⟩ := h
    split at h
    · simp only [Option.bind_eq_some_iff] at h
      obtain ⟨_, hheader, _, _, heq⟩ := h
      obtain ⟨rfl, _⟩ := Prod.mk.inj (Option.some.inj heq)
      exact ordered_takeHeader? hheader hdraft
    · cases h
  · simp only [Option.bind_eq_bind, Option.bind_eq_some_iff] at h
    obtain ⟨_, _, h⟩ := h
    split at h
    · simp only [Option.bind_eq_some_iff] at h
      obtain ⟨_, hheader, _, _, heq⟩ := h
      obtain ⟨rfl, _⟩ := Prod.mk.inj (Option.some.inj heq)
      exact ordered_takeHeader? hheader hdraft
    · cases h
  · split at h
    · obtain ⟨rfl, _⟩ := Prod.mk.inj (Option.some.inj h)
      exact hdraft
    · simp only [Option.bind_eq_bind, Option.bind_eq_some_iff] at h
      obtain ⟨_, _, h⟩ := h
      split at h
      · simp only [Option.bind_eq_some_iff] at h
        obtain ⟨_, hvalue, _, htake, _, _, heq⟩ := h
        obtain ⟨rfl, _⟩ := Prod.mk.inj (Option.some.inj heq)
        exact ordered_takeValue? htake (ordered_valueWithin? nestingLimit hvalue) hdraft
      · cases h

theorem ordered_lines? :
    ∀ {rounds : Nat} {draft after : Draft} {cs : List Char}, lines? rounds draft cs = some after →
      draft.entries.Ordered → after.entries.Ordered
  | rounds, draft, after, [], h, hdraft => by
    rw [lines?] at h
    exact Option.some.inj h ▸ hdraft
  | 0, draft, after, c :: cs, h, hdraft => by
    rw [lines?] at h
    · cases h
    · exact List.cons_ne_nil c cs
  | rounds + 1, draft, after, c :: cs, h, hdraft => by
    rw [lines?] at h
    · split at h
      · next hline => exact ordered_lines? h (ordered_line? hline hdraft)
      · cases h
    · exact List.cons_ne_nil c cs

end Draft

/-- Every table of a document has its keys in ascending order. -/
theorem ordered_readWritten? {text : String} {written : List (String × Written)}
    (h : readWritten? text = some written) : (Written.table written).Ordered := by
  obtain ⟨draft, hdraft, rfl⟩ := Option.map_eq_some_iff.1 h
  exact Entries.ordered_toWritten.2 (Draft.ordered_lines? hdraft Entries.ordered_nil)

end TestJob.Toml
