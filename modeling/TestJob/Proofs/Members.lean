import Mathlib
import TestJob.Members

/-!
Mappings built by insertion. Over a strict total order `insert` keeps the keys ascending, and a
mapping with ascending keys is settled by which members it has: `ofList_eq_of_perm` gives back
such a mapping from its members in any order. A look-up finds exactly the members.
-/

namespace TestJob.Members

variable {κ ν : Type} [DecidableEq κ]

/-! ### Look-ups -/

theorem find?_eq_none_iff {key : κ} {members : Members κ ν} :
    find? key members = none ↔ key ∉ keys members := by
  induction members with
  | nil => simp [find?, keys]
  | cons m rest ih =>
    obtain ⟨k, v⟩ := m
    simp only [find?, keys, List.map_cons, List.mem_cons, not_or]
    by_cases h : k = key
    · simp [h]
    · rw [if_neg h, ih]
      exact ⟨fun hr => ⟨fun e => h e.symm, hr⟩, fun hr => hr.2⟩

omit [DecidableEq κ] in
theorem not_mem_keys_iff {key : κ} {members : Members κ ν} :
    key ∉ keys members ↔ ∀ m ∈ members, m.1 ≠ key := by
  simp only [keys, List.mem_map, not_exists, not_and, ne_eq]

/-- Where no key comes twice, every member is found. -/
theorem find?_eq_some_of_mem {key : κ} {value : ν} :
    ∀ {members : Members κ ν}, (keys members).Nodup → (key, value) ∈ members →
      find? key members = some value
  | (k, v) :: rest, hnodup, hmem => by
    obtain ⟨hk, hrest⟩ := List.nodup_cons.1 hnodup
    rw [find?]
    rcases List.mem_cons.1 hmem with heq | hmem
    · obtain ⟨rfl, rfl⟩ := Prod.mk.inj heq
      rw [if_pos rfl]
    · have hne : k ≠ key := by
        rintro rfl
        exact hk (List.mem_map.2 ⟨_, hmem, rfl⟩)
      rw [if_neg hne]
      exact find?_eq_some_of_mem hrest hmem

/-! ### Insertion -/

variable [LT κ] [DecidableLT κ]

/-- A key that is not there yet makes one more member. -/
theorem insert_perm {key : κ} {value : ν} :
    ∀ {members : Members κ ν}, key ∉ keys members →
      (insert key value members).Perm ((key, value) :: members)
  | [], _ => .refl _
  | (k, v) :: rest, h => by
    rw [keys, List.map_cons, List.mem_cons, not_or] at h
    rw [insert]
    split
    · exact .refl _
    · rw [if_neg h.1]
      exact ((insert_perm h.2).cons (k, v)).trans (.swap _ _ _)

theorem foldl_insert_perm :
    ∀ {members read : Members κ ν}, (keys (members ++ read)).Nodup →
      (members.foldl (fun done (k, v) => insert k v done) read).Perm (members ++ read)
  | [], _, _ => .refl _
  | (k, v) :: rest, read, h => by
    obtain ⟨hk, hrest⟩ := List.nodup_cons.1 h
    have hread : k ∉ keys read := by
      intro hmem
      refine hk ?_
      rw [List.append_eq, List.map_append]
      exact List.mem_append_right _ hmem
    have hperm : (rest ++ insert k v read).Perm ((k, v) :: (rest ++ read)) :=
      ((insert_perm hread).append_left rest).trans List.perm_middle
    have hnodup : (keys (rest ++ insert k v read)).Nodup :=
      (hperm.map Prod.fst).nodup_iff.2 h
    rw [List.foldl_cons]
    exact (foldl_insert_perm hnodup).trans hperm

theorem ofList_perm {members : List (κ × ν)} (h : (keys members).Nodup) :
    (ofList members).Perm members := by
  have hperm : (ofList members).Perm (members ++ []) := foldl_insert_perm (by rwa [List.append_nil])
  rwa [List.append_nil] at hperm

theorem mem_of_mem_ofList {m : κ × ν} {members : List (κ × ν)} (h : m ∈ ofList members) :
    m ∈ members := by
  suffices hfold : ∀ read : Members κ ν,
      m ∈ members.foldl (fun done (k, v) => insert k v done) read → m ∈ members ∨ m ∈ read by
    exact (hfold [] h).resolve_right List.not_mem_nil
  clear h
  induction members with
  | nil => exact fun read h => Or.inr h
  | cons first rest ih =>
    intro read h
    rcases ih _ h with hrest | hinsert
    · exact Or.inl (List.mem_cons_of_mem _ hrest)
    · rcases eq_or_mem_of_mem_insert hinsert with rfl | hread
      · exact Or.inl List.mem_cons_self
      · exact Or.inr hread

theorem find?_ofList {key : κ} {value : ν} {members : List (κ × ν)} (h : (keys members).Nodup)
    (hmem : (key, value) ∈ members) : find? key (ofList members) = some value := by
  have hperm := ofList_perm h
  exact find?_eq_some_of_mem ((hperm.map Prod.fst).nodup_iff.2 h) (hperm.mem_iff.2 hmem)

/-- Of several values for a key the last one counts. -/
theorem find?_ofList_eq (key : κ) (members : List (κ × ν)) :
    find? key (ofList members) = (members.reverse.find? fun m => m.1 = key).map Prod.snd := by
  induction members using List.reverseRecOn with
  | nil => rfl
  | append_singleton rest m ih =>
    obtain ⟨k, v⟩ := m
    rw [ofList, List.foldl_append, List.reverse_append]
    change find? key (insert k v (ofList rest)) = _
    by_cases h : k = key
    · simp [h]
    · rw [find?_insert_of_ne (Ne.symm h), ih]
      simp [h]

/-- Insertion looks at the keys alone, so what is done to the values may be done first. -/
theorem insert_map {μ : Type} (f : κ → ν → μ) (key : κ) (value : ν) :
    ∀ members : Members κ ν,
      insert key (f key value) (members.map fun m => (m.1, f m.1 m.2)) =
        (insert key value members).map fun m => (m.1, f m.1 m.2)
  | [] => rfl
  | (k, v) :: rest => by
    simp only [List.map_cons, insert]
    split
    · rfl
    · split
      · rfl
      · rw [insert_map f key value rest, List.map_cons]

theorem ofList_map {μ : Type} (f : κ → ν → μ) (members : List (κ × ν)) :
    ofList (members.map fun m => (m.1, f m.1 m.2)) =
      (ofList members).map fun m => (m.1, f m.1 m.2) := by
  suffices h : ∀ read : Members κ ν,
      (members.map fun m => (m.1, f m.1 m.2)).foldl (fun done (k, v) => insert k v done)
          (read.map fun m => (m.1, f m.1 m.2)) =
        (members.foldl (fun done (k, v) => insert k v done) read).map fun m => (m.1, f m.1 m.2) by
    exact h []
  induction members with
  | nil => intro read; rfl
  | cons m rest ih =>
    intro read
    simp only [List.map_cons, List.foldl_cons, insert_map, ih]

/-! ### Ascending keys -/

omit [DecidableEq κ] [DecidableLT κ] in
theorem Ascending.nodup_keys [Std.Irrefl (α := κ) (· < ·)] {members : Members κ ν}
    (h : Ascending members) : (keys members).Nodup := by
  rw [List.Nodup, keys, List.pairwise_map]
  refine List.Pairwise.imp ?_ h
  intro a b hab heq
  exact Std.Irrefl.irrefl (r := (· < · : κ → κ → Prop)) b.1 (heq ▸ hab)

omit [DecidableEq κ] [DecidableLT κ] in
/-- Whether keys are ascending hangs on the keys alone. -/
theorem Ascending.of_keys_eq {μ : Type} {members : Members κ ν} {others : Members κ μ}
    (h : Ascending members) (hkeys : keys members = keys others) : Ascending others := by
  have hascending : (keys members).Pairwise (· < ·) := List.pairwise_map.2 h
  rw [hkeys] at hascending
  exact List.pairwise_map.1 hascending

variable [IsTrans κ (· < ·)] [Std.Trichotomous (α := κ) (· < ·)]

theorem ascending_insert (key : κ) (value : ν) :
    ∀ {members : Members κ ν}, Ascending members → Ascending (insert key value members)
  | [], _ => List.pairwise_singleton _ _
  | (k, v) :: rest, h => by
    obtain ⟨hfirst, hrest⟩ := List.pairwise_cons.1 h
    rw [insert]
    split
    · next hlt =>
      refine List.pairwise_cons.2 ⟨?_, h⟩
      intro m hm
      rcases List.mem_cons.1 hm with rfl | hm
      · exact hlt
      · exact trans_of (· < ·) hlt (hfirst m hm)
    · next hnot =>
      split
      · next heq =>
        subst heq
        exact List.pairwise_cons.2 ⟨hfirst, hrest⟩
      · next hne =>
        have hlt : k < key :=
          (Std.Trichotomous.rel_or_eq_or_rel_swap (r := (· < ·)) (a := k) (b := key)).resolve_right
            (by rintro (rfl | hk); exacts [hne rfl, hnot hk])
        refine List.pairwise_cons.2 ⟨?_, ascending_insert key value hrest⟩
        intro m hm
        rcases eq_or_mem_of_mem_insert hm with rfl | hm
        · exact hlt
        · exact hfirst m hm

theorem ascending_ofList (members : List (κ × ν)) : Ascending (ofList members) := by
  suffices h : ∀ read : Members κ ν, Ascending read →
      Ascending (members.foldl (fun done (k, v) => insert k v done) read) by
    exact h [] List.Pairwise.nil
  induction members with
  | nil => intro read h; exact h
  | cons m rest ih => intro read h; exact ih _ (ascending_insert m.1 m.2 h)

/-- A mapping with ascending keys comes back from its members in any order. -/
theorem ofList_eq_of_perm [Std.Irrefl (α := κ) (· < ·)] {listed : List (κ × ν)}
    {members : Members κ ν} (hperm : listed.Perm members) (h : Ascending members) :
    ofList listed = members := by
  have hnodup : (keys listed).Nodup := (hperm.map Prod.fst).nodup_iff.2 h.nodup_keys
  refine ((ofList_perm hnodup).trans hperm).eq_of_pairwise ?_ (ascending_ofList listed) h
  intro a b _ _ hab hba
  exact absurd (trans_of (· < ·) hab hba) (Std.Irrefl.irrefl (r := (· < · : κ → κ → Prop)) a.1)

/-- Mappings with ascending keys are equal when they have the same members. -/
theorem eq_of_mem_iff [Std.Irrefl (α := κ) (· < ·)] {members others : Members κ ν}
    (h : Ascending members) (h' : Ascending others) (hmem : ∀ m, m ∈ members ↔ m ∈ others) :
    members = others := by
  have hperm : members.Perm others :=
    (List.perm_ext_iff_of_nodup (List.Nodup.of_map _ h.nodup_keys)
      (List.Nodup.of_map _ h'.nodup_keys)).2 hmem
  rw [← ofList_eq_of_perm hperm h', ofList_eq_of_perm (.refl members) h]

/-- Mappings with ascending keys are equal when every look-up gives the same. -/
theorem eq_of_find?_eq [Std.Irrefl (α := κ) (· < ·)] {members others : Members κ ν}
    (h : Ascending members) (h' : Ascending others)
    (hfind : ∀ key, find? key members = find? key others) : members = others := by
  refine eq_of_mem_iff h h' ?_
  rintro ⟨key, value⟩
  constructor
  · intro hm
    exact mem_of_find? (hfind key ▸ find?_eq_some_of_mem h.nodup_keys hm)
  · intro hm
    exact mem_of_find? (hfind key ▸ find?_eq_some_of_mem h'.nodup_keys hm)

/-- The same members in another order make the same mapping, where no key comes twice. -/
theorem ofList_congr [Std.Irrefl (α := κ) (· < ·)] {listed others : List (κ × ν)}
    (hperm : listed.Perm others) (hnodup : (keys listed).Nodup) : ofList listed = ofList others :=
  have hothers : (keys others).Nodup := (hperm.map Prod.fst).nodup_iff.1 hnodup
  ofList_eq_of_perm (hperm.trans (ofList_perm hothers).symm) (ascending_ofList others)

/-- A mapping made of a list has, for each key, the value that the list gives it last. -/
theorem mem_ofList_iff [Std.Irrefl (α := κ) (· < ·)] {key : κ} {value : ν}
    {members : List (κ × ν)} :
    (key, value) ∈ ofList members ↔
      ∃ before after, members = before ++ (key, value) :: after ∧ key ∉ keys after := by
  have hfind : (key, value) ∈ ofList members ↔ find? key (ofList members) = some value :=
    ⟨find?_eq_some_of_mem (ascending_ofList members).nodup_keys, mem_of_find?⟩
  rw [hfind, find?_ofList_eq, Option.map_eq_some_iff]
  constructor
  · rintro ⟨⟨found, last⟩, hlast, rfl⟩
    obtain ⟨hkey, after, before, hreverse, hafter⟩ := List.find?_eq_some_iff_append.1 hlast
    obtain rfl : found = key := by simpa using hkey
    refine ⟨before.reverse, after.reverse, ?_, ?_⟩
    · rw [← List.reverse_reverse members, hreverse]
      simp
    · rw [not_mem_keys_iff]
      simpa using hafter
  · rintro ⟨before, after, rfl, hafter⟩
    rw [not_mem_keys_iff] at hafter
    exact ⟨(key, value), List.find?_eq_some_iff_append.2 ⟨by simp, after.reverse, before.reverse,
      by simp, by simpa using hafter⟩, rfl⟩

/-- A mapping made of a list has as many members as the list has keys. -/
theorem length_ofList [Std.Irrefl (α := κ) (· < ·)] (members : List (κ × ν)) :
    (ofList members).length = (keys members).toFinset.card := by
  have hkeys : (keys (ofList members)).toFinset = (keys members).toFinset := by
    ext key
    rw [List.mem_toFinset, List.mem_toFinset, ← not_iff_not, ← find?_eq_none_iff, find?_ofList_eq,
      not_mem_keys_iff]
    simp
  rw [← hkeys, List.toFinset_card_of_nodup (ascending_ofList members).nodup_keys, keys,
    List.length_map]

/-- Of two values given to one key the later stays. -/
theorem insert_insert_self [Std.Irrefl (α := κ) (· < ·)] {key : κ} {members : Members κ ν}
    (h : Ascending members) (first last : ν) :
    insert key last (insert key first members) = insert key last members := by
  refine eq_of_find?_eq (ascending_insert _ _ (ascending_insert _ _ h)) (ascending_insert _ _ h)
    fun found => ?_
  by_cases hfound : found = key
  · rw [hfound, find?_insert_self, find?_insert_self]
  · rw [find?_insert_of_ne hfound, find?_insert_of_ne hfound, find?_insert_of_ne hfound]

/-- Two keys are given their values in any order. -/
theorem insert_comm [Std.Irrefl (α := κ) (· < ·)] {key other : κ} {members : Members κ ν}
    (h : Ascending members) (hne : key ≠ other) (value value' : ν) :
    insert key value (insert other value' members) =
      insert other value' (insert key value members) := by
  refine eq_of_find?_eq (ascending_insert _ _ (ascending_insert _ _ h))
    (ascending_insert _ _ (ascending_insert _ _ h)) fun found => ?_
  by_cases hkey : found = key
  · subst hkey
    rw [find?_insert_self, find?_insert_of_ne hne, find?_insert_self]
  · rw [find?_insert_of_ne hkey]
    by_cases hother : found = other
    · rw [hother, find?_insert_self, find?_insert_self]
    · rw [find?_insert_of_ne hother, find?_insert_of_ne hother, find?_insert_of_ne hkey]

end TestJob.Members
