import Mathlib
import TestJob.Definition.Capture
import TestJob.Proofs.Decoding
import TestJob.Proofs.Members

/-!
What is collected from a listing of variables. The variables that are text and whose name begins
with a prefix are chosen, in the order of the listing (`Chosen`), and nothing else in it matters. Of
the chosen ones the first with a value that is too long is a fault, else too many names are one, and
else each name has the last value that is listed for it (`Collects`).
-/

namespace TestJob.Capture

/-- A name begins with one of some prefixes. -/
def Begins (prefixes : List String) (name : String) : Prop :=
  ∃ p ∈ prefixes, p.toList <+: name.toList

/-- The variables of a listing that are text and whose name begins with one of some prefixes, in
their order. -/
inductive Chosen (prefixes : List String) :
    List (Bytes × Bytes) → List (String × String) → Prop where
  | nil : Chosen prefixes [] []
  | taken {name value : String} {listing : List (Bytes × Bytes)} {chosen : List (String × String)}
    (hname : Begins prefixes name) (hrest : Chosen prefixes listing chosen) :
    Chosen prefixes ((Utf8.encode name, Utf8.encode value) :: listing) ((name, value) :: chosen)
  | passed {listed : Bytes × Bytes} {listing : List (Bytes × Bytes)}
    {chosen : List (String × String)}
    (hother : ∀ name value, listed = (Utf8.encode name, Utf8.encode value) →
      ¬Begins prefixes name)
    (hrest : Chosen prefixes listing chosen) : Chosen prefixes (listed :: listing) chosen

/-- No value is too long. -/
def Short (chosen : List (String × String)) : Prop := ∀ m ∈ chosen, m.2.utf8ByteSize ≤ 8192

/-- What becomes of the chosen variables. -/
inductive Collects (chosen : List (String × String)) : Except DefinitionFault Record → Prop where
  | tooLong {before after : List (String × String)} {name value : String}
    (hchosen : chosen = before ++ (name, value) :: after) (hbefore : Short before)
    (hlong : 8192 < value.utf8ByteSize) : Collects chosen (.error (.variableTooLong name))
  | tooMany (hshort : Short chosen) (hcount : 256 < (Members.keys chosen).toFinset.card) :
    Collects chosen (.error .tooManyVariables)
  | collected {taken : Record} (hshort : Short chosen)
    (hcount : (Members.keys chosen).toFinset.card ≤ 256) (hascending : Members.Ascending taken)
    (hmembers : ∀ name value, (name, value) ∈ taken ↔ ∃ before last after,
      chosen = before ++ (name, last) :: after ∧ name ∉ Members.keys after ∧ value = .str last) :
    Collects chosen (.ok taken)

variable {filter : Capture} {listing : List (Bytes × Bytes)} {name value : String}
  {before after chosen : List (String × String)} {outcome : Except DefinitionFault Record}

/-! ### What is chosen -/

theorem selects_iff : filter.selects name = true ↔ Begins filter.prefixes name := by
  simp only [selects, List.any_eq_true, List.isPrefixOf_iff_prefix, Begins]

theorem take?_eq_some_iff {listed : Bytes × Bytes} {m : String × String} :
    filter.take? listed = some m ↔
      listed = (Utf8.encode m.1, Utf8.encode m.2) ∧ Begins filter.prefixes m.1 := by
  obtain ⟨name, value⟩ := m
  obtain ⟨nameBytes, valueBytes⟩ := listed
  simp only [take?, Option.bind_eq_bind, Option.bind_eq_some_iff, Utf8.decode?_eq_some_iff,
    Option.ite_none_right_eq_some, Option.some.injEq, Prod.mk.injEq, selects_iff]
  constructor
  · rintro ⟨_, rfl, _, rfl, hname, rfl, rfl⟩
    exact ⟨⟨rfl, rfl⟩, hname⟩
  · rintro ⟨⟨rfl, rfl⟩, hname⟩
    exact ⟨name, rfl, value, rfl, hname, rfl, rfl⟩

theorem chosen_filterMap (listing : List (Bytes × Bytes)) :
    Chosen filter.prefixes listing (listing.filterMap filter.take?) := by
  induction listing with
  | nil => exact .nil
  | cons listed rest ih =>
    cases htake : filter.take? listed with
    | none =>
      rw [List.filterMap_cons_none htake]
      refine .passed (fun name value hlisted hname => ?_) ih
      have htaken : filter.take? listed = some (name, value) :=
        take?_eq_some_iff.2 ⟨hlisted, hname⟩
      rw [htake] at htaken
      cases htaken
    | some m =>
      obtain ⟨rfl, hname⟩ := take?_eq_some_iff.1 htake
      rw [List.filterMap_cons_some htake]
      exact .taken hname ih

/-- What is chosen from a listing is settled by the prefixes. -/
theorem chosen_iff :
    Chosen filter.prefixes listing chosen ↔ chosen = listing.filterMap filter.take? := by
  constructor
  · intro h
    induction h with
    | nil => rfl
    | @taken name value rest chosen hname _ ih =>
      have htake : filter.take? (Utf8.encode name, Utf8.encode value) = some (name, value) :=
        take?_eq_some_iff.2 ⟨rfl, hname⟩
      rw [List.filterMap_cons_some htake, ← ih]
    | @passed listed rest chosen hother _ ih =>
      have htake : filter.take? listed = none := by
        rw [Option.eq_none_iff_forall_ne_some]
        intro m hm
        obtain ⟨hlisted, hname⟩ := take?_eq_some_iff.1 hm
        exact hother _ _ hlisted hname
      rw [List.filterMap_cons_none htake, ← ih]
  · rintro rfl
    exact chosen_filterMap listing

theorem Chosen.begins {prefixes : List String} (h : Chosen prefixes listing chosen) :
    ∀ m ∈ chosen, Begins prefixes m.1 := by
  induction h with
  | nil => exact fun _ hm => absurd hm List.not_mem_nil
  | taken hname _ ih => exact List.forall_mem_cons.2 ⟨hname, ih⟩
  | passed _ _ ih => exact ih

/-! ### What is gathered -/

/-- Chosen variables as members of a record, in their order. -/
def texts (chosen : List (String × String)) : List (String × Json) :=
  chosen.map fun m => (m.1, .str m.2)

theorem keys_texts (chosen : List (String × String)) :
    Members.keys (texts chosen) = Members.keys chosen := by
  simp [texts, Members.keys]

theorem gather_of_short (h : Short chosen) (taken : Record) :
    gather taken chosen =
      .ok ((texts chosen).foldl (fun done (k, v) => Members.insert k v done) taken) := by
  induction chosen generalizing taken with
  | nil => rfl
  | cons m rest ih =>
    obtain ⟨hfirst, hrest⟩ := List.forall_mem_cons.1 h
    have hlimit : m.2.utf8ByteSize ≤ valueLimit := hfirst
    rw [gather, if_pos hlimit, ih hrest]
    rfl

/-- The first value that is too long ends the gathering. -/
theorem gather_of_long (hbefore : Short before) (hlong : 8192 < value.utf8ByteSize)
    (taken : Record) :
    gather taken (before ++ (name, value) :: after) = .error (.variableTooLong name) := by
  induction before generalizing taken with
  | nil => exact if_neg (Nat.not_le.2 hlong)
  | cons m rest ih =>
    obtain ⟨hfirst, hrest⟩ := List.forall_mem_cons.1 hbefore
    have hlimit : m.2.utf8ByteSize ≤ valueLimit := hfirst
    rw [List.cons_append, gather, if_pos hlimit, ih hrest]

/-- Either no value is too long, or there is a first one. -/
theorem short_or_exists_long (chosen : List (String × String)) :
    Short chosen ∨ ∃ before name value after, chosen = before ++ (name, value) :: after ∧
      Short before ∧ 8192 < value.utf8ByteSize := by
  cases hfind : chosen.find? fun m => 8192 < m.2.utf8ByteSize with
  | none => exact .inl (by simpa [Short] using hfind)
  | some m =>
    obtain ⟨hlong, before, after, hchosen, hbefore⟩ := List.find?_eq_some_iff_append.1 hfind
    exact .inr ⟨before, m.1, m.2, after, hchosen, by simpa [Short] using hbefore,
      by simpa using hlong⟩

/-! ### What is collected -/

theorem collect_of_short (h : Short (listing.filterMap filter.take?)) :
    filter.collect listing =
      if (Members.keys (listing.filterMap filter.take?)).toFinset.card ≤ 256 then
        .ok (Members.ofList (texts (listing.filterMap filter.take?)))
      else .error .tooManyVariables := by
  rw [collect, gather_of_short h, ← keys_texts, ← Members.length_ofList]
  rfl

theorem collect_of_long (h : listing.filterMap filter.take? = before ++ (name, value) :: after)
    (hbefore : Short before) (hlong : 8192 < value.utf8ByteSize) :
    filter.collect listing = .error (.variableTooLong name) := by
  rw [collect, h, gather_of_long hbefore hlong]
  rfl

theorem mem_ofList_texts {value : Json} :
    (name, value) ∈ Members.ofList (texts chosen) ↔ ∃ before last after,
      chosen = before ++ (name, last) :: after ∧ name ∉ Members.keys after ∧ value = .str last := by
  rw [Members.mem_ofList_iff]
  constructor
  · rintro ⟨before, after, hchosen, hafter⟩
    obtain ⟨earlier, rest, rfl, rfl, hrest⟩ := List.map_eq_append_iff.1 hchosen
    obtain ⟨⟨_, last⟩, later, rfl, hlast, rfl⟩ := List.map_eq_cons_iff.1 hrest
    obtain ⟨rfl, rfl⟩ := Prod.mk.inj hlast
    exact ⟨earlier, last, later, rfl, keys_texts later ▸ hafter, rfl⟩
  · rintro ⟨before, last, after, rfl, hafter, rfl⟩
    exact ⟨texts before, texts after, by simp [texts], (keys_texts after).symm ▸ hafter⟩

theorem collect_of_collects (h : Collects (listing.filterMap filter.take?) outcome) :
    filter.collect listing = outcome := by
  cases h with
  | tooLong hchosen hbefore hlong => exact collect_of_long hchosen hbefore hlong
  | tooMany hshort hcount => rw [collect_of_short hshort, if_neg (Nat.not_le.2 hcount)]
  | collected hshort hcount hascending hmembers =>
    rw [collect_of_short hshort, if_pos hcount]
    refine congrArg _ (Members.eq_of_mem_iff (Members.ascending_ofList _) hascending ?_)
    rintro ⟨name, value⟩
    rw [mem_ofList_texts, hmembers]

theorem exists_collects (chosen : List (String × String)) :
    ∃ outcome, Collects chosen outcome := by
  rcases short_or_exists_long chosen with
    hshort | ⟨before, name, value, after, hchosen, hbefore, hlong⟩
  · by_cases hcount : (Members.keys chosen).toFinset.card ≤ 256
    · exact ⟨_, .collected hshort hcount (Members.ascending_ofList (texts chosen))
        fun _ _ => mem_ofList_texts⟩
    · exact ⟨_, .tooMany hshort (Nat.lt_of_not_le hcount)⟩
  · exact ⟨_, .tooLong hchosen hbefore hlong⟩

/-- The members of what is collected are chosen variables. -/
theorem Collects.exists_mem {taken : Record} (h : Collects chosen (.ok taken))
    (hname : name ∈ Members.keys taken) : ∃ m ∈ chosen, m.1 = name := by
  obtain ⟨⟨_, value⟩, hmem, rfl⟩ := List.mem_map.1 hname
  cases h with
  | collected _ _ _ hmembers =>
    obtain ⟨before, last, after, rfl, _, _⟩ := (hmembers _ _).1 hmem
    exact ⟨_, List.mem_append_right _ List.mem_cons_self, rfl⟩

/-- A value that is too long is one of a chosen variable. -/
theorem Collects.exists_mem_of_tooLong (h : Collects chosen (.error (.variableTooLong name))) :
    ∃ m ∈ chosen, m.1 = name := by
  cases h with
  | tooLong hchosen _ _ =>
    rw [hchosen]
    exact ⟨_, List.mem_append_right _ List.mem_cons_self, rfl⟩

/-- What is collected. A listing settles which of its variables are chosen, and these settle the
outcome: a fault that names the first one whose value is longer than 8192 bytes, else a fault if
they have more than 256 names, else each name with the last value that is listed for it. What is not
chosen makes no difference, so a variable without one of the prefixes is never taken and never at
fault. -/
theorem collect_eq_iff_collects (filter : Capture) (listing : List (Bytes × Bytes)) :
    ∃ chosen, (∀ other, Chosen filter.prefixes listing other ↔ other = chosen) ∧
      (∀ outcome, filter.collect listing = outcome ↔ Collects chosen outcome) ∧
      (∀ others, Chosen filter.prefixes others chosen →
        filter.collect others = filter.collect listing) ∧
      (∀ taken, filter.collect listing = .ok taken →
        ∀ name ∈ Members.keys taken, Begins filter.prefixes name) ∧
      ∀ name, filter.collect listing = .error (.variableTooLong name) →
        Begins filter.prefixes name := by
  have hchosen : Chosen filter.prefixes listing (listing.filterMap filter.take?) :=
    chosen_filterMap listing
  have hcollects : ∀ outcome, filter.collect listing = outcome ↔
      Collects (listing.filterMap filter.take?) outcome := by
    refine fun outcome => ⟨?_, collect_of_collects⟩
    rintro rfl
    obtain ⟨outcome, houtcome⟩ := exists_collects (listing.filterMap filter.take?)
    rwa [collect_of_collects houtcome]
  refine ⟨_, fun other => chosen_iff, hcollects, fun others hothers => ?_,
    fun taken htaken name hname => ?_, fun name hname => ?_⟩
  · have hsame := (hcollects _).1 rfl
    rw [chosen_iff.1 hothers] at hsame
    exact collect_of_collects hsame
  · obtain ⟨m, hm, rfl⟩ := ((hcollects _).1 htaken).exists_mem hname
    exact hchosen.begins m hm
  · obtain ⟨m, hm, rfl⟩ := ((hcollects _).1 hname).exists_mem_of_tooLong
    exact hchosen.begins m hm

/-- A name without the prefix and a value that is no text are passed over; the last value counts. -/
example : (⟨["BUILD_"], by decide, by decide⟩ : Capture).collect
    [(Utf8.encode "BUILD_ID", Utf8.encode "7"), (Utf8.encode "HOME", Utf8.encode "/"),
      (Utf8.encode "BUILD_TAG", [0xFF]), (Utf8.encode "BUILD_ID", Utf8.encode "8")] =
    .ok [("BUILD_ID", .str "8")] := by
  decide +kernel

end TestJob.Capture
