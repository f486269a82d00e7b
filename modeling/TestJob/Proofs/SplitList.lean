import Mathlib
import TestJob.Normalize
import TestJob.Proofs.Text

/-!
The list of split names. Items are read from the first on, and what has been read is a list in order
by itself (`Accepted`): texts, none blank and no two equal. An item keeps it so, or has the one
fault of its place (`FaultAt`) and ends the reading. So a list is taken as it is written, or refused
with the fault of the first place that has one (`FirstFault`), whatever comes after that place.
-/

namespace TestJob

theorem Identifier.toJson_injective {kind : IdentifierKind} :
    Function.Injective (@Identifier.toJson kind) := by
  rintro ⟨a⟩ ⟨b⟩ h
  exact congrArg Identifier.mk (Json.str.inj h)

namespace SplitList

/-- Items that are the names as they are written, none of them blank and no two equal. -/
structure Accepted (items : List Json) (names : List SplitName) : Prop where
  verbatim : names.map Identifier.toJson = items
  not_blank : ∀ name ∈ names, Text.trim name.text ≠ ""
  nodup : names.Nodup

/-- What is wrong with the item at a place: it is no text, else it is blank, else an earlier item is
the same text. -/
inductive FaultAt (items : List Json) (i : Nat) : NormalizeError → Prop where
  | notText {item : Json} (hitem : items[i]? = some item) (hkind : ∀ text, item ≠ .str text) :
    FaultAt items i (.typeMismatch ("testSplits[" ++ toString i ++ "]") "string" (.of item))
  | blank {text : String} (hitem : items[i]? = some (.str text)) (hblank : Text.trim text = "") :
    FaultAt items i .emptySplitName
  | repeated {text : String} {j : Nat} (hitem : items[i]? = some (.str text))
    (hblank : Text.trim text ≠ "") (hearlier : j < i) (hsame : items[j]? = some (.str text)) :
    FaultAt items i (.duplicateSplit text)

/-- The fault of the first place that has one. -/
structure FirstFault (items : List Json) (i : Nat) (fault : NormalizeError) : Prop where
  here : FaultAt items i fault
  before : ∀ j < i, ∀ other, ¬FaultAt items j other

variable {items front : List Json} {names : List SplitName} {text : String} {i : Nat}
  {fault : NormalizeError}

/-! ### Places and their faults -/

/-- A place has one fault at most. -/
theorem FaultAt.eq {other : NormalizeError} (h : FaultAt items i fault)
    (hother : FaultAt items i other) : fault = other := by
  cases h <;> cases hother <;> grind

theorem FirstFault.eq {j : Nat} {other : NormalizeError} (h : FirstFault items i fault)
    (hother : FirstFault items j other) : fault = other := by
  rcases Nat.lt_trichotomy i j with hlt | rfl | hlt
  · exact absurd h.here (hother.before i hlt fault)
  · exact h.here.eq hother.here
  · exact absurd hother.here (h.before j hlt other)

/-- The fault of a place hangs on the items up to it alone. -/
theorem FaultAt.congr {others : List Json} (hsame : ∀ j ≤ i, others[j]? = items[j]?) :
    FaultAt items i fault → FaultAt others i fault
  | .notText hitem hkind => .notText ((hsame i le_rfl).trans hitem) hkind
  | .blank hitem hblank => .blank ((hsame i le_rfl).trans hitem) hblank
  | .repeated hitem hblank hearlier hequal =>
    .repeated ((hsame i le_rfl).trans hitem) hblank hearlier ((hsame _ hearlier.le).trans hequal)

theorem FaultAt.lt_length (h : FaultAt items i fault) : i < items.length := by
  cases h with
  | notText hitem | blank hitem | repeated hitem => exact (List.getElem?_eq_some_iff.1 hitem).1

/-- What comes after the first fault makes no difference. -/
theorem FirstFault.take_append (h : FirstFault items i fault) (rest : List Json) :
    FirstFault (items.take (i + 1) ++ rest) i fault := by
  have hlength := h.here.lt_length
  have hsame : ∀ j ≤ i, (items.take (i + 1) ++ rest)[j]? = items[j]? := fun j hj => by
    rw [List.getElem?_append_left (by rw [List.length_take]; omega),
      List.getElem?_take_of_lt (by omega)]
  refine ⟨h.here.congr hsame, fun j hj other hother => h.before j hj other ?_⟩
  exact hother.congr fun k hk => (hsame k (by omega)).symm

/-! ### What has been read -/

namespace Accepted

theorem length_eq (h : Accepted front names) : names.length = front.length := by
  rw [← h.verbatim, List.length_map]

theorem mem_iff (h : Accepted front names) : ⟨text⟩ ∈ names ↔ .str text ∈ front := by
  rw [← h.verbatim]
  exact (List.mem_map_of_injective Identifier.toJson_injective).symm

/-- A new text that is not blank is one more name. -/
theorem append (h : Accepted front names) (hblank : Text.trim text ≠ "")
    (hnew : .str text ∉ front) : Accepted (front ++ [.str text]) (names ++ [⟨text⟩]) where
  verbatim := by
    rw [List.map_append, h.verbatim]
    rfl
  not_blank := by
    rw [List.forall_mem_append, List.forall_mem_singleton]
    exact ⟨h.not_blank, hblank⟩
  nodup := by
    rw [← List.concat_eq_append, List.nodup_concat]
    exact ⟨mt h.mem_iff.1 hnew, h.nodup⟩

/-- The items that have been read are the names, whatever comes after them. -/
theorem exists_getElem? (h : Accepted front names) (hi : i < front.length) (rest : List Json) :
    ∃ name, names[i]? = some name ∧ (front ++ rest)[i]? = some (.str name.text) := by
  have hi' : i < names.length := by rwa [h.length_eq]
  refine ⟨names[i], List.getElem?_eq_getElem hi', ?_⟩
  rw [List.getElem?_append_left hi, ← h.verbatim, List.getElem?_map, List.getElem?_eq_getElem hi']
  rfl

/-- No place of what has been read is at fault. -/
theorem not_faultAt (h : Accepted front names) (hi : i < front.length) (rest : List Json) :
    ¬FaultAt (front ++ rest) i fault := by
  obtain ⟨name, hname, hhere⟩ := h.exists_getElem? hi rest
  intro hfault
  cases hfault with
  | notText hitem hkind => exact hkind _ (Option.some.inj (hitem.symm.trans hhere))
  | blank hitem hblank =>
    obtain rfl := Json.str.inj (Option.some.inj (hitem.symm.trans hhere))
    exact h.not_blank name (List.mem_of_getElem? hname) hblank
  | @repeated text j hitem _ hearlier hsame =>
    -- the same name would stand at two places
    obtain ⟨⟨_⟩, hother, hthere⟩ := h.exists_getElem? (hearlier.trans hi) rest
    obtain rfl := Json.str.inj (Option.some.inj (hsame.symm.trans hthere))
    obtain rfl := Json.str.inj (Option.some.inj (hitem.symm.trans hhere))
    have hj : j < names.length := (List.getElem?_eq_some_iff.1 hother).1
    have hplace : j = i := (List.getElem?_inj hj h.nodup).1 (hother.trans hname.symm)
    exact hearlier.ne hplace

theorem faultless (h : Accepted items names) : ¬FaultAt items i fault := by
  intro hfault
  have hlength := hfault.lt_length
  rw [← List.append_nil items] at hfault
  exact h.not_faultAt hlength [] hfault

/-! ### The reading -/

/-- The next item has the fault of its place, or it is read. -/
theorem step (h : Accepted front names) (item : Json) (rest : List Json) :
    (∃ fault, FaultAt (front ++ item :: rest) front.length fault ∧
      Record.splits names.reverse (item :: rest) = .error fault) ∨
    ∃ name, Accepted (front ++ [item]) (names ++ [name]) ∧
      Record.splits names.reverse (item :: rest) =
        Record.splits (names ++ [name]).reverse rest := by
  have hitem : (front ++ item :: rest)[front.length]? = some item := by simp
  cases item with
  | str text =>
    rw [Record.splits]
    by_cases hblank : Text.trim text = ""
    · exact .inl ⟨_, .blank hitem hblank, if_pos (Text.isBlank_iff_trim_eq.2 hblank)⟩
    rw [if_neg fun h => hblank (Text.isBlank_iff_trim_eq.1 h)]
    by_cases hseen : .str text ∈ front
    · obtain ⟨j, hj, hget⟩ := List.mem_iff_getElem.1 hseen
      have hsame : (front ++ .str text :: rest)[j]? = some (.str text) := by
        rw [List.getElem?_append_left hj, List.getElem?_eq_getElem hj, hget]
      refine .inl ⟨_, .repeated hitem hblank hj hsame, if_pos ?_⟩
      exact List.mem_reverse.2 (h.mem_iff.2 hseen)
    · refine .inr ⟨⟨text⟩, h.append hblank hseen, ?_⟩
      rw [if_neg fun hmem => hseen (h.mem_iff.1 (List.mem_reverse.1 hmem)), List.reverse_append]
      rfl
  | _ =>
    refine .inl ⟨_, .notText hitem nofun, ?_⟩
    simp only [Record.splits, List.length_reverse, h.length_eq]
    rfl

/-- The reading ends with all names, or at the first place at fault. -/
theorem ends (h : Accepted front names) (rest : List Json) :
    (∃ all, Record.splits names.reverse rest = .ok all ∧ Accepted (front ++ rest) all) ∨
    ∃ fault i, Record.splits names.reverse rest = .error fault ∧
      FirstFault (front ++ rest) i fault := by
  induction rest generalizing front names with
  | nil => exact .inl ⟨names, by rw [Record.splits, List.reverse_reverse], by rwa [List.append_nil]⟩
  | cons item rest ih =>
    rcases h.step item rest with ⟨fault, hfault, hread⟩ | ⟨name, haccepted, hread⟩
    · exact .inr ⟨fault, _, hread, hfault, fun j hj _ => h.not_faultAt hj _⟩
    · have hends := ih haccepted
      rwa [← hread, ← List.append_cons] at hends

end Accepted

/-- A list is read to its end, or up to the first place at fault. -/
theorem splits_ends (items : List Json) :
    (∃ names, Record.splits [] items = .ok names ∧ Accepted items names) ∨
    ∃ fault i, Record.splits [] items = .error fault ∧ FirstFault items i fault :=
  have hnil : Accepted [] [] := ⟨rfl, by simp, List.nodup_nil⟩
  hnil.ends items

/-! ### The list of a record -/

theorem exists_accepted_iff :
    (∃ names, Accepted items names) ↔
      (∀ item ∈ items, ∃ text, item = .str text ∧ Text.trim text ≠ "") ∧ items.Nodup := by
  constructor
  · rintro ⟨names, h⟩
    rw [← h.verbatim, List.forall_mem_map]
    exact ⟨fun name hname => ⟨_, rfl, h.not_blank name hname⟩,
      h.nodup.map Identifier.toJson_injective⟩
  · rintro ⟨htexts, hnodup⟩
    have hnames : items ∈ Set.range (List.map (@Identifier.toJson .split)) := by
      rw [Set.range_list_map]
      intro item hitem
      obtain ⟨text, rfl, _⟩ := htexts item hitem
      exact ⟨⟨text⟩, rfl⟩
    obtain ⟨names, rfl⟩ := hnames
    refine ⟨names, rfl, fun name hname => ?_, hnodup.of_map _⟩
    obtain ⟨text, heq, hblank⟩ := htexts _ (List.mem_map_of_mem hname)
    exact Json.str.inj heq ▸ hblank

theorem accepted_of_splits (h : Record.splits [] items = .ok names) : Accepted items names := by
  rcases splits_ends items with ⟨all, hread, haccepted⟩ | ⟨_, _, hread, _⟩
  · obtain rfl : all = names := Except.ok.inj (hread.symm.trans h)
    exact haccepted
  · cases hread.symm.trans h

/-- A list is read to its end when it is accepted. -/
theorem exists_splits_iff :
    (∃ names, Record.splits [] items = .ok names) ↔ ∃ names, Accepted items names := by
  constructor
  · rintro ⟨names, h⟩
    exact ⟨names, accepted_of_splits h⟩
  · rintro ⟨names, h⟩
    rcases splits_ends items with ⟨all, hread, _⟩ | ⟨_, _, _, hfirst⟩
    · exact ⟨all, hread⟩
    · exact absurd hfirst.here h.faultless

/-- A list is refused with the fault of the first place that has one. -/
theorem splits_eq_error_iff :
    Record.splits [] items = .error fault ↔ ∃ i, FirstFault items i fault := by
  rcases splits_ends items with ⟨all, hread, haccepted⟩ | ⟨found, i, hread, hfirst⟩
  · refine iff_of_false (fun h => nomatch hread.symm.trans h) ?_
    rintro ⟨_, hfirst⟩
    exact haccepted.faultless hfirst.here
  · constructor
    · intro h
      obtain rfl : found = fault := Except.error.inj (hread.symm.trans h)
      exact ⟨i, hfirst⟩
    · rintro ⟨_, h⟩
      exact h.eq hfirst ▸ hread

theorem optionalSplits_eq {record : Record}
    (h : Members.find? FieldName.testSplits record = some (.arr items)) :
    record.optionalSplits = Record.splits [] items := by
  rw [Record.optionalSplits, Record.lookup, h]
  rfl

/-- The list of a record is read to its end exactly when each item is a text that is not blank and
no two are equal, and gives the texts as they are written, in their order. Otherwise the first place
at fault decides, by what the item there is and by the items before it, whatever comes after. -/
theorem verbatim_or_first_fault {record : Record} {items : List Json}
    (hitems : Members.find? FieldName.testSplits record = some (.arr items)) :
    ((∃ names, record.optionalSplits = .ok names) ↔
      (∀ item ∈ items, ∃ text, item = .str text ∧ Text.trim text ≠ "") ∧ items.Nodup) ∧
    (∀ names, record.optionalSplits = .ok names → names.map Identifier.toJson = items) ∧
    (∀ fault, record.optionalSplits = .error fault ↔ ∃ i, FirstFault items i fault) ∧
    ∀ i fault, FirstFault items i fault → ∀ (other : Record) (rest : List Json),
      Members.find? FieldName.testSplits other = some (.arr (items.take (i + 1) ++ rest)) →
      other.optionalSplits = .error fault := by
  rw [optionalSplits_eq hitems]
  refine ⟨exists_splits_iff.trans exists_accepted_iff,
    fun names h => (accepted_of_splits h).verbatim, fun fault => splits_eq_error_iff,
    fun i fault hfirst other rest hother => ?_⟩
  rw [optionalSplits_eq hother, splits_eq_error_iff]
  exact ⟨i, hfirst.take_append rest⟩

/-- A record of nothing but a list of splits. -/
def recordOf (items : List Json) : Record := [(FieldName.testSplits, .arr items)]

/-- Two names that differ in one letter. -/
def distinctItems : List Json := [.str "unit", .str "Unit"]

/-- The first of them again, and worse after it. -/
def repeatedItems : List Json := distinctItems ++ [.str "unit", .str " ", .null]

theorem verbatim_or_first_fault_repeated :
    Members.find? FieldName.testSplits (recordOf distinctItems) = some (.arr distinctItems) ∧
      (recordOf distinctItems).optionalSplits = .ok [⟨"unit"⟩, ⟨"Unit"⟩] ∧
      [⟨"unit"⟩, ⟨"Unit"⟩].map (@Identifier.toJson .split) = distinctItems ∧
      Members.find? FieldName.testSplits (recordOf repeatedItems) = some (.arr repeatedItems) ∧
      FirstFault repeatedItems 2 (.duplicateSplit "unit") ∧
      (recordOf repeatedItems).optionalSplits = .error (.duplicateSplit "unit") ∧
      (recordOf (repeatedItems.take 3 ++ [.arr []])).optionalSplits =
        .error (.duplicateSplit "unit") := by
  have haccepted : Accepted distinctItems [⟨"unit"⟩, ⟨"Unit"⟩] :=
    ⟨rfl, by decide +kernel, by decide⟩
  have hfirst : FirstFault repeatedItems 2 (.duplicateSplit "unit") :=
    ⟨.repeated rfl (by decide +kernel) (by decide : 0 < 2) rfl,
      fun _ hj _ => haccepted.not_faultAt hj _⟩
  have hread : (recordOf distinctItems).optionalSplits = .ok [⟨"unit"⟩, ⟨"Unit"⟩] := by
    decide +kernel
  have hfind : ∀ items, Members.find? FieldName.testSplits (recordOf items) = some (.arr items) :=
    fun _ => rfl
  obtain ⟨_, hverbatim, _, _⟩ := verbatim_or_first_fault (hfind distinctItems)
  obtain ⟨_, _, herror, hothers⟩ := verbatim_or_first_fault (hfind repeatedItems)
  exact ⟨hfind _, hread, hverbatim _ hread, hfind _, hfirst, (herror _).2 ⟨2, hfirst⟩,
    hothers 2 _ hfirst _ _ (hfind _)⟩

end SplitList

end TestJob
