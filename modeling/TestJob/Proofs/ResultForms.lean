import Mathlib
import TestJob.Proofs.Json.Reader
import TestJob.Submission.Result

/-!
The forms of a run result. A text tells a result if it is an object that names the status once and
the reference at most once, among any other members and in any order, or an array of the two
(`Spells`), and reading takes exactly these texts (`read?_eq_some_iff`). Writing has one form only,
which reading takes too (`read?_text`). So a result that is read and written again is read as
before, whatever form it came in (`wire_form`).
-/

namespace TestJob

open Json (Node)

namespace RunStatus

/-- How a status is spelled: by its name, or by its name as the key of a null. -/
inductive Spells : Node → RunStatus → Prop where
  | name (status : RunStatus) : Spells (.text (some status.label)) status
  | tagged (status : RunStatus) : Spells (.object [(some status.label, .null)]) status

theorem ofLabel?_eq_some_iff {s : String} {status : RunStatus} :
    ofLabel? s = some status ↔ s = status.label := by
  constructor
  · intro h
    have hlabel := List.find?_some h
    simpa using (of_decide_eq_true hlabel).symm
  · rintro rfl
    cases status <;> rfl

theorem ofNode?_eq_some_iff {node : Node} {status : RunStatus} :
    ofNode? node = some status ↔ Spells node status := by
  constructor
  · intro h
    rw [ofNode?.eq_def] at h
    split at h
    · obtain rfl := ofLabel?_eq_some_iff.1 h
      exact .name status
    · obtain rfl := ofLabel?_eq_some_iff.1 h
      exact .tagged status
    · cases h
  · rintro (_ | _) <;> exact ofLabel?_eq_some_iff.2 rfl

end RunStatus

namespace RunResult

/-! ### What a text tells -/

/-- What stands in an object at a key, in order. -/
def valuesOf (key : String) (members : List (Option String × Node)) : List Node :=
  (members.filter fun m => m.1 = some key).map Prod.snd

/-- The reference that is told by what stands at its key. -/
inductive Refers : List Node → Option String → Prop where
  | absent : Refers [] none
  | null : Refers [.null] none
  | text (s : String) : Refers [.text (some s)] (some s)

/-- What the tree of a text tells of a result. -/
inductive Spells : Node → RunResult → Prop where
  /-- Every key is text; other members than the two are passed over. -/
  | object {members : List (Option String × Node)} {node : Node} {status : RunStatus}
      {reference : Option String} (hkeys : ∀ m ∈ members, m.1.isSome)
      (hstatus : valuesOf "status" members = [node]) (hnode : RunStatus.Spells node status)
      (hreference : Refers (valuesOf "reference" members) reference) :
      Spells (.object members) ⟨status, reference⟩
  | array {first second : Node} {status : RunStatus} {reference : Option String}
      (hfirst : RunStatus.Spells first status) (hsecond : Refers [second] reference) :
      Spells (.array [first, second]) ⟨status, reference⟩

theorem referenceOf?_eq_some_iff {node : Node} {reference : Option String} :
    referenceOf? node = some reference ↔ Refers [node] reference := by
  constructor
  · intro h
    rw [referenceOf?.eq_def] at h
    split at h
    · obtain rfl := Option.some.inj h
      exact .null
    · obtain rfl := Option.some.inj h
      exact .text _
    · cases h
  · rintro (_ | _) <;> rfl

/-! ### Reading an object -/

/-- A part of a result before and after what stands at its key: it is read at most once. -/
inductive Part {α : Type} (read : Node → Option α) : Option α → List Node → Option α → Prop where
  | kept (before : Option α) : Part read before [] before
  | taken {node : Node} {value : α} (h : read node = some value) :
    Part read none [node] (some value)

section Parts

variable {α : Type} {read : Node → Option α} {before after : Option α} {node : Node}
  {nodes : List Node}

theorem part_nil_iff : Part read before [] after ↔ after = before := by
  constructor
  · rintro ⟨⟩
    rfl
  · rintro rfl
    exact .kept after

theorem part_cons_iff : Part read before (node :: nodes) after ↔
    before = none ∧ ∃ value, read node = some value ∧ Part read (some value) nodes after := by
  constructor
  · rintro (_ | h)
    exact ⟨rfl, _, h, .kept _⟩
  · rintro ⟨rfl, value, h, ⟨⟩⟩
    exact .taken h

theorem valuesOf_nil (key : String) : valuesOf key [] = [] := rfl

theorem valuesOf_cons_self (key : String) (node : Node) (rest : List (Option String × Node)) :
    valuesOf key ((some key, node) :: rest) = node :: valuesOf key rest := by
  simp [valuesOf]

theorem valuesOf_cons_of_ne {key other : String} (h : other ≠ key) (node : Node)
    (rest : List (Option String × Node)) :
    valuesOf key ((some other, node) :: rest) = valuesOf key rest := by
  simp [valuesOf, h]

end Parts

theorem take?_other {key : String} (hstatus : key ≠ "status") (hreference : key ≠ "reference")
    (draft : Draft) (node : Node) : draft.take? (some key, node) = some draft := by
  rw [Draft.take?, if_neg hstatus, if_neg hreference]

theorem take?_status_eq_some_iff {draft next : Draft} {node : Node} :
    draft.take? (some "status", node) = some next ↔
      draft.status = none ∧ ∃ status, RunStatus.ofNode? node = some status ∧
        next = ⟨some status, draft.reference⟩ := by
  obtain ⟨_ | status, reference⟩ := draft
  · simp [Draft.take?, eq_comm]
  · simp [Draft.take?]

theorem take?_reference_eq_some_iff {draft next : Draft} {node : Node} :
    draft.take? (some "reference", node) = some next ↔
      draft.reference = none ∧ ∃ reference, referenceOf? node = some reference ∧
        next = ⟨draft.status, some reference⟩ := by
  obtain ⟨status, _ | reference⟩ := draft
  · simp [Draft.take?, eq_comm]
  · simp [Draft.take?]

/-- The members of an object are read, one after the other, exactly when every key is text and
each of the two parts is read at most once. -/
theorem foldlM_take?_eq_some_iff {members : List (Option String × Node)} {draft after : Draft} :
    members.foldlM Draft.take? draft = some after ↔
      (∀ m ∈ members, m.1.isSome) ∧
        Part RunStatus.ofNode? draft.status (valuesOf "status" members) after.status ∧
        Part referenceOf? draft.reference (valuesOf "reference" members) after.reference := by
  -- the draft is general, since each member is read into what the ones before it made
  induction members generalizing draft with
  | nil =>
    obtain ⟨status, reference⟩ := draft
    obtain ⟨status', reference'⟩ := after
    rw [List.foldlM_nil, Option.pure_def, Option.some.injEq, Draft.mk.injEq, valuesOf_nil,
      valuesOf_nil]
    dsimp only
    rw [part_nil_iff, part_nil_iff, eq_comm, @eq_comm _ reference]
    exact (and_iff_right fun _ h => absurd h List.not_mem_nil).symm
  | cons m rest ih =>
    obtain ⟨key, node⟩ := m
    cases key with
    | none => exact iff_of_false nofun fun h => absurd (h.1 _ List.mem_cons_self) nofun
    | some key =>
      rw [List.foldlM_cons, Option.bind_eq_bind, Option.bind_eq_some_iff, List.forall_mem_cons,
        and_iff_right (Option.isSome_some : (some key).isSome)]
      simp only [ih]
      by_cases hstatus : key = "status"
      · subst hstatus
        simp only [take?_status_eq_some_iff, valuesOf_cons_self,
          valuesOf_cons_of_ne (by decide : "status" ≠ "reference"), part_cons_iff]
        constructor
        · rintro ⟨_, ⟨hnone, status, hnode, rfl⟩, hkeys, hrest, hreference⟩
          exact ⟨hkeys, ⟨hnone, status, hnode, hrest⟩, hreference⟩
        · rintro ⟨hkeys, ⟨hnone, status, hnode, hrest⟩, hreference⟩
          exact ⟨_, ⟨hnone, status, hnode, rfl⟩, hkeys, hrest, hreference⟩
      · by_cases hreference : key = "reference"
        · subst hreference
          simp only [take?_reference_eq_some_iff, valuesOf_cons_self,
            valuesOf_cons_of_ne (by decide : "reference" ≠ "status"), part_cons_iff]
          constructor
          · rintro ⟨_, ⟨hnone, reference, hnode, rfl⟩, hkeys, hstatus, hrest⟩
            exact ⟨hkeys, hstatus, hnone, reference, hnode, hrest⟩
          · rintro ⟨hkeys, hstatus, hnone, reference, hnode, hrest⟩
            exact ⟨_, ⟨hnone, reference, hnode, rfl⟩, hkeys, hstatus, hrest⟩
        · simp only [take?_other hstatus hreference, valuesOf_cons_of_ne hstatus,
            valuesOf_cons_of_ne hreference, Option.some.injEq, exists_eq_left']

/-- A part that has not been read before is absent, or stands at its key once. -/
theorem part_none_iff {α : Type} {read : Node → Option α} {nodes : List Node} {after : Option α} :
    Part read none nodes after ↔
      nodes = [] ∧ after = none ∨
        ∃ node value, nodes = [node] ∧ read node = some value ∧ after = some value := by
  constructor
  · rintro (_ | h)
    · exact .inl ⟨rfl, rfl⟩
    · exact .inr ⟨_, _, rfl, h, rfl⟩
  · rintro (⟨rfl, rfl⟩ | ⟨node, value, rfl, h, rfl⟩)
    · exact .kept none
    · exact .taken h

/-- What is read at the key of the reference. -/
theorem exists_part_iff_refers {nodes : List Node} {reference : Option String} :
    (∃ after, Part referenceOf? none nodes after ∧ after.join = reference) ↔
      Refers nodes reference := by
  simp only [part_none_iff]
  constructor
  · rintro ⟨after, ⟨rfl, rfl⟩ | ⟨node, value, rfl, hnode, rfl⟩, rfl⟩
    · exact .absent
    · exact referenceOf?_eq_some_iff.1 hnode
  · intro h
    cases h with
    | absent => exact ⟨none, .inl ⟨rfl, rfl⟩, rfl⟩
    | null => exact ⟨some none, .inr ⟨_, _, rfl, rfl, rfl⟩, rfl⟩
    | text s => exact ⟨some (some s), .inr ⟨_, _, rfl, rfl, rfl⟩, rfl⟩

theorem ofNode?_object_eq_some_iff {members : List (Option String × Node)} {result : RunResult} :
    ofNode? (.object members) = some result ↔
      ∃ draft, members.foldlM Draft.take? ⟨none, none⟩ = some draft ∧
        draft.status = some result.status ∧ draft.reference.join = result.reference := by
  obtain ⟨status, reference⟩ := result
  simp only [ofNode?, Option.bind_eq_bind, Option.bind_eq_some_iff, Option.pure_def,
    Option.some.injEq, RunResult.mk.injEq]
  constructor
  · rintro ⟨draft, hdraft, _, hstatus, rfl, rfl⟩
    exact ⟨draft, hdraft, hstatus, rfl⟩
  · rintro ⟨draft, hdraft, hstatus, rfl⟩
    exact ⟨draft, hdraft, status, hstatus, rfl, rfl⟩

theorem ofNode?_array_eq_some_iff {first second : Node} {result : RunResult} :
    ofNode? (.array [first, second]) = some result ↔
      RunStatus.ofNode? first = some result.status ∧
        referenceOf? second = some result.reference := by
  obtain ⟨status, reference⟩ := result
  simp only [ofNode?, Option.bind_eq_bind, Option.bind_eq_some_iff, Option.pure_def,
    Option.some.injEq, RunResult.mk.injEq]
  constructor
  · rintro ⟨_, hstatus, _, hreference, rfl, rfl⟩
    exact ⟨hstatus, hreference⟩
  · rintro ⟨hstatus, hreference⟩
    exact ⟨status, hstatus, reference, hreference, rfl, rfl⟩

/-- Reading takes the trees that tell a result, and gives what they tell. -/
theorem ofNode?_eq_some_iff {node : Node} {result : RunResult} :
    ofNode? node = some result ↔ Spells node result := by
  constructor
  · intro h
    have hnode := h
    rw [ofNode?.eq_def] at h
    split at h
    · obtain ⟨draft, hdraft, hstatus, hreference⟩ := ofNode?_object_eq_some_iff.1 hnode
      obtain ⟨hkeys, hfirst, hsecond⟩ := foldlM_take?_eq_some_iff.1 hdraft
      rw [hstatus, part_none_iff] at hfirst
      obtain ⟨_, hnone⟩ | ⟨node, status, hvalues, hread, heq⟩ := hfirst
      · cases hnone
      · obtain rfl := Option.some.inj heq
        exact .object hkeys hvalues (RunStatus.ofNode?_eq_some_iff.1 hread)
          (exists_part_iff_refers.1 ⟨_, hsecond, hreference⟩)
    · obtain ⟨hstatus, hreference⟩ := ofNode?_array_eq_some_iff.1 hnode
      exact .array (RunStatus.ofNode?_eq_some_iff.1 hstatus)
        (referenceOf?_eq_some_iff.1 hreference)
    · cases h
  · intro h
    cases h with
    | object hkeys hstatus hnode hreference =>
      obtain ⟨after, hsecond, hjoin⟩ := exists_part_iff_refers.2 hreference
      refine ofNode?_object_eq_some_iff.2 ⟨⟨some _, after⟩, ?_, rfl, hjoin⟩
      refine foldlM_take?_eq_some_iff.2 ⟨hkeys, ?_, hsecond⟩
      rw [hstatus]
      exact .taken (RunStatus.ofNode?_eq_some_iff.2 hnode)
    | array hfirst hsecond =>
      exact ofNode?_array_eq_some_iff.2 ⟨RunStatus.ofNode?_eq_some_iff.2 hfirst,
        referenceOf?_eq_some_iff.2 hsecond⟩

/-- The texts that are read are those that tell a result. -/
theorem read?_eq_some_iff {text : String} {result : RunResult} :
    read? text = some result ↔ ∃ node, Node.read? text.toList = some node ∧ Spells node result := by
  simp only [read?, Option.bind_eq_bind, Option.bind_eq_some_iff, ofNode?_eq_some_iff]

/-! ### Writing -/

/-- The tree of the written form: the status by its name, then the reference or a null. -/
def written (result : RunResult) : Node :=
  .object [(some "status", .text (some result.status.label)),
    (some "reference", match result.reference with
      | some s => .text (some s)
      | none => .null)]

theorem node_toJson (result : RunResult) : Json.node .faithful result.toJson = result.written := by
  obtain ⟨status, _ | reference⟩ := result <;> rfl

theorem spells_written (result : RunResult) : Spells result.written result := by
  obtain ⟨status, _ | reference⟩ := result
  · exact .object (by simp) rfl (.name status) .null
  · exact .object (by simp) rfl (.name status) (.text reference)

theorem chars_textOrNull (reference : Option String) :
    Json.chars .faithful id (Json.textOrNull reference) =
      reference.elim "null".toList Json.quote := by
  cases reference with
  | none => decide
  | some s => rfl

theorem quote_label (status : RunStatus) :
    Json.quote status.label = '"' :: status.label.toList ++ ['"'] := by
  cases status <;> decide

/-- The written form is one object without anything between its tokens. -/
theorem toList_text (result : RunResult) :
    result.text.toList =
      "\x7b\"status\":\"".toList ++ result.status.label.toList ++ "\",\"reference\":".toList ++
        (result.reference.elim "null".toList Json.quote ++ ['\x7d']) := by
  have hstatus : Json.quote "status" = "\"status\"".toList := by decide
  have hreference : Json.quote "reference" = "\"reference\"".toList := by decide
  rw [text, Json.compact, String.toList_ofList, toJson, Json.chars_obj, id, List.map_map]
  simp only [List.map_cons, List.map_nil, Function.comp_apply, chars_textOrNull, Json.chars,
    Json.memberChars, hstatus, hreference, quote_label]
  simp [Json.bracket]

theorem read?_toList_text (result : RunResult) :
    Node.read? result.text.toList = some result.written := by
  have hspace : ∀ c ∈ ([] : List Char), Json.Token.isSpace c = true := fun _ h => by cases h
  rw [text, Json.compact, String.toList_ofList, ← List.append_nil (Json.chars _ _ _),
    Json.read?_chars _ _ hspace, node_toJson]

theorem read?_text (result : RunResult) : read? result.text = some result :=
  read?_eq_some_iff.2 ⟨_, result.read?_toList_text, result.spells_written⟩

theorem text_injective : Function.Injective text := by
  intro result other h
  have hread := other.read?_text
  rw [← h, read?_text] at hread
  exact Option.some.inj hread

/-- A result has one written form, an object that names the status and then the reference, and it
is read as the result. The texts that are read are those that tell a result in any of the forms;
written anew, such a text is read as it was before. -/
theorem wire_form (text : String) (result : RunResult) :
    result.text.toList =
        "\x7b\"status\":\"".toList ++ result.status.label.toList ++ "\",\"reference\":".toList ++
          (result.reference.elim "null".toList Json.quote ++ ['\x7d']) ∧
      read? result.text = some result ∧
      Function.Injective RunResult.text ∧
      (read? text = some result ↔
        ∃ node, Node.read? text.toList = some node ∧ Spells node result) ∧
      (read? text).bind (fun told => read? told.text) = read? text := by
  refine ⟨toList_text result, read?_text result, text_injective, read?_eq_some_iff, ?_⟩
  cases read? text with
  | none => rfl
  | some told => rw [Option.bind_some, read?_text]

example : read? " [\x7b\"failed\" : null\x7d, \"\\ud83d\\ude00\"]" = some ⟨.failed, some "😀"⟩ := by
  decide +kernel

end RunResult

end TestJob
