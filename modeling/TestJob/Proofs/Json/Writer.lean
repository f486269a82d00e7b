import Mathlib
import TestJob.Json.Reader
import TestJob.Proofs.Json.Literal
import TestJob.Proofs.Json.Node
import TestJob.Proofs.Json.Token
import TestJob.Proofs.Json.Value

/-!
Written values as trees. What `chars` writes for a value is read as the tree of the value
(`read?_chars`), since each number is written as one word (`Number.isWord`). To arrange the members
of the objects while they are written is to write a rearranged value (`chars_ofList`), so the same
holds of the canonical form.
-/

namespace TestJob

/-! ### Numbers -/

namespace Number

/-- What a written number is read as. -/
def literal? (l : Layout) (n : Number) : Option Json.Literal :=
  Json.Literal.ofChars? (Json.numberChars l n)

/-- A number is written without a character that ends a word, and read as a number again. -/
def IsWord (l : Layout) (n : Number) : Prop :=
  (∀ c ∈ Json.numberChars l n, Json.Token.endsWord c = false) ∧ (n.literal? l).isSome = true

theorem numberChars_int (l : Layout) (n : Int) (fits : Fits n) :
    Json.numberChars l (.int n fits) =
      (if decide (n < 0) then ['-'] else []) ++ Nat.toDigits 10 n.natAbs := by
  rw [Json.numberChars, Int.toString_eq_repr, Int.repr_eq_if]
  by_cases h : 0 ≤ n
  · have habs : n.toNat = n.natAbs := by omega
    rw [if_pos h, habs, Nat.toList_repr, decide_eq_false (not_lt.2 h)]
    rfl
  · have habs : (-n).toNat = n.natAbs := by omega
    rw [if_neg h, habs, String.toList_append, Nat.toList_repr, decide_eq_true (not_le.1 h)]
    rfl

theorem literal?_int (l : Layout) (n : Int) (fits : Fits n) :
    (int n fits).literal? l = some ⟨⟨n < 0, n.natAbs, 0⟩, true⟩ := by
  rw [literal?, numberChars_int, Json.Token.ofChars?_toDigits]

theorem isSome_literal? (l : Layout) : ∀ n : Number, (n.literal? l).isSome = true
  | .int n fits => by
    rw [literal?_int]
    rfl
  | .float x => by
    rw [literal?, Json.numberChars, Layout.binary64, Layout.decimal]
    split
    · split_ifs <;> decide
    · next hdigits =>
      obtain ⟨literal, hliteral, _⟩ := Json.Literal.exists_literal_magnitude l hdigits
        (Decimal.shortest x).exponent (Decimal.shortest x).negative
      rw [hliteral]
      rfl

/-- A whole number comes back from what it is read as. -/
theorem number?_int {n : Int} (fits : Fits n) :
    Json.Literal.number? ⟨⟨n < 0, n.natAbs, 0⟩, true⟩ = some (int n fits) := by
  have hvalue : (if decide (n < 0) = true then -(n.natAbs : Int) else n.natAbs) = n := by
    by_cases hn : n < 0
    · rw [if_pos (decide_eq_true hn)]
      omega
    · rw [if_neg (by simpa using hn)]
      omega
  have hzero : ¬(decide (n < 0) = true ∧ n.natAbs = 0) := by
    rw [decide_eq_true_eq]
    omega
  rw [Json.Literal.number?]
  simp only [hvalue]
  rw [dif_pos ⟨trivial, hzero, fits⟩]

end Number

namespace Json

/-- Characters that numbers are written with. -/
def Numeric (cs : List Char) : Prop :=
  ∀ c ∈ cs, c.isDigit = true ∨ c = '+' ∨ c = '-' ∨ c = '.' ∨ c = 'e'

instance (cs : List Char) : Decidable (Numeric cs) :=
  List.decidableBAll (fun c : Char => c.isDigit = true ∨ c = '+' ∨ c = '-' ∨ c = '.' ∨ c = 'e') cs

namespace Numeric

theorem append {cs ds : List Char} (hcs : Numeric cs) (hds : Numeric ds) : Numeric (cs ++ ds) :=
  List.forall_mem_append.2 ⟨hcs, hds⟩

theorem digits (n : Nat) : Numeric (Layout.digits n) := fun _ hc =>
  .inl (Nat.isDigit_of_mem_toDigits (by decide) (by decide) hc)

theorem zeros (n : Nat) : Numeric (List.replicate n '0') := fun c hc => by
  rw [List.eq_of_mem_replicate hc]
  decide

theorem exponentText (l : Layout) (e : Int) : Numeric (l.exponentText e) := by
  rw [Layout.exponentText.eq_def]
  split
  · refine append ?_ (digits _)
    split_ifs <;> decide
  · exact append (by decide) (digits _)

theorem magnitude (l : Layout) (n : Nat) (exponent : Int) : Numeric (l.magnitude n exponent) := by
  have hpoint : Numeric ['.'] := by decide
  have htake : ∀ k, Numeric ((Layout.digits n).take k) := fun k c hc =>
    digits n c (List.mem_of_mem_take hc)
  have hdrop : ∀ k, Numeric ((Layout.digits n).drop k) := fun k c hc =>
    digits n c (List.mem_of_mem_drop hc)
  rw [Layout.magnitude.eq_def]
  dsimp only
  rw [← List.drop_one]
  split
  · split
    · exact append (append (digits n) (zeros _)) (by split <;> decide)
    · split
      · exact append (htake _) (append hpoint (hdrop _))
      · exact append (append (by decide : Numeric ['0', '.']) (zeros _)) (digits n)
  · refine append (append (htake 1) ?_) (exponentText l _)
    split
    · decide
    · exact append hpoint (hdrop 1)

theorem numberChars (l : Layout) : ∀ n, Numeric (Json.numberChars l n)
  | .int n fits => by
    rw [Number.numberChars_int]
    exact append (by split_ifs <;> decide) (digits _)
  | .float x => by
    rw [Json.numberChars, Layout.binary64, Layout.decimal]
    split_ifs
    all_goals first | decide | exact append (by decide) (magnitude l _ _)

theorem endsWord {cs : List Char} (h : Numeric cs) : ∀ c ∈ cs, Token.endsWord c = false := by
  intro c hc
  rcases h c hc with hdigit | rfl | rfl | rfl | rfl
  · exact Token.endsWord_of_isDigit hdigit
  all_goals rfl

end Numeric

end Json

/-- Every number is written as one word. -/
theorem Number.isWord (l : Layout) (n : Number) : n.IsWord l :=
  ⟨(Json.Numeric.numberChars l n).endsWord, n.isSome_literal? l⟩

namespace Json

/-! ### Items and members -/

section Parts

variable (l : Layout) (arrange : Arrangement)

theorem itemParts_eq :
    ∀ (items : List Json) (written : List (List Char)),
      itemParts l arrange written items = written.reverse ++ items.map (chars l arrange)
  | [], written => by rw [itemParts, List.map_nil, List.append_nil]
  | item :: rest, written => by
    rw [itemParts, itemParts_eq, List.reverse_cons, List.append_assoc, List.map_cons,
      List.singleton_append]

theorem memberParts_eq :
    ∀ (members : List (String × Json)) (written : List (List Char × List Char)),
      memberParts l arrange written members =
        written.reverse ++ members.map fun m => (quote m.1, chars l arrange m.2)
  | [], written => by rw [memberParts, List.map_nil, List.append_nil]
  | (key, value) :: rest, written => by
    rw [memberParts, memberParts_eq, List.reverse_cons, List.append_assoc, List.map_cons,
      List.singleton_append]

theorem chars_arr (items : List Json) :
    chars l arrange (.arr items) = bracket '[' ']' (items.map (chars l arrange)) := by
  rw [chars, itemParts_eq]
  rfl

theorem chars_obj (members : List (String × Json)) :
    chars l arrange (.obj members) =
      bracket '{' '}'
        ((arrange (members.map fun m => (quote m.1, chars l arrange m.2))).map memberChars) := by
  rw [chars, memberParts_eq]
  rfl

end Parts

/-! ### The tree of a value -/

mutual

/-- The tree of a value whose numbers are laid out by `l`. -/
def node (l : Layout) : Json → Node
  | .null => .null
  | .bool value => .bool value
  | .num value => .number ((value.literal? l).getD ⟨⟨false, 0, 0⟩, false⟩)
  | .str value => .text (some value)
  | .arr items => .array (itemNodes l items)
  | .obj members => .object (memberNodes l members)

/-- The tree of each item. -/
def itemNodes (l : Layout) : List Json → List Node
  | [] => []
  | item :: rest => node l item :: itemNodes l rest

/-- The tree of each value, with its key. -/
def memberNodes (l : Layout) : List (String × Json) → List (Option String × Node)
  | [] => []
  | (key, value) :: rest => (some key, node l value) :: memberNodes l rest

end

section Trees

variable (l : Layout)

theorem itemNodes_eq : ∀ items : List Json, itemNodes l items = items.map (node l)
  | [] => rfl
  | item :: rest => by rw [itemNodes, itemNodes_eq, List.map_cons]

theorem memberNodes_eq :
    ∀ members : List (String × Json),
      memberNodes l members = members.map fun m => (some m.1, node l m.2)
  | [] => rfl
  | (key, value) :: rest => by rw [memberNodes, memberNodes_eq, List.map_cons]

theorem node_arr (items : List Json) : node l (.arr items) = .array (items.map (node l)) := by
  rw [node, itemNodes_eq]

theorem node_obj (members : List (String × Json)) :
    node l (.obj members) = .object (members.map fun m => (some m.1, node l m.2)) := by
  rw [node, memberNodes_eq]

end Trees

/-! ### Written values are read as their trees -/

open Token

theorem lexes_number (l : Layout) (n : Number) :
    Lexes (numberChars l n) (Node.tokens (node l (.num n))) := by
  obtain ⟨hword, hsome⟩ := n.isWord l
  obtain ⟨literal, hliteral⟩ := Option.isSome_iff_exists.1 hsome
  have hchars : ∀ word, Literal.ofChars? word = none → numberChars l n ≠ word := by
    rintro _ hnone rfl
    exact absurd (hliteral.symm.trans hnone) (Option.some_ne_none _)
  have htoken : ofWord? (numberChars l n) = some (.number literal) := by
    rw [ofWord?, if_neg (hchars _ rfl), if_neg (hchars _ rfl), if_neg (hchars _ rfl)]
    exact congrArg (Option.map Token.number) hliteral
  rw [node, Node.tokens, hliteral]
  exact lexes_word (hchars [] rfl) hword htoken

/-- What is written for a value is read as the tokens of its tree. -/
theorem lexes_chars (l : Layout) (value : Json) :
    Lexes (chars l id value) (Node.tokens (node l value)) := by
  induction value using Json.induction with
  | null =>
    rw [chars]
    exact lexes_word (by decide) (by intro c hc; fin_cases hc <;> rfl) rfl
  | bool b =>
    cases b with
    | true =>
      rw [chars]
      exact lexes_word (by decide) (by intro c hc; fin_cases hc <;> rfl) rfl
    | false =>
      rw [chars]
      exact lexes_word (by decide) (by intro c hc; fin_cases hc <;> rfl) rfl
  | num n => exact lexes_number l n
  | str s => exact lexes_quote s
  | arr items ih =>
    rw [chars_arr, node_arr, Node.tokens, Node.itemTokens_eq, List.map_map]
    exact Lexes.bracket rfl rfl ih
  | obj members ih =>
    rw [chars_obj, node_obj, Node.tokens, Node.memberTokens_eq, id, List.map_map, List.map_map]
    refine Lexes.bracket rfl rfl fun m hm => ?_
    exact (lexes_quote m.1).append_punctuation rfl (ih m hm)

/-- What is written for a value, with white space after it, is read as its tree. -/
theorem read?_chars (l : Layout) (value : Json) {space : List Char}
    (hspace : ∀ c ∈ space, isSpace c = true) :
    Node.read? (chars l id value ++ space) = some (node l value) := by
  rw [Node.read?, (Lexes.append_spaces (lexes_chars l value) hspace).read?]
  exact Node.ofTokens?_tokens (node l value)

/-! ### The canonical form -/

/-- The members in the order in which the canonical form writes them. -/
def byWritten (members : List (String × Json)) : List (String × Json) :=
  (Members.ofList (members.map fun m => (quote m.1, m))).map Prod.snd

theorem quote_injective : Function.Injective quote := by
  intro s t h
  have hs := (lexes_quote s).read?
  rw [h, (lexes_quote t).read?] at hs
  simpa using hs.symm

theorem keys_written (members : List (String × Json)) :
    Members.keys (members.map fun m => (quote m.1, m)) = (Members.keys members).map quote := by
  rw [Members.keys, Members.keys, List.map_map, List.map_map]
  rfl

theorem byWritten_perm {members : List (String × Json)} (h : (Members.keys members).Nodup) :
    (byWritten members).Perm members := by
  have hkeys : (Members.keys (members.map fun m => (quote m.1, m))).Nodup := by
    rw [keys_written]
    exact h.map quote_injective
  have hperm := (Members.ofList_perm hkeys).map Prod.snd
  rwa [List.map_map, Function.comp_def, List.map_id'] at hperm

theorem mem_of_mem_byWritten {m : String × Json} {members : List (String × Json)}
    (h : m ∈ byWritten members) : m ∈ members := by
  obtain ⟨p, hp, rfl⟩ := List.mem_map.1 h
  obtain ⟨m, hm, rfl⟩ := List.mem_map.1 (Members.mem_of_mem_ofList hp)
  exact hm

/-- Whatever stands at the written keys is put in the order of `byWritten`. -/
theorem ofList_written {β : Type} (g : String × Json → β) (members : List (String × Json)) :
    Members.ofList (members.map fun m => (quote m.1, g m)) =
      (byWritten members).map fun m => (quote m.1, g m) := by
  have hmap := Members.ofList_map (fun _ m => g m) (members.map fun m => (quote m.1, m))
  rw [List.map_map] at hmap
  refine hmap.trans ?_
  rw [byWritten, List.map_map]
  refine List.map_congr_left fun p hp => ?_
  obtain ⟨m, _, rfl⟩ := List.mem_map.1 (Members.mem_of_mem_ofList hp)
  rfl

theorem byWritten_map (f : Json → Json) (members : List (String × Json)) :
    byWritten (members.map fun m => (m.1, f m.2)) =
      (byWritten members).map fun m => (m.1, f m.2) := by
  have hwritten := ofList_written (fun m => (m.1, f m.2)) members
  rw [byWritten, List.map_map]
  refine (congrArg (List.map Prod.snd) hwritten).trans ?_
  rw [List.map_map]
  rfl

/-- The canonical form is the rearranged value written as it stands. -/
theorem chars_ofList (l : Layout) (value : Json) :
    chars l Members.ofList value = chars l id (rearrange byWritten value) := by
  induction value using Json.induction with
  | null => rfl
  | bool b => cases b <;> rfl
  | num n => rfl
  | str s => rfl
  | arr items ih =>
    rw [chars_arr, rearrange_arr, chars_arr, List.map_map]
    exact congrArg (bracket '[' ']') (List.map_congr_left ih)
  | obj members ih =>
    have hmembers : (byWritten members).map (fun m => (quote m.1, chars l Members.ofList m.2)) =
        (byWritten members).map fun m => (quote m.1, chars l id (rearrange byWritten m.2)) :=
      List.map_congr_left fun m hm => by rw [ih m (mem_of_mem_byWritten hm)]
    rw [chars_obj, rearrange_obj, chars_obj, id, byWritten_map, List.map_map, List.map_map,
      ofList_written fun m => chars l Members.ofList m.2, hmembers, List.map_map]
    rfl

end Json

end TestJob
