import Mathlib
import TestJob.Json.Node

/-!
The tokens of a tree, and the tree back from them. Whatever containers are open, the tokens of a
node take the builder to where that node has been delivered to the innermost of them
(`foldlM_tokens`); so a row of tokens written down from a tree is read as that tree.
-/

namespace TestJob.Json.Node

/-- A property that every array has if its items have it, and every object if its members do. -/
@[elab_as_elim]
theorem induction {motive : Node → Prop} (null : motive .null) (bool : ∀ b, motive (.bool b))
    (number : ∀ l, motive (.number l)) (text : ∀ t, motive (.text t))
    (array : ∀ items, (∀ item ∈ items, motive item) → motive (.array items))
    (object : ∀ members, (∀ m ∈ members, motive m.2) → motive (.object members)) (node : Node) :
    motive node :=
  @Node.rec motive (fun items => ∀ item ∈ items, motive item)
    (fun members => ∀ m ∈ members, motive m.2) (fun m => motive m.2) null bool number text array
    object
    (fun _ h => absurd h List.not_mem_nil)
    (fun _ _ hfirst hrest => List.forall_mem_cons.2 ⟨hfirst, hrest⟩)
    (fun _ h => absurd h List.not_mem_nil)
    (fun _ _ hfirst hrest => List.forall_mem_cons.2 ⟨hfirst, hrest⟩)
    (fun _ _ h => h) node

mutual

/-- The tokens of a tree. -/
def tokens : Node → List Token
  | .null => [.null]
  | .bool value => [.bool value]
  | .number literal => [.number literal]
  | .text value => [.text value]
  | .array items => .beginArray :: List.intercalate [.comma] (itemTokens items) ++ [.endArray]
  | .object members =>
    .beginObject :: List.intercalate [.comma] (memberTokens members) ++ [.endObject]

/-- The tokens of each item. -/
def itemTokens : List Node → List (List Token)
  | [] => []
  | item :: rest => tokens item :: itemTokens rest

/-- The tokens of each member: its key, a colon, its value. -/
def memberTokens : List (Option String × Node) → List (List Token)
  | [] => []
  | (key, node) :: rest => (.text key :: .colon :: tokens node) :: memberTokens rest

end

theorem itemTokens_eq : ∀ items : List Node, itemTokens items = items.map tokens
  | [] => rfl
  | item :: rest => by rw [itemTokens, itemTokens_eq, List.map_cons]

theorem memberTokens_eq :
    ∀ members : List (Option String × Node),
      memberTokens members = members.map fun m => .text m.1 :: .colon :: tokens m.2
  | [] => rfl
  | (key, node) :: rest => by rw [memberTokens, memberTokens_eq, List.map_cons]

/-! ### Tokens to trees -/

/-- Parts with a comma between each two, where every part takes the builder from `before` to
`after` with one thing more, and a comma takes it back. -/
theorem foldlM_separated {α : Type} (part : α → List Token) {before after : List α → Builder}
    (hcomma : ∀ done, step (after done) .comma = some (before done)) :
    ∀ {rest : List α} {first : α} {b : Builder} {done : List α},
      (part first).foldlM step b = some (after (first :: done)) →
      (∀ x ∈ rest, ∀ done, (part x).foldlM step (before done) = some (after (x :: done))) →
      (List.intercalate [.comma] ((first :: rest).map part)).foldlM step b =
        some (after ((first :: rest).reverse ++ done))
  | [], first, b, done, hfirst, _ => by
    rw [List.map_singleton, List.intercalate_singleton, hfirst]
    rfl
  | second :: rest, first, b, done, hfirst, hrest => by
    obtain ⟨hsecond, hrest⟩ := List.forall_mem_cons.1 hrest
    have hothers := foldlM_separated part hcomma (hsecond (first :: done)) hrest
    rw [List.map_cons, List.map_cons, List.intercalate_cons_cons, ← List.map_cons (f := part),
      List.append_assoc, List.foldlM_append, hfirst, List.reverse_cons, List.append_assoc]
    refine Eq.trans ?_ hothers
    rw [List.singleton_append, Option.bind_eq_bind, Option.bind_some, List.foldlM_cons, hcomma]
    rfl

theorem foldlM_enclosed {first last : Token} {inner : List Token} {b begun done after : Builder}
    (hfirst : step b first = some begun) (hinner : inner.foldlM step begun = some done)
    (hlast : step done last = some after) :
    (first :: inner ++ [last]).foldlM step b = some after := by
  rw [List.cons_append, List.foldlM_cons, hfirst, Option.bind_eq_bind, Option.bind_some,
    List.foldlM_append, hinner, Option.bind_eq_bind, Option.bind_some, List.foldlM_cons, hlast]
  rfl

/-- No value begins with the bracket that ends an array. -/
theorem foldlM_arrayBegun (outer : List Frame) (node : Node) :
    (tokens node).foldlM step (.arrayBegun outer) =
      (tokens node).foldlM step (.value (.array [] :: outer)) := by
  cases node <;> rfl

/-- The tokens of a node deliver it to the innermost container that is open. -/
theorem foldlM_tokens (node : Node) :
    ∀ outer, (tokens node).foldlM step (.value outer) = some (deliver outer node) := by
  induction node using Node.induction with
  | null => exact fun _ => rfl
  | bool value => exact fun _ => rfl
  | number literal => exact fun _ => rfl
  | text value => exact fun _ => rfl
  | array items ih =>
    intro outer
    rw [tokens, itemTokens_eq]
    cases items with
    | nil => rfl
    | cons first rest =>
      obtain ⟨hfirst, hrest⟩ := List.forall_mem_cons.1 ih
      have hcomma : ∀ done,
          step (.afterItem outer done) .comma = some (.value (.array done :: outer)) :=
        fun _ => rfl
      have hitems : (List.intercalate [.comma] ((first :: rest).map tokens)).foldlM step
          (.arrayBegun outer) = some (.afterItem outer ((first :: rest).reverse ++ [])) :=
        foldlM_separated tokens hcomma ((foldlM_arrayBegun outer first).trans (hfirst _))
          fun item hitem done => hrest item hitem (.array done :: outer)
      rw [List.append_nil] at hitems
      refine foldlM_enclosed rfl hitems ?_
      rw [step, List.reverse_reverse]
  | object members ih =>
    intro outer
    rw [tokens, memberTokens_eq]
    cases members with
    | nil => rfl
    | cons first rest =>
      obtain ⟨hfirst, hrest⟩ := List.forall_mem_cons.1 ih
      have hcomma : ∀ done, step (.afterMember outer done) .comma = some (.key outer done) :=
        fun _ => rfl
      have hmembers : (List.intercalate [.comma] ((first :: rest).map fun m =>
          .text m.1 :: .colon :: tokens m.2)).foldlM step (.objectBegun outer) =
            some (.afterMember outer ((first :: rest).reverse ++ [])) :=
        foldlM_separated _ hcomma (hfirst (.object [] first.1 :: outer))
          fun m hm done => hrest m hm (.object done m.1 :: outer)
      rw [List.append_nil] at hmembers
      refine foldlM_enclosed rfl hmembers ?_
      rw [step, List.reverse_reverse]

/-- The tokens of a tree are read as the tree. -/
theorem ofTokens?_tokens (node : Node) : ofTokens? (tokens node) = some node := by
  rw [ofTokens?, foldlM_tokens]
  rfl

end TestJob.Json.Node
