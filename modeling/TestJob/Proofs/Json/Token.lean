import Mathlib
import TestJob.Json.Token
import TestJob.Json.Writer

/-!
The automaton on written texts. `Lexes cs tokens` says that the characters are read as the tokens
wherever they stand between two others; it is closed under joining with a bracket, a comma, a colon
or white space in the middle, and it holds of written texts (`lexes_quote`) and of words
(`lexes_word`). The digits of a whole number are read as that number (`ofChars?_toDigits`).
-/

namespace TestJob.Json

/-! ### Runs -/

section Runs

variable {σ α : Type} {f : σ → α → Option σ} {s t : σ}

theorem foldlM_cons_of_eq {x : α} (h : f s x = some t) (xs : List α) :
    (x :: xs).foldlM f s = xs.foldlM f t := by
  rw [List.foldlM_cons, h]
  rfl

theorem foldlM_append_of_eq {xs : List α} (h : xs.foldlM f s = some t) (ys : List α) :
    (xs ++ ys).foldlM f s = ys.foldlM f t := by
  rw [List.foldlM_append, h]
  rfl

end Runs

namespace Token

/-! ### One step -/

section Steps

variable (tokens : List Token) (c : Char)

theorem step_word (word : List Char) :
    step ⟨tokens, .word word⟩ c =
      if endsWord c then (ofWord? word.reverse).map fun token => begin (token :: tokens) c
      else some ⟨tokens, .word (c :: word)⟩ :=
  rfl

theorem step_text (scan : Scan) :
    step ⟨tokens, .text scan⟩ c =
      if c = '"' then some ⟨scan.close :: tokens, .between⟩
      else if c = '\\' then some ⟨tokens, .escape scan⟩
      else if c.toNat < 0x20 then none
      else some ⟨tokens, .text (scan.push c)⟩ :=
  rfl

theorem step_unit {digit : Nat} (hdigit : hexDigit? c = some digit) (scan : Scan)
    (left value : Nat) :
    step ⟨tokens, .unit scan (left + 1) value⟩ c =
      some ⟨tokens, .unit scan left (value * 16 + digit)⟩ := by
  rw [step, hdigit]
  rfl

theorem step_lastUnit {digit : Nat} (hdigit : hexDigit? c = some digit) (scan : Scan)
    (value : Nat) :
    step ⟨tokens, .unit scan 0 value⟩ c =
      some ⟨tokens, .text (scan.pushUnit (value * 16 + digit))⟩ := by
  rw [step, hdigit]
  rfl

end Steps

/-! ### Rows of tokens -/

/-- The automaton has read the tokens, last first: they are all it gives if the text is over, and
it begins anew after them at a character that ends a word. -/
structure Settled (l : Lexer) (tokens : List Token) : Prop where
  finish : l.finish? = some tokens.reverse
  next : ∀ c, endsWord c = true → step l c = some (begin tokens c)

/-- The characters are read as the tokens, whatever has been read before. -/
def Lexes (cs : List Char) (tokens : List Token) : Prop :=
  ∀ read, ∃ l, cs.foldlM step ⟨read, .between⟩ = some l ∧ Settled l (tokens.reverse ++ read)

theorem settled_between (tokens : List Token) : Settled ⟨tokens, .between⟩ tokens :=
  ⟨rfl, fun _ _ => rfl⟩

theorem settled_word {tokens : List Token} {token : Token} {word : List Char}
    (h : ofWord? word.reverse = some token) : Settled ⟨tokens, .word word⟩ (token :: tokens) := by
  refine ⟨?_, fun c hc => ?_⟩
  · exact congrArg (Option.map fun token => (token :: tokens).reverse) h
  · rw [step_word, if_pos hc, h]
    rfl

theorem ofPunctuation?_of_isSpace {c : Char} (h : isSpace c = true) : ofPunctuation? c = none := by
  simp only [isSpace, Bool.or_eq_true, decide_eq_true_eq] at h
  rcases h with ((rfl | rfl) | rfl) | rfl <;> rfl

namespace Lexes

theorem nil : Lexes [] [] := fun read => ⟨_, rfl, settled_between read⟩

/-- The tokens of a whole text. -/
theorem read? {cs : List Char} {tokens : List Token} (h : Lexes cs tokens) :
    Token.read? cs = some tokens := by
  obtain ⟨l, hfold, hsettled⟩ := h []
  rw [Token.read?, hfold, Option.bind_eq_bind, Option.bind_some, hsettled.finish, List.append_nil,
    List.reverse_reverse]

variable {cs rest : List Char} {tokens others : List Token} {c : Char}

/-- Two rows of tokens with a character between that begins nothing and ends a word. -/
theorem join {between : List Token} (hcs : Lexes cs tokens) (hc : endsWord c = true)
    (hbegin : ∀ read, begin read c = ⟨between ++ read, .between⟩) (hrest : Lexes rest others) :
    Lexes (cs ++ c :: rest) (tokens ++ between.reverse ++ others) := by
  intro read
  obtain ⟨l, hfold, hsettled⟩ := hcs read
  obtain ⟨l', hfold', hsettled'⟩ := hrest (between ++ (tokens.reverse ++ read))
  refine ⟨l', ?_, ?_⟩
  · rw [foldlM_append_of_eq hfold, foldlM_cons_of_eq (hsettled.next c hc), hbegin]
    exact hfold'
  · simpa using hsettled'

theorem append_punctuation {token : Token} (hcs : Lexes cs tokens)
    (hc : ofPunctuation? c = some token) (hrest : Lexes rest others) :
    Lexes (cs ++ c :: rest) (tokens ++ token :: others) := by
  have hspace : isSpace c = false := by
    cases h : isSpace c with
    | false => rfl
    | true => exact absurd (hc.symm.trans (ofPunctuation?_of_isSpace h)) (Option.some_ne_none _)
  have hends : endsWord c = true := by
    rw [endsWord, hspace, hc]
    rfl
  have hbegin : ∀ read, begin read c = ⟨[token] ++ read, .between⟩ := by
    intro read
    rw [begin, hspace, hc]
    rfl
  simpa using hcs.join hends hbegin hrest

theorem append_space (hcs : Lexes cs tokens) (hc : isSpace c = true) (hrest : Lexes rest others) :
    Lexes (cs ++ c :: rest) (tokens ++ others) := by
  have hends : endsWord c = true := by
    rw [endsWord, hc]
    rfl
  have hbegin : ∀ read, begin read c = ⟨[] ++ read, .between⟩ := by
    intro read
    rw [begin, if_pos hc]
    rfl
  simpa using hcs.join hends hbegin hrest

theorem append_spaces :
    ∀ {space cs : List Char}, Lexes cs tokens → (∀ c ∈ space, isSpace c = true) →
      Lexes (cs ++ space) tokens
  | [], cs, hcs, _ => by rwa [List.append_nil]
  | c :: space, cs, hcs, h => by
    obtain ⟨hc, hspace⟩ := List.forall_mem_cons.1 h
    have hnext : Lexes (cs ++ [c]) tokens := by simpa using hcs.append_space hc nil
    rw [List.append_cons]
    exact append_spaces hnext hspace

/-- Parts with a comma between each two. -/
theorem separated {α : Type} {part : α → List Char} {tokensOf : α → List Token} :
    ∀ {xs : List α}, (∀ x ∈ xs, Lexes (part x) (tokensOf x)) →
      Lexes (List.intercalate [','] (xs.map part)) (List.intercalate [comma] (xs.map tokensOf))
  | [], _ => nil
  | [x], h => by
    simpa using h x List.mem_cons_self
  | x :: y :: rest, h => by
    obtain ⟨hx, hrest⟩ := List.forall_mem_cons.1 h
    simp only [List.map_cons, List.intercalate_cons_cons, List.append_assoc, List.singleton_append]
    exact hx.append_punctuation rfl (separated hrest)

/-- Parts in brackets. -/
theorem bracket {α : Type} {first last : Char} {opening closing : Token} {part : α → List Char}
    {tokensOf : α → List Token} {xs : List α} (hfirst : ofPunctuation? first = some opening)
    (hlast : ofPunctuation? last = some closing) (h : ∀ x ∈ xs, Lexes (part x) (tokensOf x)) :
    Lexes (Json.bracket first last (xs.map part))
      (opening :: List.intercalate [comma] (xs.map tokensOf) ++ [closing]) :=
  nil.append_punctuation hfirst ((separated h).append_punctuation hlast nil)

end Lexes

/-! ### Texts -/

theorem hexDigit?_digitChar : ∀ d < 16, hexDigit? (Nat.digitChar d) = some d := by decide

/-- What is written for a character is read as the character. -/
theorem foldlM_escape (tokens : List Token) (read : List Char) (c : Char) :
    (escape c).foldlM step ⟨tokens, .text ⟨read, false, none⟩⟩ =
      some ⟨tokens, .text ⟨c :: read, false, none⟩⟩ := by
  rw [escape.eq_def]
  split
  case h_8 hquote hbackslash _ _ _ _ _ =>
    split
    · have hhigh := hexDigit?_digitChar (c.toNat / 16) (by omega)
      have hrest := hexDigit?_digitChar (c.toNat % 16) (by omega)
      have hunit : (Scan.mk read false none).pushUnit (c.toNat / 16 * 16 + c.toNat % 16) =
          ⟨c :: read, false, none⟩ := by
        rw [Nat.div_add_mod' c.toNat 16, Scan.pushUnit, if_neg (by omega), if_neg (by omega),
          Char.ofNat_toNat]
        rfl
      have hzeros : ['\\', 'u', '0', '0'].foldlM step ⟨tokens, .text ⟨read, false, none⟩⟩ =
          some ⟨tokens, .unit ⟨read, false, none⟩ 1 0⟩ := rfl
      refine (foldlM_append_of_eq hzeros _).trans ?_
      rw [foldlM_cons_of_eq (step_unit _ _ hhigh _ _ _),
        foldlM_cons_of_eq (step_lastUnit _ _ hrest _ _), Nat.zero_mul, Nat.zero_add, hunit]
      rfl
    · next hlow =>
      rw [List.foldlM_cons, step_text, if_neg hquote, if_neg hbackslash, if_neg hlow]
      rfl
  all_goals rfl

theorem foldlM_flatMap_escape (tokens : List Token) :
    ∀ cs read : List Char,
      (cs.flatMap escape).foldlM step ⟨tokens, .text ⟨read, false, none⟩⟩ =
        some ⟨tokens, .text ⟨cs.reverse ++ read, false, none⟩⟩
  | [], read => rfl
  | c :: rest, read => by
    rw [List.flatMap_cons, foldlM_append_of_eq (foldlM_escape tokens read c),
      foldlM_flatMap_escape, List.reverse_cons, List.append_assoc, List.singleton_append]

/-- A written text is one token. -/
theorem lexes_quote (s : String) : Lexes (quote s) [text (some s)] := by
  intro read
  refine ⟨_, ?_, settled_between _⟩
  have hopen : step ⟨read, .between⟩ '"' = some ⟨read, .text ⟨[], false, none⟩⟩ := rfl
  rw [quote, List.cons_append, foldlM_cons_of_eq hopen,
    foldlM_append_of_eq (foldlM_flatMap_escape read s.toList []), List.append_nil]
  have hclose : (Scan.mk s.toList.reverse false none).close = text (some s) := by
    rw [Scan.close, List.reverse_reverse, String.ofList_toList]
    rfl
  rw [← hclose]
  rfl

/-! ### Words -/

theorem foldlM_word (tokens : List Token) :
    ∀ {cs : List Char} (word : List Char), (∀ c ∈ cs, endsWord c = false) →
      cs.foldlM step ⟨tokens, .word word⟩ = some ⟨tokens, .word (cs.reverse ++ word)⟩
  | [], word, _ => rfl
  | c :: rest, word, h => by
    obtain ⟨hc, hrest⟩ := List.forall_mem_cons.1 h
    have hstep : step ⟨tokens, .word word⟩ c = some ⟨tokens, .word (c :: word)⟩ := by
      rw [step_word, hc]
      rfl
    rw [foldlM_cons_of_eq hstep, foldlM_word tokens (c :: word) hrest, List.reverse_cons,
      List.append_assoc, List.singleton_append]

theorem begin_word {c : Char} (hc : endsWord c = false) (tokens : List Token) :
    begin tokens c = ⟨tokens, .word [c]⟩ := by
  simp only [endsWord, Bool.or_eq_false_iff, Option.isSome_eq_false_iff, Option.isNone_iff_eq_none,
    decide_eq_false_iff_not] at hc
  rw [begin, hc.1.1, hc.1.2]
  simp [hc.2]

/-- A row of characters that a token has for its word is read as the token. -/
theorem lexes_word {cs : List Char} {token : Token} (hcs : cs ≠ [])
    (hword : ∀ c ∈ cs, endsWord c = false) (htoken : ofWord? cs = some token) :
    Lexes cs [token] := by
  intro read
  obtain ⟨c, rest, rfl⟩ := List.exists_cons_of_ne_nil hcs
  obtain ⟨hc, hrest⟩ := List.forall_mem_cons.1 hword
  refine ⟨⟨read, .word (rest.reverse ++ [c])⟩, ?_, settled_word ?_⟩
  · have hstep : step ⟨read, .between⟩ c = some ⟨read, .word [c]⟩ :=
      congrArg some (begin_word hc read)
    rw [foldlM_cons_of_eq hstep, foldlM_word read [c] hrest]
  · rwa [← List.reverse_cons, List.reverse_reverse]

/-! ### Digits -/

theorem mem_of_endsWord {c : Char} (h : endsWord c = true) :
    c ∈ [' ', '\n', '\t', '\r', '[', ']', '{', '}', ':', ',', '"'] := by
  rw [endsWord, isSpace, ofPunctuation?.eq_def] at h
  split at h
  case h_7 =>
    simp only [Option.isSome_none, Bool.or_false, Bool.or_eq_true, decide_eq_true_eq] at h
    rcases h with (((rfl | rfl) | rfl) | rfl) | rfl <;> decide
  all_goals decide

theorem endsWord_of_isDigit {c : Char} (h : c.isDigit = true) : endsWord c = false := by
  have hnone : ∀ d ∈ [' ', '\n', '\t', '\r', '[', ']', '{', '}', ':', ',', '"'],
      d.isDigit = false := by
    intro d hd
    fin_cases hd <;> rfl
  cases hc : endsWord c with
  | false => rfl
  | true => exact absurd h (Bool.eq_false_iff.1 (hnone c (mem_of_endsWord hc)))

theorem digits?_toDigits (n : Nat) : Literal.digits? (Nat.toDigits 10 n) =
    some (Nat.toDigits 10 n, []) := by
  have hdigits : ∀ c ∈ Nat.toDigits 10 n, c.isDigit = true := fun c hc =>
    Nat.isDigit_of_mem_toDigits (by decide) (by decide) hc
  rw [Literal.digits?, List.takeWhile_eq_self_iff.2 hdigits, List.dropWhile_eq_nil_iff.2 hdigits,
    if_neg (by simp)]

/-- Only zero begins with the digit zero. -/
theorem eq_zero_of_head?_toDigits (n : Nat) (h : (Nat.toDigits 10 n).head? = some '0') : n = 0 := by
  induction n using Nat.strong_induction_on with
  | _ n ih =>
    rw [Nat.toDigits_eq_if (by decide)] at h
    split at h
    · simp at h
      exact h
    · next hge =>
      rw [List.head?_append_of_ne_nil _ Nat.toDigits_ne_nil] at h
      have hzero := ih (n / 10) (by omega) h
      omega

theorem ofDigits_toDigits (n : Nat) : Decimal.ofDigits (Nat.toDigits 10 n) = n :=
  Nat.ofDigitChars_ten_toDigits

/-- The digits of a number, with or without a minus, are read as that number. -/
theorem ofChars?_toDigits (n : Nat) (negative : Bool) :
    Literal.ofChars? ((if negative then ['-'] else []) ++ Nat.toDigits 10 n) =
      some ⟨⟨negative, n, 0⟩, true⟩ := by
  have hlength : ¬((Nat.toDigits 10 n).head? = some '0' ∧ (Nat.toDigits 10 n).length ≠ 1) := by
    rintro ⟨hhead, hlength⟩
    rw [eq_zero_of_head?_toDigits n hhead] at hlength
    exact hlength rfl
  cases negative with
  | true =>
    rw [if_pos rfl, List.singleton_append, Literal.ofChars?, digits?_toDigits]
    dsimp only [Literal.fraction?, Literal.exponent?]
    rw [if_neg hlength, List.append_nil, ofDigits_toDigits]
    rfl
  | false =>
    rw [if_neg Bool.false_ne_true, List.nil_append, Literal.ofChars?, digits?_toDigits]
    · dsimp only [Literal.fraction?, Literal.exponent?]
      rw [if_neg hlength, List.append_nil, ofDigits_toDigits]
      rfl
    · intro rest heq
      have hminus : '-' ∈ Nat.toDigits 10 n := heq ▸ List.mem_cons_self
      exact absurd (Nat.isDigit_of_mem_toDigits (by decide) (by decide) hminus) (by decide)

end Token

end TestJob.Json
