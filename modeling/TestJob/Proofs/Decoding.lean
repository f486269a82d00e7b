import Mathlib
import TestJob.Proofs.Text

/-!
Decoding UTF-8. The bytes fall into one chunk for each piece that is read (`exists_chunks`): the
bytes of the character, or up to three that are ill-formed together. So a text is decoded from its
own bytes and from no others (`decode?_eq_some_iff`), the text for display is as long as the bytes
where they are those of a text and up to three times as long where they are not (`lossy_encode`,
`length_lossy_bounds`), and bytes around a character of ASCII are decoded apart
(`pieces_append_ascii`).
-/

namespace TestJob.Utf8

open String (utf8EncodeChar)

/-! ### Leading bytes -/

/-- The sequence that a leading byte opens. No character takes more bytes than it has to, none is
half of a surrogate pair, and none lies beyond the last one; so some bytes limit the next. -/
inductive Begins (b : UInt8) : Pending → Prop
  | two {code : Nat} (least : 2 ≤ code) (most : code < 0x20) (eq : b.toNat = 0xC0 + code) :
      Begins b ⟨0x80, 0xBF, 0, code⟩
  | three {low high : UInt8} {code : Nat} (most : code < 0x10) (eq : b.toNat = 0xE0 + code)
      (low_eq : low.toNat = if code = 0 then 0xA0 else 0x80)
      (high_eq : high.toNat = if code = 0xD then 0x9F else 0xBF) : Begins b ⟨low, high, 1, code⟩
  | four {low high : UInt8} {code : Nat} (most : code < 5) (eq : b.toNat = 0xF0 + code)
      (low_eq : low.toNat = if code = 0 then 0x90 else 0x80)
      (high_eq : high.toNat = if code = 4 then 0x8F else 0xBF) : Begins b ⟨low, high, 2, code⟩

/-- A byte is a character of ASCII, or begins nothing, or opens a sequence. -/
theorem begin_cases (read : List (Option Char)) (b : UInt8) :
    (b.toNat < 0x80 ∧ begin read b = ⟨some (Char.ofNat b.toNat) :: read, none⟩) ∨
      ((0x80 ≤ b.toNat ∧ b.toNat < 0xC2 ∨ 0xF5 ≤ b.toNat) ∧
        begin read b = ⟨none :: read, none⟩) ∨
      ∃ p, Begins b p ∧ begin read b = ⟨read, some p⟩ := by
  have opens : ∀ p, Begins b p → ∃ q, Begins b q ∧ (⟨read, some p⟩ : Decoder) = ⟨read, some q⟩ :=
    fun p hp => ⟨p, hp, rfl⟩
  generalize hbegin : begin read b = d
  rw [begin] at hbegin
  simp only [UInt8.lt_iff_toNat_lt, ← UInt8.toNat_inj, UInt8.reduceToNat] at hbegin
  split_ifs at hbegin with ascii low two first surrogate three first' four last <;> subst hbegin
  · exact .inl ⟨ascii, rfl⟩
  · exact .inr (.inl ⟨.inl ⟨by omega, low⟩, rfl⟩)
  · exact .inr (.inr (opens _ (.two (by omega) (by omega) (by omega))))
  · exact .inr (.inr (opens _ (.three (by decide) first rfl rfl)))
  · exact .inr (.inr (opens _ (.three (by decide) surrogate rfl rfl)))
  · refine .inr (.inr (opens _ (.three (by omega) (by omega) ?_ ?_)))
    · rw [if_neg (by omega)]
      rfl
    · rw [if_neg (by omega)]
      rfl
  · exact .inr (.inr (opens _ (.four (by decide) first' rfl rfl)))
  · refine .inr (.inr (opens _ (.four (by omega) (by omega) ?_ ?_)))
    · rw [if_neg (by omega)]
      rfl
    · rw [if_neg (by omega)]
      rfl
  · exact .inr (.inr (opens _ (.four (by decide) last rfl rfl)))
  · exact .inr (.inl ⟨.inr (by omega), rfl⟩)

/-! ### Open sequences -/

/-- Whether the bytes that an open sequence takes make a character of it: those read so far and the
ones that follow are the bytes of the character whose code they spell. -/
def Completes : Nat → UInt8 → UInt8 → Nat → Bytes → Prop
  | 0, low, high, code, opened => ∀ b : UInt8, low ≤ b → b ≤ high →
    utf8EncodeChar (Char.ofNat (code * 64 + (b.toNat - 0x80))) = opened ++ [b]
  | more + 1, low, high, code, opened => ∀ b : UInt8, low ≤ b → b ≤ high →
    Completes more 0x80 0xBF (code * 64 + (b.toNat - 0x80)) (opened ++ [b])

/-- The bytes of a character as numbers. -/
def numbersOf (n : Nat) : List Nat :=
  if n < 0x80 then [n]
  else if n < 0x800 then [0xC0 + n / 64, 0x80 + n % 64]
  else if n < 0x10000 then [0xE0 + n / 4096, 0x80 + n / 64 % 64, 0x80 + n % 64]
  else [0xF0 + n / 262144, 0x80 + n / 4096 % 64, 0x80 + n / 64 % 64, 0x80 + n % 64]

theorem toNat_encodeChar (c : Char) :
    (utf8EncodeChar c).map UInt8.toNat = numbersOf c.val.toNat := by
  have hc := toNat_le c
  rw [numbersOf]
  unfold utf8EncodeChar
  dsimp only
  generalize c.val.toNat = n at *
  split_ifs <;> simp only [List.map_cons, List.map_nil, UInt8.toNat_ofNat', Nat.reducePow,
    List.cons.injEq, and_true] <;> omega

/-- Bytes are those of a character when they are as numbers. -/
theorem encodeChar_ofNat {n : Nat} {bytes : Bytes} (h : n.isValidChar)
    (hbytes : bytes.map UInt8.toNat = numbersOf n) : utf8EncodeChar (Char.ofNat n) = bytes := by
  have hn : (Char.ofNat n).val.toNat = n := by
    have htoNat := Char.toNat_ofNat n
    rwa [if_pos h] at htoNat
  refine List.map_injective_iff.2 (fun _ _ => UInt8.toNat_inj.1) ?_
  rw [toNat_encodeChar, hn, hbytes]

theorem cases_of_eq_ite {n code special first other : Nat}
    (h : n = if code = special then first else other) :
    code = special ∧ n = first ∨ code ≠ special ∧ n = other := by
  split_ifs at h with hcode
  · exact .inl ⟨hcode, h⟩
  · exact .inr ⟨hcode, h⟩

/-- A sequence that is opened makes a character, once it has the bytes that it takes. -/
theorem Begins.completes {b : UInt8} {p : Pending} (h : Begins b p) :
    Completes p.more p.low p.high p.code [b] := by
  cases h with
  | two least most eq =>
    dsimp only
    intro b₁ hlow₁ hhigh₁
    simp only [UInt8.le_iff_toNat_le, UInt8.reduceToNat] at hlow₁ hhigh₁
    refine encodeChar_ofNat (.inl (by omega)) ?_
    rw [numbersOf, if_neg (by omega), if_pos (by omega)]
    simp only [List.cons_append, List.nil_append, List.map_cons, List.map_nil, List.cons.injEq,
      and_true]
    omega
  | @three low high code most eq low_eq high_eq =>
    dsimp only
    intro b₁ hlow₁ hhigh₁ b₂ hlow₂ hhigh₂
    simp only [UInt8.le_iff_toNat_le, UInt8.reduceToNat] at hlow₁ hhigh₁ hlow₂ hhigh₂
    have hlow := cases_of_eq_ite low_eq
    have hhigh := cases_of_eq_ite high_eq
    refine encodeChar_ofNat (by rw [Nat.isValidChar]; omega) ?_
    rw [numbersOf, if_neg (by omega), if_neg (by omega), if_pos (by omega)]
    simp only [List.cons_append, List.nil_append, List.map_cons, List.map_nil, List.cons.injEq,
      and_true]
    omega
  | @four low high code most eq low_eq high_eq =>
    dsimp only
    intro b₁ hlow₁ hhigh₁ b₂ hlow₂ hhigh₂ b₃ hlow₃ hhigh₃
    simp only [UInt8.le_iff_toNat_le, UInt8.reduceToNat] at hlow₁ hhigh₁ hlow₂ hhigh₂ hlow₃ hhigh₃
    have hlow := cases_of_eq_ite low_eq
    have hhigh := cases_of_eq_ite high_eq
    refine encodeChar_ofNat (.inr (by omega)) ?_
    rw [numbersOf, if_neg (by omega), if_neg (by omega), if_neg (by omega)]
    simp only [List.cons_append, List.nil_append, List.map_cons, List.map_nil, List.cons.injEq,
      and_true]
    omega

theorem Begins.low_le {b : UInt8} {p : Pending} (h : Begins b p) : 0x80 ≤ p.low.toNat := by
  cases h with
  | two least most eq => exact le_refl 0x80
  | three most eq low_eq high_eq =>
    have hlow := cases_of_eq_ite low_eq
    dsimp only
    omega
  | four most eq low_eq high_eq =>
    have hlow := cases_of_eq_ite low_eq
    dsimp only
    omega

theorem Begins.more_le {b : UInt8} {p : Pending} (h : Begins b p) : p.more ≤ 2 := by
  cases h <;> dsimp only <;> omega

/-! ### Chunks -/

/-- The bytes that a piece is read from: those of the character, or up to three that are none. -/
def Covers (chunk : Bytes) : Option Char → Prop
  | some c => chunk = utf8EncodeChar c
  | none => 1 ≤ chunk.length ∧ chunk.length ≤ 3

/-- The bytes of an open sequence, which takes at least one more. -/
structure Opens (opened : Bytes) (p : Pending) : Prop where
  low_le : 0x80 ≤ p.low.toNat
  length_pos : 1 ≤ opened.length
  length_le : opened.length + p.more ≤ 3
  completes : Completes p.more p.low p.high p.code opened

theorem Begins.opens {b : UInt8} {p : Pending} (h : Begins b p) : Opens [b] p :=
  ⟨h.low_le, le_rfl, Nat.add_le_add_left h.more_le 1, h.completes⟩

/-- The chunks of the bytes that were read, one for each piece and the last first, and the bytes of
the open sequence. -/
structure Fed (bytes : Bytes) (d : Decoder) (chunks : List Bytes) (opened : Bytes) : Prop where
  bytes_eq : bytes = chunks.reverse.flatten ++ opened
  covers : List.Forall₂ Covers chunks d.read
  closed : d.pending = none → opened = []
  opens : ∀ p, d.pending = some p → Opens opened p

section Feeding

variable {bytes opened : Bytes} {chunks : List Bytes} {read : List (Option Char)} {p : Pending}

theorem fed_closed (hbytes : bytes = chunks.reverse.flatten)
    (hcovers : List.Forall₂ Covers chunks read) : Fed bytes ⟨read, none⟩ chunks [] :=
  ⟨by rw [hbytes, List.append_nil], hcovers, fun _ => rfl, fun _ h => by cases h⟩

theorem fed_open (hbytes : bytes = chunks.reverse.flatten ++ opened)
    (hcovers : List.Forall₂ Covers chunks read) (hopens : Opens opened p) :
    Fed bytes ⟨read, some p⟩ chunks opened :=
  ⟨hbytes, hcovers, fun h => (by cases h), fun q h => Option.some.inj h ▸ hopens⟩

theorem flatten_reverse_cons (chunk : Bytes) (chunks : List Bytes) :
    (chunk :: chunks).reverse.flatten = chunks.reverse.flatten ++ chunk := by
  rw [List.reverse_cons, List.flatten_append, List.flatten_singleton]

/-- Between two pieces a byte is a piece, or opens a sequence. -/
theorem fed_begin (hcovers : List.Forall₂ Covers chunks read) (b : UInt8) :
    ∃ chunks' opened, Fed (chunks.reverse.flatten ++ [b]) (begin read b) chunks' opened := by
  have hnone : Covers [b] none := ⟨Nat.le_refl 1, Nat.le_add_left 1 2⟩
  rcases begin_cases read b with ⟨hascii, hbegin⟩ | ⟨_, hbegin⟩ | ⟨p, hbegins, hbegin⟩ <;>
    rw [hbegin]
  · have hchar : utf8EncodeChar (Char.ofNat b.toNat) = [b] :=
      encodeChar_ofNat (.inl (by omega)) (if_pos hascii).symm
    exact ⟨_, _, fed_closed (flatten_reverse_cons _ _).symm (.cons hchar.symm hcovers)⟩
  · exact ⟨_, _, fed_closed (flatten_reverse_cons _ _).symm (.cons hnone hcovers)⟩
  · exact ⟨_, _, fed_open rfl hcovers hbegins.opens⟩

/-- A byte that an open sequence takes ends it as a character, or leaves it open. -/
theorem fed_take (hcovers : List.Forall₂ Covers chunks read) (hopens : Opens opened p) {b : UInt8}
    (hb : p.low ≤ b ∧ b ≤ p.high) :
    ∃ chunks' opened',
      Fed (chunks.reverse.flatten ++ opened ++ [b]) (step ⟨read, some p⟩ b) chunks' opened' := by
  obtain ⟨low, high, more, code⟩ := p
  obtain ⟨_, hpos, hlength, hcompletes⟩ := hopens
  rw [step]
  dsimp only at *
  rw [if_pos hb, List.append_assoc]
  cases more with
  | zero =>
    have hchar := hcompletes b hb.1 hb.2
    exact ⟨_, _, fed_closed (flatten_reverse_cons _ _).symm (.cons hchar.symm hcovers)⟩
  | succ more =>
    refine ⟨_, _, fed_open rfl hcovers ⟨le_refl 0x80, ?_, ?_, hcompletes b hb.1 hb.2⟩⟩
    · rw [List.length_append]
      omega
    · rw [List.length_append, List.length_singleton]
      dsimp only
      omega

theorem Fed.step {d : Decoder} (h : Fed bytes d chunks opened) (b : UInt8) :
    ∃ chunks' opened', Fed (bytes ++ [b]) (step d b) chunks' opened' := by
  obtain ⟨read, pending⟩ := d
  obtain ⟨hbytes, hcovers, hclosed, hopens⟩ := h
  rw [hbytes]
  cases pending with
  | none =>
    rw [hclosed rfl, List.append_nil]
    exact fed_begin hcovers b
  | some p =>
    by_cases hb : p.low ≤ b ∧ b ≤ p.high
    · exact fed_take hcovers (hopens p rfl) hb
    · -- the open sequence is no character, and the byte is read anew
      obtain ⟨_, hpos, hlength, _⟩ := hopens p rfl
      have hother : Utf8.step ⟨read, some p⟩ b = begin (none :: read) b := if_neg hb
      have hnone : Covers opened none := ⟨hpos, by omega⟩
      rw [hother, ← flatten_reverse_cons]
      exact fed_begin (.cons hnone hcovers) b

theorem exists_fed (bytes : Bytes) :
    ∃ chunks opened, Fed bytes (bytes.foldl Utf8.step ⟨[], none⟩) chunks opened := by
  induction bytes using List.reverseRecOn with
  | nil => exact ⟨[], [], fed_closed rfl .nil⟩
  | append_singleton bytes b ih =>
    obtain ⟨chunks, opened, h⟩ := ih
    rw [List.foldl_append]
    exact h.step b

end Feeding

/-- The bytes are put together from one chunk for each piece. -/
theorem exists_chunks (bytes : Bytes) :
    ∃ chunks : List Bytes, bytes = chunks.flatten ∧ List.Forall₂ Covers chunks (pieces bytes) := by
  obtain ⟨chunks, opened, hbytes, hcovers, hclosed, hopens⟩ := exists_fed bytes
  rw [pieces, Decoder.finish]
  cases hpending : (bytes.foldl step ⟨[], none⟩).pending with
  | none =>
    rw [hclosed hpending, List.append_nil] at hbytes
    exact ⟨chunks.reverse, hbytes, List.forall₂_reverse_iff.2 hcovers⟩
  | some p =>
    obtain ⟨_, hpos, hlength, _⟩ := hopens p hpending
    have hnone : Covers opened none := ⟨hpos, by omega⟩
    rw [← flatten_reverse_cons] at hbytes
    exact ⟨_, hbytes, List.forall₂_reverse_iff.2 (.cons hnone hcovers)⟩

/-! ### Lengths -/

/-- The text for display of one piece is no shorter than its bytes, and at most three times as
long. -/
theorem Covers.length_le {chunk : Bytes} {piece : Option Char} (h : Covers chunk piece) :
    chunk.length ≤ (piece.getD '\uFFFD').utf8Size ∧
      (piece.getD '\uFFFD').utf8Size ≤ 3 * chunk.length := by
  cases piece with
  | some c =>
    obtain rfl : chunk = utf8EncodeChar c := h
    rw [String.length_utf8EncodeChar, Option.getD_some]
    omega
  | none =>
    have hsize : ((none : Option Char).getD '\uFFFD').utf8Size = 3 := rfl
    obtain ⟨hpos, hlength⟩ := h
    omega

/-- The text for display is no shorter than the bytes, and at most three times as long. -/
theorem length_lossy_bounds (bytes : Bytes) :
    bytes.length ≤ (lossy bytes).utf8ByteSize ∧
      (lossy bytes).utf8ByteSize ≤ 3 * bytes.length := by
  obtain ⟨chunks, hbytes, hcovers⟩ := exists_chunks bytes
  rw [lossy, String.utf8ByteSize_ofList]
  generalize pieces bytes = read at *
  subst hbytes
  induction hcovers with
  | nil => exact ⟨le_rfl, le_rfl⟩
  | cons hfirst _ ih =>
    have hlength := hfirst.length_le
    rw [List.flatten_cons, List.length_append, List.map_cons, String.utf8Len_cons]
    omega

/-! ### Whole texts -/

section Steps

variable {b low high : UInt8} (read : List (Option Char)) (more code : Nat)

theorem step_more (h : low ≤ b ∧ b ≤ high) :
    step ⟨read, some ⟨low, high, more + 1, code⟩⟩ b =
      ⟨read, some ⟨0x80, 0xBF, more, code * 64 + (b.toNat - 0x80)⟩⟩ :=
  if_pos h

theorem step_last (h : low ≤ b ∧ b ≤ high) :
    step ⟨read, some ⟨low, high, 0, code⟩⟩ b =
      ⟨some (Char.ofNat (code * 64 + (b.toNat - 0x80))) :: read, none⟩ :=
  if_pos h

theorem foldl_ascii {n : Nat} (hb : b.toNat = n) (hn : n < 0x80) :
    [b].foldl step ⟨read, none⟩ = ⟨some (Char.ofNat n) :: read, none⟩ := by
  rcases begin_cases read b with ⟨_, hbegin⟩ | ⟨hother, _⟩ | ⟨p, hbegins, _⟩
  · rw [← hb]
    exact hbegin
  · omega
  · cases hbegins <;> omega

/-- A leading byte opens a sequence. -/
theorem exists_begins (h : 0xC2 ≤ b.toNat) (h' : b.toNat < 0xF5) :
    ∃ p, Begins b p ∧ step ⟨read, none⟩ b = ⟨read, some p⟩ := by
  rcases begin_cases read b with ⟨_, _⟩ | ⟨_, _⟩ | hbegins
  · omega
  · omega
  · exact hbegins

theorem foldl_two {b₁ : UInt8} {n : Nat} (hb : b.toNat = 0xC0 + n / 64)
    (hb₁ : b₁.toNat = 0x80 + n % 64) (hlow : 0x80 ≤ n) (hhigh : n < 0x800) :
    [b, b₁].foldl step ⟨read, none⟩ = ⟨some (Char.ofNat n) :: read, none⟩ := by
  obtain ⟨p, hbegins, hopen⟩ := exists_begins read (b := b) (by omega) (by omega)
  rw [List.foldl_cons, List.foldl_cons, List.foldl_nil, hopen]
  cases hbegins with
  | @two code least most eq =>
    have hcode : code * 64 + (b₁.toNat - 0x80) = n := by omega
    rw [step_last _ _ (by simp only [UInt8.le_iff_toNat_le, UInt8.reduceToNat]; omega), hcode]
  | three => omega
  | four => omega

theorem foldl_three {b₁ b₂ : UInt8} {n : Nat} (hb : b.toNat = 0xE0 + n / 4096)
    (hb₁ : b₁.toNat = 0x80 + n / 64 % 64) (hb₂ : b₂.toNat = 0x80 + n % 64) (hlow : 0x800 ≤ n)
    (hhigh : n < 0x10000) (hsurrogate : n < 0xD800 ∨ 0xDFFF < n) :
    [b, b₁, b₂].foldl step ⟨read, none⟩ = ⟨some (Char.ofNat n) :: read, none⟩ := by
  obtain ⟨p, hbegins, hopen⟩ := exists_begins read (b := b) (by omega) (by omega)
  rw [List.foldl_cons, List.foldl_cons, List.foldl_cons, List.foldl_nil, hopen]
  cases hbegins with
  | two => omega
  | @three low high code most eq low_eq high_eq =>
    have hlow := cases_of_eq_ite low_eq
    have hhigh := cases_of_eq_ite high_eq
    have hcode : (code * 64 + (b₁.toNat - 0x80)) * 64 + (b₂.toNat - 0x80) = n := by omega
    rw [step_more _ _ _ (by simp only [UInt8.le_iff_toNat_le]; omega),
      step_last _ _ (by simp only [UInt8.le_iff_toNat_le, UInt8.reduceToNat]; omega), hcode]
  | four => omega

theorem foldl_four {b₁ b₂ b₃ : UInt8} {n : Nat} (hb : b.toNat = 0xF0 + n / 262144)
    (hb₁ : b₁.toNat = 0x80 + n / 4096 % 64) (hb₂ : b₂.toNat = 0x80 + n / 64 % 64)
    (hb₃ : b₃.toNat = 0x80 + n % 64) (hlow : 0x10000 ≤ n) (hhigh : n < 0x110000) :
    [b, b₁, b₂, b₃].foldl step ⟨read, none⟩ = ⟨some (Char.ofNat n) :: read, none⟩ := by
  obtain ⟨p, hbegins, hopen⟩ := exists_begins read (b := b) (by omega) (by omega)
  rw [List.foldl_cons, List.foldl_cons, List.foldl_cons, List.foldl_cons, List.foldl_nil, hopen]
  cases hbegins with
  | two => omega
  | three => omega
  | @four low high code most eq low_eq high_eq =>
    have hlow := cases_of_eq_ite low_eq
    have hhigh := cases_of_eq_ite high_eq
    have hcode : ((code * 64 + (b₁.toNat - 0x80)) * 64 + (b₂.toNat - 0x80)) * 64 +
        (b₃.toNat - 0x80) = n := by
      omega
    rw [step_more _ _ _ (by simp only [UInt8.le_iff_toNat_le]; omega),
      step_more _ _ _ (by simp only [UInt8.le_iff_toNat_le, UInt8.reduceToNat]; omega),
      step_last _ _ (by simp only [UInt8.le_iff_toNat_le, UInt8.reduceToNat]; omega), hcode]

end Steps

/-- The bytes of a character are read as the character. -/
theorem foldl_encodeChar (read : List (Option Char)) (c : Char) :
    (utf8EncodeChar c).foldl step ⟨read, none⟩ = ⟨some c :: read, none⟩ := by
  have hbytes := toNat_encodeChar c
  have hvalid : c.val.toNat < 0xD800 ∨ 0xDFFF < c.val.toNat ∧ c.val.toNat < 0x110000 := c.valid
  have hchar : Char.ofNat c.val.toNat = c := c.ofNat_toNat
  generalize c.val.toNat = n at *
  rw [numbersOf] at hbytes
  split_ifs at hbytes with hone htwo hthree <;>
    simp only [List.map_eq_cons_iff, List.map_eq_nil_iff] at hbytes
  · obtain ⟨b, _, hencode, hb, rfl⟩ := hbytes
    rw [hencode, foldl_ascii read hb hone, hchar]
  · obtain ⟨b, _, hencode, hb, b₁, _, rfl, hb₁, rfl⟩ := hbytes
    rw [hencode, foldl_two read hb hb₁ (by omega) htwo, hchar]
  · obtain ⟨b, _, hencode, hb, b₁, _, rfl, hb₁, b₂, _, rfl, hb₂, rfl⟩ := hbytes
    rw [hencode, foldl_three read hb hb₁ hb₂ (by omega) hthree (by omega), hchar]
  · obtain ⟨b, _, hencode, hb, b₁, _, rfl, hb₁, b₂, _, rfl, hb₂, b₃, _, rfl, hb₃, rfl⟩ := hbytes
    rw [hencode, foldl_four read hb hb₁ hb₂ hb₃ (by omega) (by omega), hchar]

theorem foldl_flatMap_encodeChar :
    ∀ (cs : List Char) (read : List (Option Char)),
      (cs.flatMap utf8EncodeChar).foldl step ⟨read, none⟩ = ⟨(cs.map some).reverse ++ read, none⟩
  | [], _ => rfl
  | c :: cs, read => by
    rw [List.flatMap_cons, List.foldl_append, foldl_encodeChar, foldl_flatMap_encodeChar cs,
      List.map_cons, List.reverse_cons, List.append_assoc, List.singleton_append]

/-- The pieces of the bytes of a text are its characters. -/
theorem pieces_encode (s : String) : pieces (encode s) = s.toList.map some := by
  rw [pieces, encode, foldl_flatMap_encodeChar, Decoder.finish, List.append_nil,
    List.reverse_reverse]

/-- Where every piece is a character, the bytes are those of the characters. -/
theorem eq_encode_of_pieces {bytes : Bytes} {cs : List Char} (h : pieces bytes = cs.map some) :
    bytes = encode (String.ofList cs) := by
  obtain ⟨chunks, rfl, hcovers⟩ := exists_chunks bytes
  rw [h, List.forall₂_map_right_iff] at hcovers
  rw [encode, String.toList_ofList, List.flatMap]
  congr 1
  clear h
  induction hcovers with
  | nil => rfl
  | cons hfirst _ ih => rw [List.map_cons, ← ih, show _ = _ from hfirst]

theorem map_some_filterMap :
    ∀ {read : List (Option Char)}, (∀ piece ∈ read, piece.isSome = true) →
      (read.filterMap id).map some = read
  | [], _ => rfl
  | none :: _, h => absurd (h none List.mem_cons_self) Bool.false_ne_true
  | some c :: _, h =>
    congrArg (some c :: ·)
      (map_some_filterMap fun piece hpiece => h piece (List.mem_cons_of_mem _ hpiece))

/-- Bytes are those of a text when every piece of them is a character. -/
theorem exists_eq_encode_iff {bytes : Bytes} :
    (∃ s, bytes = encode s) ↔ ∀ piece ∈ pieces bytes, piece.isSome = true := by
  constructor
  · rintro ⟨s, rfl⟩
    rw [pieces_encode, List.forall_mem_map]
    exact fun _ _ => rfl
  · exact fun h => ⟨_, eq_encode_of_pieces (map_some_filterMap h).symm⟩

/-- A text is decoded from its own bytes, and from no others. -/
theorem decode?_eq_some_iff {bytes : Bytes} {s : String} :
    decode? bytes = some s ↔ bytes = encode s := by
  constructor
  · intro h
    rw [decode?] at h
    split_ifs at h with hall
    rw [← Option.some.inj h]
    exact eq_encode_of_pieces (map_some_filterMap (List.all_eq_true.1 hall)).symm
  · rintro rfl
    rw [decode?, pieces_encode]
    simp

theorem lossy_encode (s : String) : lossy (encode s) = s := by
  rw [lossy, pieces_encode, List.map_map]
  simp

theorem length_encode (s : String) : (encode s).length = s.utf8ByteSize := by
  have hlength : ∀ cs : List Char, (cs.flatMap utf8EncodeChar).length = String.utf8Len cs := by
    intro cs
    induction cs with
    | nil => rfl
    | cons c cs ih =>
      rw [List.flatMap_cons, List.length_append, ih, String.length_utf8EncodeChar,
        String.utf8Len_cons, Nat.add_comm]
  rw [encode, hlength, ← String.utf8ByteSize_ofList, String.ofList_toList]

/-- The bytes of a text are displayed as they are. -/
theorem utf8ByteSize_lossy_encode (s : String) :
    (lossy (encode s)).utf8ByteSize = (encode s).length := by
  rw [lossy_encode, length_encode]

/-! ### Around ASCII -/

section Around

variable (before : List (Option Char))

/-- The decoder with pieces that were read before. -/
def Decoder.after (d : Decoder) : Decoder := ⟨d.read ++ before, d.pending⟩

theorem begin_after (read : List (Option Char)) (b : UInt8) :
    begin (read ++ before) b = (begin read b).after before := by
  rw [begin, begin]
  simp only [apply_ite (Decoder.after before)]
  rfl

theorem step_after (d : Decoder) (b : UInt8) :
    step (d.after before) b = (step d b).after before := by
  obtain ⟨read, pending⟩ := d
  cases pending with
  | none => exact begin_after before read b
  | some p =>
    by_cases hb : p.low ≤ b ∧ b ≤ p.high
    · rw [step, step, Decoder.after]
      dsimp only
      rw [if_pos hb, if_pos hb]
      cases p.more <;> rfl
    · have hother : ∀ read, step ⟨read, some p⟩ b = begin (none :: read) b := fun _ => if_neg hb
      rw [Decoder.after, hother, hother, ← begin_after]
      rfl

theorem foldl_step_after (d : Decoder) (bytes : Bytes) :
    bytes.foldl step (d.after before) = (bytes.foldl step d).after before := by
  induction bytes generalizing d with
  | nil => rfl
  | cons b bytes ih => rw [List.foldl_cons, List.foldl_cons, step_after, ih]

theorem finish_after (d : Decoder) : (d.after before).finish = before.reverse ++ d.finish := by
  obtain ⟨read, pending⟩ := d
  cases pending <;> simp [Decoder.after, Decoder.finish]

end Around

/-- A byte of ASCII ends an open sequence and is a piece of its own. -/
theorem pieces_append_ascii (bytes rest : Bytes) {b : UInt8} (hb : b.toNat < 0x80) :
    pieces (bytes ++ b :: rest) = pieces bytes ++ some (Char.ofNat b.toNat) :: pieces rest := by
  have hbegin : ∀ read, begin read b = ⟨some (Char.ofNat b.toNat) :: read, none⟩ :=
    fun read => foldl_ascii read rfl hb
  have hstep : step (bytes.foldl step ⟨[], none⟩) b =
      ⟨some (Char.ofNat b.toNat) :: (pieces bytes).reverse, none⟩ := by
    obtain ⟨_, _, _, _, _, hopens⟩ := exists_fed bytes
    rw [pieces, Decoder.finish]
    cases hpending : (bytes.foldl step ⟨[], none⟩).pending with
    | none =>
      rw [step, hpending, hbegin, List.reverse_reverse]
    | some p =>
      have hlow := (hopens p hpending).low_le
      have hb : ¬(p.low ≤ b ∧ b ≤ p.high) := by
        rw [UInt8.le_iff_toNat_le]
        omega
      rw [step, hpending]
      dsimp only
      rw [if_neg hb, hbegin, List.reverse_reverse]
  have hafter : (⟨some (Char.ofNat b.toNat) :: (pieces bytes).reverse, none⟩ : Decoder) =
      Decoder.after (some (Char.ofNat b.toNat) :: (pieces bytes).reverse) ⟨[], none⟩ := rfl
  rw [pieces, List.foldl_append, List.foldl_cons, hstep, hafter, foldl_step_after, finish_after,
    List.reverse_cons, List.reverse_reverse, List.append_assoc, List.singleton_append]
  rfl

end TestJob.Utf8
