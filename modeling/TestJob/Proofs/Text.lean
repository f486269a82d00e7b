import Mathlib
import TestJob.Text.Blank
import TestJob.Text.Utf8

/-!
Texts and their bytes. A text is blank when trimming leaves nothing of it, and the order of texts,
which goes by code points, is the order of their UTF-8 bytes: a lower character has the lower bytes,
whatever comes after it.
-/

namespace TestJob

namespace Text

/-- The text without the white space at both ends. -/
def trim (s : String) : String := trimEnd (String.ofList (s.toList.dropWhile isWhiteSpace))

theorem trimEnd_ofList_eq_empty_iff {cs : List Char} :
    trimEnd (String.ofList cs) = "" ↔ ∀ c ∈ cs, isWhiteSpace c = true := by
  rw [trimEnd, String.toList_ofList, String.ofList_eq_empty_iff, List.reverse_eq_nil_iff,
    List.dropWhile_eq_nil_iff]
  simp only [List.mem_reverse]

/-- Trimming leaves nothing exactly of the blank texts. -/
theorem isBlank_iff_trim_eq {s : String} : isBlank s = true ↔ trim s = "" := by
  rw [trim, trimEnd_ofList_eq_empty_iff, isBlank_iff]
  refine ⟨fun h c hc => h c ((List.dropWhile_suffix _).subset hc), fun h c hc => ?_⟩
  rw [← List.takeWhile_append_dropWhile (p := isWhiteSpace) (l := s.toList)] at hc
  rcases List.mem_append.1 hc with hc | hc
  · exact List.mem_takeWhile_imp hc
  · exact h c hc

end Text

namespace Utf8

theorem toNat_le (c : Char) : c.val.toNat ≤ 0x10FFFF := by
  rcases c.valid with h | h <;> simp only [UInt32.toNat] at * <;> omega

/-- The bytes of a lower character come first, whatever follows. Two characters of one length
differ in the first of their six-bit groups that differs; of two lengths, in the leading byte. -/
theorem encodeChar_append_lt {c d : Char} (h : c < d) (x y : Bytes) :
    String.utf8EncodeChar c ++ x < String.utf8EncodeChar d ++ y := by
  have hlt : c.val.toNat < d.val.toNat := h
  have hd := toNat_le d
  unfold String.utf8EncodeChar
  dsimp only
  generalize c.val.toNat = m at *
  generalize d.val.toNat = n at *
  have hm : m / 4096 = m / 64 / 64 ∧ m / 262144 = m / 64 / 64 / 64 := by omega
  have hn : n / 4096 = n / 64 / 64 ∧ n / 262144 = n / 64 / 64 / 64 := by omega
  rw [hm.1, hm.2, hn.1, hn.2]
  have next : ∀ k, (k % 64 + 0x80) % 256 = k % 64 + 0x80 := by omega
  have lead : ∀ k ≤ 4, (k % 8 + 0xf0) % 256 = k + 0xf0 := by omega
  have hm' := lead (m / 64 / 64 / 64) (by omega)
  have hn' := lead (n / 64 / 64 / 64) (by omega)
  split_ifs <;>
    simp only [List.cons_append, List.nil_append, List.cons_lt_cons_iff, UInt8.lt_iff_toNat_lt,
      ← UInt8.toNat_inj, UInt8.toNat_ofNat', Nat.reducePow, next, hm', hn'] <;>
    omega

theorem flatMap_encodeChar_lt {s t : List Char} (h : s < t) :
    s.flatMap String.utf8EncodeChar < t.flatMap String.utf8EncodeChar := by
  induction h with
  | @nil c cs =>
    rw [List.flatMap_nil, List.flatMap_cons]
    obtain ⟨b, bs, hb⟩ := List.exists_cons_of_ne_nil (String.utf8EncodeChar_ne_nil (c := c))
    rw [hb]
    exact List.nil_lt_cons _ _
  | rel h =>
    rw [List.flatMap_cons, List.flatMap_cons]
    exact encodeChar_append_lt h _ _
  | cons _ ih =>
    rw [List.flatMap_cons, List.flatMap_cons]
    exact List.append_left_lt ih

/-- The order of texts is the order of their bytes. -/
theorem encode_lt_iff {s t : String} : encode s < encode t ↔ s < t := by
  have mono : ∀ {s t : String}, s < t → encode s < encode t := fun h =>
    flatMap_encodeChar_lt (String.lt_iff_toList_lt.1 h)
  refine ⟨fun h => ?_, mono⟩
  rcases lt_trichotomy s t with hst | rfl | hts
  · exact hst
  · exact absurd h (List.lt_irrefl _)
  · exact absurd h (List.lt_asymm (mono hts))

theorem encode_le_iff {s t : String} : encode s ≤ encode t ↔ s ≤ t := by
  rw [← List.not_lt, encode_lt_iff, not_lt]

/-- Different texts have different bytes. -/
theorem encode_injective : Function.Injective encode := fun _ _ h =>
  String.le_antisymm (encode_le_iff.1 (h ▸ List.le_refl _))
    (encode_le_iff.1 (h ▸ List.le_refl _))

/-- A byte of ASCII stands for its own character alone. -/
theorem toNat_eq_of_mem_encodeChar {c : Char} {b : UInt8} (hb : b ∈ String.utf8EncodeChar c)
    (hlow : b.toNat < 0x80) : c.toNat = b.toNat := by
  have hc := toNat_le c
  change c.val.toNat = b.toNat
  unfold String.utf8EncodeChar at hb
  dsimp only at hb
  generalize c.val.toNat = n at *
  split_ifs at hb <;>
    simp only [List.mem_cons, List.not_mem_nil, or_false, ← UInt8.toNat_inj, UInt8.toNat_ofNat',
      Nat.reducePow] at hb <;>
    omega

theorem mem_of_mem_encode {s : String} {b : UInt8} (hb : b ∈ encode s) (hlow : b.toNat < 0x80) :
    Char.ofNat b.toNat ∈ s.toList := by
  obtain ⟨c, hc, hbyte⟩ := List.mem_flatMap.1 hb
  rw [← toNat_eq_of_mem_encodeChar hbyte hlow, Char.ofNat_toNat]
  exact hc

end Utf8

end TestJob
