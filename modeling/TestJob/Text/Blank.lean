/-!
White space in texts. A text is blank when nothing is left of it once the characters with the
Unicode property White_Space are taken away, so U+00A0 and U+3000 count and U+200B does not.
-/

namespace TestJob.Text

/-- The characters with the property White_Space, as ranges of code points in ascending order. -/
def whiteSpaceRanges : List (Nat × Nat) :=
  [(0x9, 0xD), (0x20, 0x20), (0x85, 0x85), (0xA0, 0xA0), (0x1680, 0x1680), (0x2000, 0x200A),
    (0x2028, 0x2029), (0x202F, 0x202F), (0x205F, 0x205F), (0x3000, 0x3000)]

/-- Whether a character has the property White_Space. -/
def isWhiteSpace (c : Char) : Bool :=
  whiteSpaceRanges.any fun (low, high) => low ≤ c.toNat && c.toNat ≤ high

/-- A blank text holds white space only; the empty text is blank. -/
def isBlank (s : String) : Bool := s.toList.all isWhiteSpace

/-- The text without the white space at its end. -/
def trimEnd (s : String) : String :=
  String.ofList (s.toList.reverse.dropWhile isWhiteSpace).reverse

theorem isBlank_iff {s : String} : isBlank s = true ↔ ∀ c ∈ s.toList, isWhiteSpace c = true := by
  simp [isBlank]

end TestJob.Text
