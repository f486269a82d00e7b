/-!
UTF-8. `pieces` runs an automaton over the bytes and gives one element for each character and one
`none` for each ill-formed sequence, a longest beginning of a well-formed one counting as one.
Strict decoding (`decode?`) and decoding for display (`lossy`) both read their answer off it.
-/

namespace TestJob

/-- Raw bytes: the contents of a file, a path, a variable. -/
abbrev Bytes := List UInt8

namespace Utf8

/-- A sequence that has begun: the range its next byte must lie in, how many bytes follow that
one, and the bits read so far. -/
structure Pending where
  low : UInt8
  high : UInt8
  more : Nat
  code : Nat

/-- The decoder between two bytes: what has been read, last first, and the open sequence. -/
structure Decoder where
  read : List (Option Char)
  pending : Option Pending

/-- Reads a byte with which a sequence begins. -/
def begin (read : List (Option Char)) (b : UInt8) : Decoder :=
  if b < 0x80 then ⟨some (Char.ofNat b.toNat) :: read, none⟩
  else if b < 0xC2 then ⟨none :: read, none⟩
  else if b < 0xE0 then ⟨read, some ⟨0x80, 0xBF, 0, b.toNat - 0xC0⟩⟩
  else if b = 0xE0 then ⟨read, some ⟨0xA0, 0xBF, 1, 0⟩⟩
  else if b = 0xED then ⟨read, some ⟨0x80, 0x9F, 1, 0xD⟩⟩
  else if b < 0xF0 then ⟨read, some ⟨0x80, 0xBF, 1, b.toNat - 0xE0⟩⟩
  else if b = 0xF0 then ⟨read, some ⟨0x90, 0xBF, 2, 0⟩⟩
  else if b < 0xF4 then ⟨read, some ⟨0x80, 0xBF, 2, b.toNat - 0xF0⟩⟩
  else if b = 0xF4 then ⟨read, some ⟨0x80, 0x8F, 2, 4⟩⟩
  else ⟨none :: read, none⟩

/-- Reads one byte. A byte that cannot continue the open sequence ends it as ill-formed and
begins anew. -/
def step (d : Decoder) (b : UInt8) : Decoder :=
  match d.pending with
  | none => begin d.read b
  | some p =>
    if p.low ≤ b ∧ b ≤ p.high then
      let code := p.code * 64 + (b.toNat - 0x80)
      match p.more with
      | 0 => ⟨some (Char.ofNat code) :: d.read, none⟩
      | more + 1 => ⟨d.read, some ⟨0x80, 0xBF, more, code⟩⟩
    else begin (none :: d.read) b

/-- What has been read once the bytes are over; a sequence still open is ill-formed. -/
def Decoder.finish (d : Decoder) : List (Option Char) :=
  match d.pending with
  | none => d.read.reverse
  | some _ => (none :: d.read).reverse

/-- The characters of the bytes in order, `none` standing for an ill-formed sequence. -/
def pieces (bytes : Bytes) : List (Option Char) := (bytes.foldl step ⟨[], none⟩).finish

/-- The text that the bytes encode, if all of them are well-formed. -/
def decode? (bytes : Bytes) : Option String :=
  let read := pieces bytes
  if read.all Option.isSome then some (String.ofList (read.filterMap id)) else none

/-- The text for display, with U+FFFD for each ill-formed sequence. -/
def lossy (bytes : Bytes) : String :=
  String.ofList ((pieces bytes).map fun piece => piece.getD '\uFFFD')

/-- The bytes of a text. -/
def encode (s : String) : Bytes := s.toList.flatMap String.utf8EncodeChar

end Utf8

end TestJob
