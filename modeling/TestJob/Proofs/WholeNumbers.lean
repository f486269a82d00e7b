import Mathlib
import TestJob.Proofs.Decimal.Rounding
import TestJob.Proofs.FirstFault
import TestJob.Proofs.Json.Node
import TestJob.Proofs.Json.Token
import TestJob.Proofs.Parsing

/-!
Whole numbers of a JSON text, of any size. What is written as digits is kept exactly where a word of
64 bits holds it, and otherwise becomes a float (`number?_whole`, `exists_number?_whole`); so in a
text that is a definition but for the one number (`Place`), the number is taken, is out of range, or
is no whole number at all (`whole_number_settled`).
-/

namespace TestJob

namespace WholeNumber

open Json (Literal Node nestingLimit)

/-- A whole number as it is written: its digits, with a minus or without. -/
def word (negative : Bool) (digits : Nat) : List Char :=
  (if negative then ['-'] else []) ++ Nat.toDigits 10 digits

/-- The whole number that is written so. -/
def value (negative : Bool) (digits : Nat) : Int := if negative then -digits else digits

/-- What the digits are read as. -/
def literal (negative : Bool) (digits : Nat) : Literal := ⟨⟨negative, digits, 0⟩, true⟩

/-- The place of a word in a JSON text that is a definition once the word is `1`. The word is the
value of the last member of its name, which is the one that counts. -/
structure Place (text name : String) (word : List Char) where
  read : Literal
  earlier : List (Option String × Node)
  later : List (Option String × Node)
  record : Record
  descriptor : Descriptor
  ofChars?_word : Literal.ofChars? word = some read
  read?_text : Node.read? text.toList =
    some (.object (earlier ++ (some name, .number read) :: later))
  last : ∀ m ∈ later, m.1 ≠ some name
  value?_one : Node.value? nestingLimit
    (.object (earlier ++ (some name, .number (literal false 1)) :: later)) = some (.obj record)
  accepted : record.normalize = .ok descriptor

/-- The descriptor of a JSON text. -/
def describe (text : String) : Except DefinitionError Descriptor :=
  Definition.parse text .json >>= Definition.toDescriptor

/-! ### Digits as numbers -/

section Digits

variable {negative : Bool} {digits : Nat}

theorem number?_whole (fits : Number.Fits (value negative digits))
    (hzero : ¬(negative = true ∧ digits = 0)) :
    (literal negative digits).number? = some (.int (value negative digits) fits) :=
  dif_pos ⟨rfl, hzero, fits⟩

/-- Digits that no word of 64 bits holds are a float, and so is minus zero. -/
theorem exists_number?_whole (hdigits : digits < 2 ^ 128)
    (h : ¬Number.Fits (value negative digits) ∨ negative = true ∧ digits = 0) :
    ∃ x, (literal negative digits).number? = some (.float x) := by
  obtain ⟨x, hx⟩ := Decimal.exists_toBinary64? negative (by decide) hdigits
  refine ⟨x, ?_⟩
  have hnone : ¬((literal negative digits).integral = true ∧
      ¬(negative = true ∧ digits = 0) ∧ Number.Fits (value negative digits)) := by
    rintro ⟨_, hzero, fits⟩
    exact h.elim (absurd fits) hzero
  refine (dif_neg hnone).trans ?_
  rw [literal, hx, Option.map_some]

end Digits

/-! ### The definition with another number -/

section Places

variable {text name : String} {negative : Bool} {digits : Nat} {number : Number}

theorem parse_of_read? {record : Record} (h : Json.read? text = some (.obj record)) :
    Definition.parse text .json = .ok (.ofRecord record) := by
  rw [Definition.parse, Definition.readText, h]
  rfl

/-- A text has the record that it has with `1`, but for the number in its place. -/
theorem Place.describe_eq (place : Place text name (word negative digits))
    (hnumber : (literal negative digits).number? = some number) :
    describe text =
      (Record.normalize (Members.insert name (.num number) place.record)).mapError .rejected := by
  have hread : place.read = literal negative digits :=
    Option.some.inj (place.ofChars?_word.symm.trans (Json.Token.ofChars?_toDigits digits negative))
  have hvalue : Node.value? 126 (.number place.read) = some (.num number) := by
    rw [Node.value?, hread, hnumber, Option.map_some]
  have hone : Node.value? 126 (.number (literal false 1)) = some (Descriptor.count 1) := rfl
  have hreplaced := Json.Node.value?_object_replace hone hvalue place.last place.value?_one
  have htext : Json.read? text = some (.obj (Members.insert name (.num number) place.record)) := by
    rw [Json.read?, Json.readWithin?, place.read?_text]
    exact hreplaced
  rw [describe, parse_of_read? htext]
  rfl

/-- A whole number of a definition is a field that takes numbers from one on. -/
theorem exists_field_of_name : ∀ name ∈ DefinitionSchema.wholeNumbers,
    ∃ field ∈ Field.all, field.name = name ∧ field.kind = .integer 1 := by
  decide

variable (place : Place text name (word negative digits))
  (hname : name ∈ DefinitionSchema.wholeNumbers)

include hname

theorem Place.describe_taken {n : Int} {fits : Number.Fits n}
    (hnumber : (literal negative digits).number? = some (.int n fits))
    (hrange : 1 ≤ n ∧ n ≤ 4294967295) :
    ∃ made, describe text = .ok made ∧
      made.toRecord = Members.insert name (.num (.int n fits)) place.descriptor.toRecord := by
  obtain ⟨field, hfield, rfl, hkind⟩ := exists_field_of_name name hname
  have hfault : FieldTable.fault? field (.num (.int n fits)) = none := by
    rw [FieldTable.fault?.eq_def, hkind]
    exact if_pos hrange
  obtain ⟨made, hmade, hrecord⟩ :=
    FieldTable.normalize_insert_of_faultless place.accepted hfield hfault
  refine ⟨made, ?_, hrecord⟩
  rw [place.describe_eq hnumber, hmade]
  rfl

include place in
theorem Place.describe_out_of_range {n : Int} {fits : Number.Fits n}
    (hnumber : (literal negative digits).number? = some (.int n fits))
    (hrange : ¬(1 ≤ n ∧ n ≤ 4294967295)) :
    describe text = .error (.rejected (.invalidRange name n)) := by
  obtain ⟨field, hfield, rfl, hkind⟩ := exists_field_of_name name hname
  have hfault : FieldTable.fault? field (.num (.int n fits)) =
      some (.invalidRange field.name n) := by
    rw [FieldTable.fault?.eq_def, hkind]
    exact if_neg hrange
  rw [place.describe_eq hnumber,
    FieldTable.normalize_insert_of_fault place.accepted hfield Json.noConfusion hfault]
  rfl

include place in
theorem Place.describe_float {x : Binary64}
    (hnumber : (literal negative digits).number? = some (.float x)) :
    describe text = .error (.rejected (.typeMismatch name "integer" .float)) := by
  obtain ⟨field, hfield, rfl, hkind⟩ := exists_field_of_name name hname
  have hfault : FieldTable.fault? field (.num (.float x)) =
      some (.typeMismatch field.name "integer" .float) := by
    rw [FieldTable.fault?.eq_def, hkind]
    rfl
  rw [place.describe_eq hnumber,
    FieldTable.normalize_insert_of_fault place.accepted hfield Json.noConfusion hfault]
  rfl

/-- A text that would be a definition with `1` in the place of a whole number. A number that a word
of 64 bits holds is taken as it is if it is in the range of the field, and out of range otherwise,
minus zero apart; any other one is a float, and no whole number. -/
theorem whole_number_settled (hlow : -2 ^ 127 ≤ value negative digits)
    (hhigh : value negative digits < 2 ^ 127) :
    (∀ fits : Number.Fits (value negative digits), ¬(negative = true ∧ digits = 0) →
      ((∃ made, describe text = .ok made ∧ made.toRecord =
          Members.insert name (.num (.int (value negative digits) fits))
            place.descriptor.toRecord) ↔
        1 ≤ value negative digits ∧ value negative digits ≤ 4294967295) ∧
      (¬(1 ≤ value negative digits ∧ value negative digits ≤ 4294967295) →
        describe text = .error (.rejected (.invalidRange name (value negative digits))))) ∧
    (¬Number.Fits (value negative digits) ∨ negative = true ∧ digits = 0 →
      describe text = .error (.rejected (.typeMismatch name "integer" .float))) := by
  refine ⟨fun fits hzero => ⟨⟨?_, ?_⟩, ?_⟩, fun hfloat => ?_⟩
  · rintro ⟨made, hmade, _⟩
    by_contra hrange
    rw [place.describe_out_of_range hname (number?_whole fits hzero) hrange] at hmade
    cases hmade
  · exact place.describe_taken hname (number?_whole fits hzero)
  · exact place.describe_out_of_range hname (number?_whole fits hzero)
  · have hdigits : digits < 2 ^ 128 := by
      rw [value] at hlow hhigh
      split_ifs at hlow hhigh <;> omega
    obtain ⟨x, hx⟩ := exists_number?_whole hdigits hfloat
    exact place.describe_float hname hx

end Places

namespace Sample

def quoted (text : String) : List Char := '"' :: text.toList ++ ['"']

/-- The characters of a definition with some number of builds, and with a member in front of it
that does not count. -/
def chars (number : List Char) : List Char :=
  let members :=
    [ (FieldName.concurrentBuilds, quoted "2"),
      (FieldName.amiImageId, quoted "ami-0f86"),
      (FieldName.concurrentBuilds, number),
      (FieldName.distroName, quoted "freebsd"),
      (FieldName.distroVersion, quoted "122"),
      (FieldName.distroArch, quoted "amd64"),
      (FieldName.environment, ['\x7b', '\x7d']),
      (FieldName.goldenImagesBranch, quoted "master"),
      (FieldName.agentLabel, quoted "kitchen-slave"),
      (FieldName.testEnvironmentName, quoted "pytest-zeromq"),
      (FieldName.pythonVersion, quoted "py3"),
      (FieldName.timeoutMinutes, ['3', '6', '0']) ]
  let member := fun (key, written) => quoted key ++ ':' :: written
  '\x7b' :: List.intercalate [',', ' '] (members.map member) ++ ['\x7d']

/-- The text with a whole number of builds. -/
def text (negative : Bool) (digits : Nat) : String := String.ofList (chars (word negative digits))

def earlier : List (Option String × Node) :=
  [ (some FieldName.concurrentBuilds, .text (some "2")),
    (some FieldName.amiImageId, .text (some "ami-0f86")) ]

def later : List (Option String × Node) :=
  [ (some FieldName.distroName, .text (some "freebsd")),
    (some FieldName.distroVersion, .text (some "122")),
    (some FieldName.distroArch, .text (some "amd64")),
    (some FieldName.environment, .object []),
    (some FieldName.goldenImagesBranch, .text (some "master")),
    (some FieldName.agentLabel, .text (some "kitchen-slave")),
    (some FieldName.testEnvironmentName, .text (some "pytest-zeromq")),
    (some FieldName.pythonVersion, .text (some "py3")),
    (some FieldName.timeoutMinutes, .number (literal false 360)) ]

/-- The record with one build. -/
def record : Record :=
  [ (FieldName.agentLabel, .str "kitchen-slave"),
    (FieldName.amiImageId, .str "ami-0f86"),
    (FieldName.concurrentBuilds, Descriptor.count 1),
    (FieldName.distroArch, .str "amd64"),
    (FieldName.distroName, .str "freebsd"),
    (FieldName.distroVersion, .str "122"),
    (FieldName.environment, .obj []),
    (FieldName.goldenImagesBranch, .str "master"),
    (FieldName.pythonVersion, .str "py3"),
    (FieldName.testEnvironmentName, .str "pytest-zeromq"),
    (FieldName.timeoutMinutes, Descriptor.count 360) ]

/-- The descriptor with one build. -/
def descriptor : Descriptor where
  amiImageId := ⟨"ami-0f86"⟩
  concurrentBuilds := 1
  distroName := "freebsd"
  distroVersion := "122"
  distroArch := "amd64"
  environment := []
  goldenImagesBranch := ⟨"master"⟩
  agentLabel := ⟨"kitchen-slave"⟩
  testEnvironmentName := "pytest-zeromq"
  passthroughOptions := ""
  pythonVersion := "py3"
  testSplits := []
  timeoutMinutes := 360
  useSpotInstances := false
  stagedTestRun := false

theorem value?_one : Node.value? nestingLimit (.object (earlier ++
    (some FieldName.concurrentBuilds, .number (literal false 1)) :: later)) =
      some (.obj record) := by
  decide +kernel

theorem accepted : record.normalize = .ok descriptor := by
  decide +kernel

theorem last : ∀ m ∈ later, m.1 ≠ some FieldName.concurrentBuilds := by
  decide +kernel

theorem read?_text {negative : Bool} {digits : Nat}
    (htokens : Json.Token.read? (chars (word negative digits)) =
      some (Node.object (earlier ++
        (some FieldName.concurrentBuilds, .number (literal negative digits)) :: later)).tokens) :
    Node.read? (text negative digits).toList = some (.object (earlier ++
      (some FieldName.concurrentBuilds, .number (literal negative digits)) :: later)) := by
  rw [text, Node.read?, String.toList_ofList, htokens, Option.bind_eq_bind, Option.bind_some,
    Node.ofTokens?_tokens]

/-- The place of the number in the text, once its tokens are read. -/
def place (negative : Bool) (digits : Nat)
    (htokens : Json.Token.read? (chars (word negative digits)) =
      some (Node.object (earlier ++
        (some FieldName.concurrentBuilds, .number (literal negative digits)) :: later)).tokens) :
    Place (text negative digits) FieldName.concurrentBuilds (word negative digits) :=
  { read := literal negative digits, earlier, later, record, descriptor, last, value?_one, accepted
    ofChars?_word := Json.Token.ofChars?_toDigits digits negative
    read?_text := read?_text htokens }

end Sample

open Sample (place)

theorem whole_number_settled_edges :
    (∃ made, describe (Sample.text false 4294967295) = .ok made ∧ made.toRecord =
        Members.insert FieldName.concurrentBuilds (Descriptor.count 4294967295)
          Sample.descriptor.toRecord) ∧
      describe (Sample.text false 4294967296) =
        .error (.rejected (.invalidRange FieldName.concurrentBuilds 4294967296)) ∧
      describe (Sample.text true 0) =
        .error (.rejected (.typeMismatch FieldName.concurrentBuilds "integer" .float)) := by
  have hname : FieldName.concurrentBuilds ∈ DefinitionSchema.wholeNumbers := by decide
  have hmost := whole_number_settled (place false 4294967295 (by decide +kernel)) hname
    (by decide) (by decide)
  have hmore := whole_number_settled (place false 4294967296 (by decide +kernel)) hname
    (by decide) (by decide)
  have hzero := whole_number_settled (place true 0 (by decide +kernel)) hname
    (by decide) (by decide)
  exact ⟨(hmost.1 (by decide) (by decide)).1.2 (by decide),
    (hmore.1 (by decide) (by decide)).2 (by decide), hzero.2 (by decide)⟩

/-- A whole number that takes more than 64 bits is not out of range: it is no whole number. -/
theorem beyond_words_type_mismatch :
    Nonempty (Place (Sample.text false 18446744073709551616) FieldName.concurrentBuilds
        (word false 18446744073709551616)) ∧
      value false 18446744073709551616 < 2 ^ 127 ∧
      describe (Sample.text false 18446744073709551616) =
        .error (.rejected (.typeMismatch FieldName.concurrentBuilds "integer" .float)) := by
  have here := place false 18446744073709551616 (by decide +kernel)
  have hfloat : ∃ x, (literal false 18446744073709551616).number? = some (.float x) :=
    exists_number?_whole (by decide) (.inl (by decide))
  obtain ⟨x, hx⟩ := hfloat
  exact ⟨⟨here⟩, by decide, here.describe_float (by decide) hx⟩

end WholeNumber

end TestJob
