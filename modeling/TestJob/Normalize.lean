import TestJob.Descriptor
import TestJob.NormalizeError
import TestJob.Text.Blank

/-!
From a record to a descriptor. `normalize` checks the fields in the order in which they are
declared and gives the first fault; once all are in order, the least key that is no field is
refused. Nothing is converted: a text comes only from a text, a number only from an integer, and
null counts as absent.
-/

namespace TestJob

namespace Record

/-- The value of a field; null counts as absent. -/
def lookup (record : Record) (name : String) : Option Json :=
  (Members.find? name record).filter fun value => !value.isNull

/-- The fault of a value of another kind. -/
def mismatch (name : String) (expected : FieldKind) (value : Json) : NormalizeError :=
  .typeMismatch name expected.label (.of value)

/-- A text that must be there and must not be blank. -/
def requiredString (record : Record) (name : String) : Except NormalizeError String :=
  match record.lookup name with
  | none => .error (.missingField name)
  | some (.str text) => if Text.isBlank text then .error (.emptyField name) else .ok text
  | some value => .error (mismatch name .string value)

/-- A text that may be absent, and may be empty. -/
def optionalString (record : Record) (name : String) (default : String) :
    Except NormalizeError String :=
  match record.lookup name with
  | none => .ok default
  | some (.str text) => .ok text
  | some value => .error (mismatch name .string value)

/-- A flag that may be absent. -/
def optionalBool (record : Record) (name : String) (default : Bool) : Except NormalizeError Bool :=
  match record.lookup name with
  | none => .ok default
  | some (.bool flag) => .ok flag
  | some value => .error (mismatch name .boolean value)

/-- A whole number that must be there, from `least` to the largest of 32 bits. -/
def requiredInteger (record : Record) (name : String) (least : UInt32) :
    Except NormalizeError UInt32 :=
  match record.lookup name with
  | none => .error (.missingField name)
  | some (.num (.int value _)) =>
    if least.toNat ≤ value ∧ value < 4294967296 then .ok (UInt32.ofNat value.toNat)
    else .error (.invalidRange name value)
  | some value => .error (mismatch name (.integer least) value)

/-- Members that must be there, as they are. -/
def requiredMapping (record : Record) (name : String) : Except NormalizeError Record :=
  match record.lookup name with
  | none => .error (.missingField name)
  | some (.obj members) => .ok members
  | some value => .error (mismatch name .mapping value)

/-- The name of an item of a list, for messages. -/
def itemName (name : String) (index : Nat) : String :=
  name ++ "[" ++ toString index ++ "]"

/-- Split names, after those already read (last first): each a text, not blank, not among those
before it. -/
def splits (read : List SplitName) : List Json → Except NormalizeError (List SplitName)
  | [] => .ok read.reverse
  | .str text :: rest =>
    if Text.isBlank text then .error .emptySplitName
    else if ⟨text⟩ ∈ read then .error (.duplicateSplit text)
    else splits (⟨text⟩ :: read) rest
  | value :: _ => .error (mismatch (itemName FieldName.testSplits read.length) .string value)

/-- The split names of a record, none if they are absent. -/
def optionalSplits (record : Record) : Except NormalizeError (List SplitName) :=
  match record.lookup FieldName.testSplits with
  | none => .ok []
  | some (.arr items) => splits [] items
  | some value => .error (mismatch FieldName.testSplits .stringList value)

/-- The lesser of a key and those found before. -/
def lesser (found : Option String) (key : String) : Option String :=
  match found with
  | none => some key
  | some least => if key < least then some key else some least

/-- The least key that is no field. -/
def unknown? (record : Record) : Option String :=
  ((Members.keys record).filter fun key => (Field.find? key).isNone).foldl lesser none

/-- Refuses a key that is no field. -/
def refuseUnknown (record : Record) : Except NormalizeError Unit :=
  match record.unknown? with
  | none => .ok ()
  | some key => .error (.unknownField key)

/-- The descriptor of a record, or its first fault. -/
def normalize (record : Record) : Except NormalizeError Descriptor := do
  let amiImageId ← record.requiredString FieldName.amiImageId
  let concurrentBuilds ←
    record.requiredInteger FieldName.concurrentBuilds Field.leastConcurrentBuilds
  let distroName ← record.requiredString FieldName.distroName
  let distroVersion ← record.requiredString FieldName.distroVersion
  let distroArch ← record.requiredString FieldName.distroArch
  let environment ← record.requiredMapping FieldName.environment
  let goldenImagesBranch ← record.requiredString FieldName.goldenImagesBranch
  let agentLabel ← record.requiredString FieldName.agentLabel
  let testEnvironmentName ← record.requiredString FieldName.testEnvironmentName
  let passthroughOptions ←
    record.optionalString FieldName.passthroughOptions Field.defaultPassthroughOptions
  let pythonVersion ← record.requiredString FieldName.pythonVersion
  let testSplits ← record.optionalSplits
  let timeoutMinutes ← record.requiredInteger FieldName.timeoutMinutes Field.leastTimeoutMinutes
  let useSpotInstances ←
    record.optionalBool FieldName.useSpotInstances Field.defaultUseSpotInstances
  let stagedTestRun ← record.optionalBool FieldName.stagedTestRun Field.defaultStagedTestRun
  record.refuseUnknown
  return {
    amiImageId := ⟨amiImageId⟩
    concurrentBuilds
    distroName
    distroVersion
    distroArch
    environment
    goldenImagesBranch := ⟨goldenImagesBranch⟩
    agentLabel := ⟨agentLabel⟩
    testEnvironmentName
    passthroughOptions
    pythonVersion
    testSplits
    timeoutMinutes
    useSpotInstances
    stagedTestRun }

end Record

end TestJob
