import TestJob.Json.Value

/-!
The fields of a job definition: `Field.all` declares for each its name, its kind, the default that
stands in for it and what it is for. Schema and reference docs are generated from this table.
-/

namespace TestJob

namespace FieldName

def amiImageId : String := "amiImageId"
def concurrentBuilds : String := "concurrentBuilds"
def distroName : String := "distroName"
def distroVersion : String := "distroVersion"
def distroArch : String := "distroArch"
def environment : String := "environment"
def goldenImagesBranch : String := "goldenImagesBranch"
def agentLabel : String := "agentLabel"
def testEnvironmentName : String := "testEnvironmentName"
def passthroughOptions : String := "passthroughOptions"
def pythonVersion : String := "pythonVersion"
def testSplits : String := "testSplits"
def timeoutMinutes : String := "timeoutMinutes"
def useSpotInstances : String := "useSpotInstances"
def stagedTestRun : String := "stagedTestRun"

end FieldName

/-- The kind of value that a field takes. -/
inductive FieldKind where
  /-- A text; not blank where the field is required. -/
  | string
  /-- A whole number of 32 bits, at least `minimum`. -/
  | integer (minimum : UInt32)
  | boolean
  /-- Texts, none blank and no two equal. -/
  | stringList
  /-- Members of any kind, passed on as they are. -/
  | mapping
deriving DecidableEq

/-- The name of a kind in messages. -/
def FieldKind.label : FieldKind → String
  | string => "string"
  | integer _ => "integer"
  | boolean => "boolean"
  | stringList => "sequence of string"
  | mapping => "mapping"

/-- What stands in for an optional field that is absent. -/
inductive FieldDefault where
  | string (value : String)
  | boolean (value : Bool)
  | emptyList
deriving DecidableEq

/-- The value of a default in a record. -/
def FieldDefault.toJson : FieldDefault → Json
  | string value => .str value
  | boolean value => .bool value
  | emptyList => .arr []

/-- A declaration. A field without a default is required. -/
structure Field where
  name : String
  kind : FieldKind
  default : Option FieldDefault
  description : String
deriving DecidableEq

namespace Field

/-- Whether the field must be given. -/
def isRequired (field : Field) : Bool := field.default.isNone

def defaultPassthroughOptions : String := ""
def defaultUseSpotInstances : Bool := false
def defaultStagedTestRun : Bool := false
def leastConcurrentBuilds : UInt32 := 1
def leastTimeoutMinutes : UInt32 := 1

/-- Every field, in the order in which they are checked. -/
def all : List Field :=
  [ ⟨FieldName.amiImageId, .string, none,
      "Machine image identifier used to provision the test VM."⟩,
    ⟨FieldName.concurrentBuilds, .integer leastConcurrentBuilds, none,
      "Maximum concurrent builds of this job."⟩,
    ⟨FieldName.distroName, .string, none,
      "Target distribution name (for example freebsd)."⟩,
    ⟨FieldName.distroVersion, .string, none,
      "Target distribution version (for example 122)."⟩,
    ⟨FieldName.distroArch, .string, none,
      "Target architecture (amd64, arm64, i386, ...)."⟩,
    ⟨FieldName.environment, .mapping, none,
      "Build-context variables forwarded unmodified to the orchestration engine."⟩,
    ⟨FieldName.goldenImagesBranch, .string, none,
      "Branch holding the golden image definitions."⟩,
    ⟨FieldName.agentLabel, .string, none,
      "Scheduler label selecting the agent that runs the job."⟩,
    ⟨FieldName.testEnvironmentName, .string, none,
      "Test harness profile to execute."⟩,
    ⟨FieldName.passthroughOptions, .string, some (.string defaultPassthroughOptions),
      "Opaque arguments forwarded to the test harness."⟩,
    ⟨FieldName.pythonVersion, .string, none,
      "Python runtime selector (py3, py2, ...)."⟩,
    ⟨FieldName.testSplits, .stringList, some .emptyList,
      "Named test suite partitions; empty disables splitting."⟩,
    ⟨FieldName.timeoutMinutes, .integer leastTimeoutMinutes, none,
      "Wall-clock budget in minutes, enforced by the orchestration engine."⟩,
    ⟨FieldName.useSpotInstances, .boolean, some (.boolean defaultUseSpotInstances),
      "Bid for preemptible spot capacity instead of on-demand instances."⟩,
    ⟨FieldName.stagedTestRun, .boolean, some (.boolean defaultStagedTestRun),
      "Sequence fast and slow test partitions instead of a uniform run."⟩ ]

/-- The declaration of a name. -/
def find? (name : String) : Option Field := all.find? fun field => field.name = name

end Field

end TestJob
