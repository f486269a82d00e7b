import TestJob.Normalize

/-!
Building a descriptor step by step. A builder collects typed values in a record and has no rules
of its own: `build` normalizes the record, so a descriptor that is built obeys the same rules as
one that is read.
-/

namespace TestJob

/-- One value for a builder to take. -/
inductive Setting where
  | amiImageId (value : String)
  | concurrentBuilds (value : UInt32)
  | distro (name version arch : String)
  | environment (value : Record)
  | goldenImagesBranch (value : String)
  | agentLabel (value : String)
  | testEnvironmentName (value : String)
  | passthroughOptions (value : String)
  | pythonVersion (value : String)
  | testSplits (names : List String)
  | timeoutMinutes (value : UInt32)
  | useSpotInstances (value : Bool)
  | stagedTestRun (value : Bool)

/-- The members that a setting puts into the record. -/
def Setting.members : Setting → List (String × Json)
  | amiImageId value => [(FieldName.amiImageId, .str value)]
  | concurrentBuilds value => [(FieldName.concurrentBuilds, Descriptor.count value)]
  | distro name version arch =>
    [(FieldName.distroName, .str name), (FieldName.distroVersion, .str version),
      (FieldName.distroArch, .str arch)]
  | environment value => [(FieldName.environment, .obj value)]
  | goldenImagesBranch value => [(FieldName.goldenImagesBranch, .str value)]
  | agentLabel value => [(FieldName.agentLabel, .str value)]
  | testEnvironmentName value => [(FieldName.testEnvironmentName, .str value)]
  | passthroughOptions value => [(FieldName.passthroughOptions, .str value)]
  | pythonVersion value => [(FieldName.pythonVersion, .str value)]
  | testSplits names => [(FieldName.testSplits, .arr (names.map Json.str))]
  | timeoutMinutes value => [(FieldName.timeoutMinutes, Descriptor.count value)]
  | useSpotInstances value => [(FieldName.useSpotInstances, .bool value)]
  | stagedTestRun value => [(FieldName.stagedTestRun, .bool value)]

/-- The values collected so far. -/
structure Builder where
  record : Record

namespace Builder

/-- A builder without a value. -/
def empty : Builder := ⟨[]⟩

/-- Takes a value; it replaces an earlier one for the same field. -/
def set (b : Builder) (setting : Setting) : Builder :=
  ⟨setting.members.foldl (fun record (name, value) => Members.insert name value record) b.record⟩

/-- The descriptor of the values collected, or their first fault. -/
def build (b : Builder) : Except NormalizeError Descriptor := b.record.normalize

end Builder

end TestJob
