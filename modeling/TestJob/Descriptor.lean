import TestJob.Field
import TestJob.Identifier

/-!
A job descriptor: a job definition that has been checked, with every default filled in.
`toRecord` gives it back as a record that has each field.
-/

namespace TestJob

/-- What the orchestration engine is told of one test run. -/
structure Descriptor where
  amiImageId : AmiImageId
  concurrentBuilds : UInt32
  distroName : String
  distroVersion : String
  distroArch : String
  environment : Record
  goldenImagesBranch : BranchName
  agentLabel : AgentLabel
  testEnvironmentName : String
  passthroughOptions : String
  pythonVersion : String
  testSplits : List SplitName
  timeoutMinutes : UInt32
  useSpotInstances : Bool
  stagedTestRun : Bool
deriving DecidableEq

namespace Descriptor

/-- The value of a whole number of 32 bits. -/
def count (n : UInt32) : Json := .num (.ofUInt32 n)

/-- The record with every field, defaults included. -/
def toRecord (d : Descriptor) : Record :=
  Members.ofList
    [ (FieldName.amiImageId, d.amiImageId.toJson),
      (FieldName.concurrentBuilds, count d.concurrentBuilds),
      (FieldName.distroName, .str d.distroName),
      (FieldName.distroVersion, .str d.distroVersion),
      (FieldName.distroArch, .str d.distroArch),
      (FieldName.environment, .obj d.environment),
      (FieldName.goldenImagesBranch, d.goldenImagesBranch.toJson),
      (FieldName.agentLabel, d.agentLabel.toJson),
      (FieldName.testEnvironmentName, .str d.testEnvironmentName),
      (FieldName.passthroughOptions, .str d.passthroughOptions),
      (FieldName.pythonVersion, .str d.pythonVersion),
      (FieldName.testSplits, .arr (d.testSplits.map Identifier.toJson)),
      (FieldName.timeoutMinutes, count d.timeoutMinutes),
      (FieldName.useSpotInstances, .bool d.useSpotInstances),
      (FieldName.stagedTestRun, .bool d.stagedTestRun) ]

end Descriptor

end TestJob
