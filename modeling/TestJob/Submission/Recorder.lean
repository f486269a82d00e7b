import TestJob.Descriptor
import TestJob.Submission.Result

/-!
An engine for trying things out: it accepts every descriptor, keeps it, and always gives the same
result.
-/

namespace TestJob

/-- The result to give, and the descriptors received so far. -/
structure Recorder where
  result : RunResult
  received : List Descriptor
deriving DecidableEq

namespace Recorder

/-- A recorder that gives a result. -/
def withResult (result : RunResult) : Recorder := ⟨result, []⟩

/-- A recorder that accepts every descriptor and issues no reference. -/
def new : Recorder := withResult ⟨.accepted, none⟩

/-- Receives a descriptor. -/
def submit (recorder : Recorder) (d : Descriptor) : RunResult × Recorder :=
  (recorder.result, ⟨recorder.result, recorder.received ++ [d]⟩)

end Recorder

end TestJob
