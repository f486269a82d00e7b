import TestJob.IoError
import TestJob.Path

/-!
Why a descriptor is not handed to the engine, and how that is told.
-/

namespace TestJob

/-- A reason to refuse a descriptor. -/
inductive Refusal where
  | directory (path : Path)
  | noFileName
  /-- A reason in other words. -/
  | other (text : String)
deriving DecidableEq

/-- The reason in words. -/
def Refusal.message : Refusal → String
  | directory path => "handoff path is a directory: " ++ path.display
  | noFileName => "handoff path has no file name"
  | other text => text

/-- Why a submission fails. -/
inductive SubmitError where
  | rejected (reason : Refusal)
  | io (error : IoError)
deriving DecidableEq

/-- The error in words. -/
def SubmitError.message : SubmitError → String
  | rejected reason => "submission rejected: " ++ reason.message
  | io error => "submission io error: " ++ error.message

end TestJob
