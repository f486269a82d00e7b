import TestJob.IoError
import TestJob.NormalizeError
import TestJob.Toml.ToJson

/-!
Why a job definition does not become a descriptor, and how that is told.
-/

namespace TestJob

/-- A rule that a definition, or the way in which it is given, breaks before its fields count. -/
inductive DefinitionFault where
  | pathTooLong
  | segmentTooLong
  | tooLarge
  | notUtf8
  | notFinite (value : Toml.NonFinite)
  | notTable
  | noPrefix
  | blankPrefix
  | variableTooLong (name : String)
  | tooManyVariables
  /-- A fault in other words. -/
  | other (text : String)
deriving DecidableEq

/-- How many bytes a definition file may have. -/
def Definition.sizeLimit : Nat := 1048576

/-- How many bytes the value of a captured variable may have. -/
def Capture.valueLimit : Nat := 8192

/-- How many variables may be captured. -/
def Capture.countLimit : Nat := 256

/-- The fault in words. -/
def DefinitionFault.message : DefinitionFault → String
  | pathTooLong => "definition path exceeds max length"
  | segmentTooLong => "definition path component too long"
  | tooLarge => "definition file exceeds size limit"
  | notUtf8 => "definition file must be utf-8"
  | notFinite value => "non-finite float: " ++ value.text
  | notTable => "definition must be a table of fields"
  | noPrefix => "environment capture requires at least one prefix"
  | blankPrefix => "environment capture prefix must be non-empty"
  | variableTooLong name =>
    "environment variable " ++ name ++ " exceeds " ++ toString Capture.valueLimit ++ " bytes"
  | tooManyVariables =>
    "captured environment exceeds " ++ toString Capture.countLimit ++ " variables"
  | other text => text

/-- Why there is no descriptor. -/
inductive DefinitionError where
  /-- The file cannot be read. -/
  | io (error : IoError)
  /-- The text is no document of its format. -/
  | unreadable (reason : String)
  | invalid (fault : DefinitionFault)
  /-- The fields are not in order. -/
  | rejected (fault : NormalizeError)
deriving DecidableEq

/-- The error in words. -/
def DefinitionError.message : DefinitionError → String
  | io error => "definition io error: " ++ error.message
  | unreadable reason => "definition parse error: " ++ reason
  | invalid fault => "invalid definition: " ++ fault.message
  | rejected fault => "invalid job descriptor: " ++ fault.message

end TestJob
