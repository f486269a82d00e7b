import TestJob.Definition.Error
import TestJob.Text.Blank
import TestJob.Text.Utf8

/-!
Taking build variables from the environment of the process. A capture selects variables by the
beginnings of their names. Variables that are not text are passed over; a selected value that is
too long is a fault as soon as it is met, too many names are one at the end. Of several values for
a name the last counts.
-/

namespace TestJob

/-- Which variables to take: those whose name begins with one of the prefixes. -/
structure Capture where
  prefixes : List String
  nonempty : prefixes ≠ []
  not_blank : ∀ p ∈ prefixes, Text.isBlank p = false

namespace Capture

/-- The capture of given prefixes. -/
def ofPrefixes (prefixes : List String) : Except DefinitionFault Capture :=
  if nonempty : prefixes = [] then .error .noPrefix
  else if not_blank : ∀ p ∈ prefixes, Text.isBlank p = false then
    .ok ⟨prefixes, nonempty, not_blank⟩
  else .error .blankPrefix

/-- Whether a name begins with one of the prefixes. -/
def selects (capture : Capture) (name : String) : Bool :=
  capture.prefixes.any fun p => p.toList.isPrefixOf name.toList

/-- A variable as texts, if its name and its value are text and its name is selected. -/
def take? (capture : Capture) (listed : Bytes × Bytes) : Option (String × String) := do
  let name ← Utf8.decode? listed.1
  let value ← Utf8.decode? listed.2
  if capture.selects name then some (name, value) else none

/-- Adds selected variables to those already taken, up to the first value that is too long. -/
def gather (taken : Record) : List (String × String) → Except DefinitionFault Record
  | [] => .ok taken
  | (name, value) :: rest =>
    if value.utf8ByteSize ≤ valueLimit then gather (Members.insert name (.str value) taken) rest
    else .error (.variableTooLong name)

/-- The selected variables of a listing. -/
def collect (capture : Capture) (listing : List (Bytes × Bytes)) :
    Except DefinitionFault Record := do
  let taken ← gather [] (listing.filterMap capture.take?)
  if taken.length ≤ countLimit then .ok taken else .error .tooManyVariables

end Capture

end TestJob
