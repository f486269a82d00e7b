import TestJob.Field
import TestJob.Schema

/-!
The schema of job definitions, generated from the declarations of the fields, so that the two
cannot drift apart. A schema knows no difference between `360` and `360.0`, and a definition does:
the remark on each whole number says so.
-/

namespace TestJob

namespace Field

/-- The remark on whole numbers. -/
def integerRemark : String :=
  "Must be written as an integer literal; values such as 360.0 are rejected on load."

/-- A text that is not blank. -/
def notBlankText : Schema := [.type .string, .minLength 1, .notBlank]

/-- The keywords that a field asks for. -/
def constraints (field : Field) : Schema :=
  match field.kind with
  | .string => if field.isRequired then notBlankText else [.type .string]
  | .integer minimum => [.type .integer, .minimum minimum, .maximum 4294967295]
  | .boolean => [.type .boolean]
  | .stringList => [.type .array, .items notBlankText, .uniqueItems]
  | .mapping => [.type .object]

/-- The remarks of a field: what it is for, how it is written, what stands in for it. -/
def remarks (field : Field) : Schema :=
  let comment : Schema :=
    match field.kind with
    | .integer _ => [.remark "$comment" (.str integerRemark)]
    | _ => []
  let default : Schema :=
    match field.default with
    | some value => [.remark "default" value.toJson]
    | none => []
  comment ++ .remark "description" (.str field.description) :: default

/-- The schema of a field. -/
def schema (field : Field) : Schema := field.constraints ++ field.remarks

end Field

/-- The schema of job definitions. -/
def Definition.schema : Schema :=
  [ .remark "$schema" (.str "https://json-schema.org/draft/2020-12/schema"),
    .remark "$id" (.str "ci-job://schemas/job-definition.schema.json"),
    .remark "title" (.str "CI Job Definition"),
    .remark "description"
      (.str "Test-run job definition submitted to the orchestration engine."),
    .type .object,
    .properties (Field.all.map fun field => (field.name, field.schema)),
    .required ((Field.all.filter Field.isRequired).map Field.name),
    .closed ]

end TestJob
