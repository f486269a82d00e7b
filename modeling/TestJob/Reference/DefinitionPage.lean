import TestJob.Field
import TestJob.Json.Writer
import TestJob.Program

/-!
The reference page of job definitions, in Markdown, generated from the declarations of the fields.
It can be written to a file, and a file can be checked against it.
-/

namespace TestJob

namespace Reference

/-- Where the page is kept. -/
def pagePath : String := "Docs/configuration/ci-job.toml.md"

/-- A rule across a comment. -/
def rule : String := String.ofList (List.replicate 76 '=')

/-- A text inside a cell of a table: bars are escaped. -/
def cell (s : String) : String :=
  String.ofList (s.toList.flatMap fun c => if c = '|' then ['\\', '|'] else [c])

/-- The type of a field, with its least value. -/
def typeText : FieldKind → String
  | .integer minimum => "integer (>= " ++ toString minimum.toNat ++ ")"
  | kind => kind.label

/-- The default of a field; a text is put between quotes as it is. -/
def defaultText (field : Field) : String :=
  match field.default.map FieldDefault.toJson with
  | none => ""
  | some (.str s) => "\"" ++ s ++ "\""
  | some value => value.compact

/-- The row of a field. -/
def row (field : Field) : String :=
  "| `" ++ field.name ++ "` | " ++ typeText field.kind ++ " | " ++
    (if field.isRequired then "yes" else "no") ++ " | " ++ cell (defaultText field) ++ " | " ++
    cell field.description ++ " |"

/-- The lines of the page. -/
def pageLines : List String :=
  [ "<!--",
    pagePath,
    rule,
    "Document: CI Job Definition",
    "Description: Reference for ci-job.toml job definition fields.",
    "Generated: This file is auto-generated; do not edit manually.",
    rule,
    "-->",
    "",
    "# ci-job.toml Job Definition",
    "",
    "## Overview",
    "",
    "A job definition selects the machine image, harness profile, and runtime",
    "limits of one test run. Keys are camelCase; unknown keys are rejected and",
    "omitted optional keys take the defaults below.",
    "",
    "## Fields",
    "",
    "| Field | Type | Required | Default | Description |",
    "| --- | --- | --- | --- | --- |" ] ++
  Field.all.map row ++
  [ "",
    "`testSplits` entries must be non-empty and distinct. `testSplits` and",
    "`stagedTestRun` are independent options." ]

/-- The page. -/
def page : String := String.join (pageLines.map fun line => line ++ "\n")

/-- How a file differs from the page. -/
inductive Drift where
  | mismatch (path : Path)
  /-- A difference in other words. -/
  | other (text : String)
deriving DecidableEq

/-- The difference in words. -/
def Drift.message : Drift → String
  | mismatch path => "docs mismatch: " ++ path.display
  | other text => text

/-- Why the page is not written, or a file not found to be the page. -/
inductive PageError where
  | io (error : IoError)
  | render (reason : String)
  | drift (difference : Drift)
deriving DecidableEq

/-- The error in words. -/
def PageError.message : PageError → String
  | io error => "docs io error: " ++ error.message
  | render reason => "docs render error: " ++ reason
  | drift difference => "docs drift: " ++ difference.message

/-- Writes the page to a file, at the usual place if no path is given. -/
def writePage (path : Option Path) : ExceptT PageError Program Unit := do
  let target := path.getD (.ofString pagePath)
  let handle ← Program.orElseFail (Program.request (.openFile target .truncate)) .io
  Program.orElseFail (Program.request (.write handle (Utf8.encode page))) .io

/-- Checks contents against the page. -/
def checkContents (path : Path) (contents : Bytes) : Except PageError Unit :=
  match Utf8.decode? contents with
  | none => .error (.io .notUtf8)
  | some text => if text = page then .ok () else .error (.drift (.mismatch path))

/-- Checks a file against the page, the one at the usual place if no path is given. -/
def checkPage (path : Option Path) : ExceptT PageError Program Unit := do
  let target := path.getD (.ofString pagePath)
  let contents ← Program.orElseFail (Program.request (.read target)) .io
  ExceptT.mk (.done (checkContents target contents))

end Reference

end TestJob
