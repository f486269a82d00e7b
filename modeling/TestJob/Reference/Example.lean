/-!
An example of a definition file. Optional fields that are not used are there as remarks, so that
every field can be seen.
-/

namespace TestJob.Reference

/-- The lines of the example. -/
def exampleLines : List String :=
  [ "amiImageId = \"ami-0f8692a4a769c17e4\"",
    "concurrentBuilds = 1",
    "distroName = \"freebsd\"",
    "distroVersion = \"122\"",
    "distroArch = \"amd64\"",
    "goldenImagesBranch = \"master\"",
    "agentLabel = \"kitchen-slave\"",
    "testEnvironmentName = \"pytest-zeromq\"",
    "passthroughOptions = \"--ssh-tests\"",
    "pythonVersion = \"py3\"",
    "timeoutMinutes = 360",
    "useSpotInstances = true",
    "# testSplits = [\"unit\", \"integration\"]",
    "# stagedTestRun = false",
    "",
    "[environment]",
    "BRANCH_NAME = \"master\"" ]

/-- The example, a TOML document. -/
def exampleText : String := String.join (exampleLines.map fun line => line ++ "\n")

end TestJob.Reference
