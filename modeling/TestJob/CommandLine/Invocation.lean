import TestJob.Path
import TestJob.Text.Utf8

/-!
Command lines. A command line names one command; options stand before and after its name, each with
a value, attached by an equals sign or as the next argument. `Invocation.ofArguments?` gives
nothing for a command line that is used wrongly: the options of a command are spelled out in full,
paths are not empty, and only prefixes may be given more than once.
-/

namespace TestJob

/-- Which definition to work on: its file, and the prefixes of variables to capture. -/
structure DefinitionChoice where
  path : Option Path
  prefixes : List String
deriving DecidableEq

/-- What to do with the reference page. -/
inductive PageAction where
  | show
  | write (path : Path)
  | check (path : Path)
deriving DecidableEq

/-- A command. -/
inductive Command where
  | validate (choice : DefinitionChoice)
  | normalize (choice : DefinitionChoice)
  | submit (choice : DefinitionChoice) (handoff : Path)
  | schema
  | sample
  | page (action : PageAction)
deriving DecidableEq

/-- A command with the audit log to keep. -/
structure Invocation where
  auditLog : Option Path
  command : Command
deriving DecidableEq

namespace CommandLine

/-- The options there are. -/
inductive OptionName where
  | auditLog
  | definition
  | captureEnvironment
  | handoff
  | out
  | check
deriving DecidableEq

/-- How an option is spelled. -/
def OptionName.spelling : OptionName → Bytes
  | auditLog => Utf8.encode "--audit-log"
  | definition => Utf8.encode "--definition"
  | captureEnvironment => Utf8.encode "--capture-env"
  | handoff => Utf8.encode "--handoff"
  | out => Utf8.encode "--out"
  | check => Utf8.encode "--check"

/-- An option with its value. -/
abbrev Setting := OptionName × Bytes

/-- The dash with which options begin. -/
def dash : UInt8 := 0x2D

/-- The sign between an option and an attached value. -/
def equalsSign : UInt8 := 0x3D

/-- Whether an argument may be the value of the option before it. -/
def isValue (argument : Bytes) : Bool := argument.head? ≠ some dash || argument = [dash]

/-- The option that an argument spells. -/
def option? (allowed : List OptionName) (argument : Bytes) : Option OptionName :=
  allowed.find? fun name => name.spelling = argument

/-- The option and the value that one argument holds. -/
def attached? (allowed : List OptionName) (argument : Bytes) : Option Setting :=
  match argument.dropWhile (· ≠ equalsSign) with
  | [] => none
  | _ :: value => do
    let name ← option? allowed (argument.takeWhile (· ≠ equalsSign))
    return (name, value)

/-- The options at the beginning of the arguments, and the arguments after them. An option without
a value is none of both. -/
def settings? (allowed : List OptionName) : List Bytes → Option (List Setting × List Bytes)
  | [] => some ([], [])
  | argument :: rest =>
    match attached? allowed argument with
    | some setting => do
      let (settings, rest) ← settings? allowed rest
      return (setting :: settings, rest)
    | none =>
      match option? allowed argument with
      | none => some ([], argument :: rest)
      | some name =>
        match rest with
        | [] => none
        | value :: rest =>
          if isValue value then do
            let (settings, rest) ← settings? allowed rest
            return ((name, value) :: settings, rest)
          else none

/-- The values of an option. -/
def values (name : OptionName) (settings : List Setting) : List Bytes :=
  (settings.filter fun setting => setting.1 = name).map Prod.snd

/-- The path that an option gives: at most one, and not an empty one. -/
def path? (name : OptionName) (settings : List Setting) : Option (Option Path) :=
  match values name settings with
  | [] => some none
  | [value] => if value = [] then none else some (some ⟨value⟩)
  | _ => none

/-- The definition that options choose. -/
def choice? (settings : List Setting) : Option DefinitionChoice := do
  let path ← path? .definition settings
  let prefixes ← (values .captureEnvironment settings).mapM Utf8.decode?
  return ⟨path, prefixes⟩

/-- The commands there are. -/
inductive CommandName where
  | validate
  | normalize
  | submit
  | schema
  | sample
  | page
deriving DecidableEq

namespace CommandName

/-- How a command is spelled. -/
def spelling : CommandName → Bytes
  | validate => Utf8.encode "validate"
  | normalize => Utf8.encode "normalize"
  | submit => Utf8.encode "submit"
  | schema => Utf8.encode "schema"
  | sample => Utf8.encode "example"
  | page => Utf8.encode "docs"

/-- The command that an argument spells. -/
def ofArgument? (argument : Bytes) : Option CommandName :=
  [validate, normalize, submit, schema, sample, page].find? fun name => name.spelling = argument

/-- The options that a command has of its own. -/
def options : CommandName → List OptionName
  | validate => [.definition, .captureEnvironment]
  | normalize => [.definition, .captureEnvironment]
  | submit => [.definition, .captureEnvironment, .handoff]
  | schema => []
  | sample => []
  | page => [.out, .check]

/-- The command with its options. -/
def command? (settings : List Setting) : CommandName → Option Command
  | validate => (choice? settings).map .validate
  | normalize => (choice? settings).map .normalize
  | submit => do
    let choice ← choice? settings
    let handoff ← path? .handoff settings
    return .submit choice (← handoff)
  | schema => some .schema
  | sample => some .sample
  | page => do
    match ← path? .out settings, ← path? .check settings with
    | none, none => return .page .show
    | some path, none => return .page (.write path)
    | none, some path => return .page (.check path)
    | some _, some _ => none

end CommandName

end CommandLine

open CommandLine in
/-- The invocation that a command line stands for. Of two audit logs the one after the name of the
command counts; two dashes may end the options of a command, with nothing after them. -/
def Invocation.ofArguments? (arguments : List Bytes) : Option Invocation := do
  let (before, rest) ← settings? [.auditLog] arguments
  let name ← rest.head? >>= CommandName.ofArgument?
  let (after, rest) ← settings? (.auditLog :: name.options) rest.tail
  if rest = [] ∨ rest = [[dash, dash]] then
    let outer ← path? .auditLog before
    let inner ← path? .auditLog after
    return ⟨inner.or outer, ← name.command? after⟩
  else none

end TestJob
