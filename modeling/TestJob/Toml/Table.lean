import TestJob.Toml.Written

/-!
Tables while a document is read. Besides its values a table remembers how it came to be, which
decides what may still be added to it: a header may claim a table that other headers only passed
through, a dotted key may extend only what dotted keys made, and a table or an array written as a
value is closed.
-/

namespace TestJob.Toml

/-- How a table came to be. -/
inductive Origin where
  /-- By a header of its own. -/
  | header
  /-- By a header of a table inside it. -/
  | passed
  /-- By a dotted key. -/
  | dotted
deriving DecidableEq

/-- What a key stands for while a document is read. -/
inductive Entry where
  /-- A value, to which nothing can be added. -/
  | closed (value : Written)
  | table (origin : Origin) (entries : List (String × Entry))
  /-- An array of tables: the earlier ones, last first, and the one that is open. -/
  | tables (earlier : List (List (String × Entry))) (last : List (String × Entry))

/-- The entries of a table. -/
abbrev Entries := Members String Entry

namespace Entries

/-- Gives a key, dotted or not, its value. -/
def assign : List String → Written → Entries → Option Entries
  | [], _, _ => none
  | [key], value, entries =>
    match Members.find? key entries with
    | some _ => none
    | none => some (entries.insert key (.closed value))
  | key :: rest, value, entries =>
    match Members.find? key entries with
    | none => (assign rest value []).map fun inner => entries.insert key (.table .dotted inner)
    | some (.table .dotted inner) =>
      (assign rest value inner).map fun inner => entries.insert key (.table .dotted inner)
    | some (.table .passed inner) =>
      if rest.length = 1 then none
      else (assign rest value inner).map fun inner => entries.insert key (.table .passed inner)
    | some (.tables earlier last) =>
      if rest.length = 1 then none
      else (assign rest value last).map fun last => entries.insert key (.tables earlier last)
    | some _ => none

/-- Changes the table at a path of keys. Missing tables on the way are made, of an array of tables
the last is taken. -/
def within (edit : Entries → Option Entries) : List String → Entries → Option Entries
  | [], entries => edit entries
  | key :: rest, entries =>
    match Members.find? key entries with
    | none => (within edit rest []).map fun inner => entries.insert key (.table .passed inner)
    | some (.table origin inner) =>
      (within edit rest inner).map fun inner => entries.insert key (.table origin inner)
    | some (.tables earlier last) =>
      (within edit rest last).map fun last => entries.insert key (.tables earlier last)
    | some (.closed _) => none

/-- Opens a table by its header. -/
def openTable (key : String) (entries : Entries) : Option Entries :=
  match Members.find? key entries with
  | none => some (entries.insert key (.table .header []))
  | some (.table .passed inner) => some (entries.insert key (.table .header inner))
  | some _ => none

/-- Opens the next table of an array of tables by its header. -/
def appendTable (key : String) (entries : Entries) : Option Entries :=
  match Members.find? key entries with
  | none => some (entries.insert key (.tables [] []))
  | some (.tables earlier last) => some (entries.insert key (.tables (last :: earlier) []))
  | some _ => none

end Entries

mutual

/-- The value of an entry once the document is over. -/
def Entry.toWritten : Entry → Written
  | .closed value => value
  | .table _ entries => .table (membersOf [] entries)
  | .tables earlier last => .array (tablesOf [.table (membersOf [] last)] earlier)

/-- The values of entries, after those already made (last first). -/
def membersOf (made : List (String × Written)) :
    List (String × Entry) → List (String × Written)
  | [] => made.reverse
  | (key, entry) :: rest => membersOf ((key, entry.toWritten) :: made) rest

/-- The tables of an array, in front of those already made, from the last to the first. -/
def tablesOf (made : List Written) : List (List (String × Entry)) → List Written
  | [] => made
  | entries :: rest => tablesOf (.table (membersOf [] entries) :: made) rest

end

end TestJob.Toml
