import TestJob.Toml.Quoted
import TestJob.Toml.Scalar
import TestJob.Toml.Table

/-!
Reading a TOML document. Readers take the characters to come and give what they read with the rest.
Values nest by recursion on the nesting still allowed; loops are bounded by the length of the text,
of which each round takes at least one character.
-/

namespace TestJob.Toml

/-- A reader of something at the front of a text. -/
abbrev Reader (α : Type) := List Char → Option (α × List Char)

/-- How many arrays and inline tables may be open at once. -/
def nestingLimit : Nat := 80

/-- How many parts a dotted key may have. -/
def partsLimit : Nat := 80

/-- The blanks that may stand between two words of a line. -/
def isBlank (c : Char) : Bool := c = ' ' || c = '\t'

/-- The text without the blanks at its front. -/
def dropBlanks (cs : List Char) : List Char := cs.dropWhile isBlank

/-- The rest after the end of a line, or at the end of the text. -/
def newline? : List Char → Option (List Char)
  | [] => some []
  | '\n' :: rest => some rest
  | '\r' :: '\n' :: rest => some rest
  | _ => none

/-- The text without the comment at its front. -/
def dropComment : List Char → List Char
  | '#' :: rest => rest.dropWhile Quoted.isText
  | cs => cs

/-- The rest after the end of a line with nothing but blanks and a comment before it. -/
def lineEnd? (cs : List Char) : Option (List Char) := newline? (dropComment (dropBlanks cs))

/-- The rest after blanks, ends of lines and comments. `comment` says that a comment is open. -/
def dropGap? (comment : Bool) : List Char → Option (List Char)
  | [] => some []
  | '\n' :: rest => dropGap? false rest
  | '\r' :: '\n' :: rest => dropGap? false rest
  | c :: rest =>
    if comment then (if Quoted.isText c then dropGap? true rest else none)
    else if isBlank c then dropGap? false rest
    else if c = '#' then dropGap? true rest
    else some (c :: rest)

/-- The characters of a key that is not quoted. -/
def isBare (c : Char) : Bool :=
  c.isDigit || ('a' ≤ c && c ≤ 'z') || ('A' ≤ c && c ≤ 'Z') || c = '_' || c = '-'

/-- One part of a key. -/
def part? : Reader String := fun cs =>
  match cs with
  | '"' :: _ => Quoted.readLine? cs
  | '\'' :: _ => Quoted.readLine? cs
  | _ =>
    let bare := cs.takeWhile isBare
    if bare.isEmpty then none else some (String.ofList bare, cs.dropWhile isBare)

/-- A key of at most so many parts with points between them, and the blanks after it. -/
def keyWithin? : Nat → Reader (List String)
  | 0, _ => none
  | parts + 1, cs => do
    let (first, rest) ← part? cs
    match dropBlanks rest with
    | '.' :: rest =>
      let (others, rest) ← keyWithin? parts (dropBlanks rest)
      some (first :: others, rest)
    | rest => some ([first], rest)

/-- A key, dotted or not. -/
def key? : Reader (List String) := keyWithin? partsLimit

/-- Whether a character may belong to a value that is one word. A quote inside it begins no text. -/
def isWord (c : Char) : Bool :=
  !(isBlank c || c = '\n' || c = '\r' || c = ',' || c = '[' || c = ']' || c = '\x7b' ||
    c = '\x7d' || c = '#' || c = '=')

/-- A value that is one word; a date and a time with one blank between them are one word too. -/
def word? : Reader Written := fun cs =>
  let word := cs.takeWhile isWord
  let rest := cs.dropWhile isWord
  match Date.read? word, rest with
  | some (_, []), ' ' :: next :: rest =>
    if next.isDigit then
      let time := (next :: rest).takeWhile isWord
      (scalar? (word ++ ' ' :: time)).map fun value => (value, (next :: rest).dropWhile isWord)
    else (scalar? word).map fun value => (value, ' ' :: next :: rest)
  | _, _ => (scalar? word).map fun value => (value, rest)

/-- The items of an array after those already read (last first), with its closing bracket. -/
def items? (value? : Reader Written) : Nat → List Written → Reader (List Written)
  | 0, _, _ => none
  | rounds + 1, read, cs => do
    match ← dropGap? false cs with
    | ']' :: rest => some (read.reverse, rest)
    | cs =>
      let (value, rest) ← value? cs
      match ← dropGap? false rest with
      | ',' :: rest => items? value? rounds (value :: read) rest
      | ']' :: rest => some ((value :: read).reverse, rest)
      | _ => none

/-- The entries of an inline table after those already read, with its closing brace. -/
def inlineEntries? (value? : Reader Written) : Nat → Entries → Reader Entries
  | 0, _, _ => none
  | rounds + 1, read, cs => do
    match ← dropGap? false cs with
    | '\x7d' :: rest => some (read, rest)
    | cs =>
      let (key, rest) ← key? cs
      match ← dropGap? false rest with
      | '=' :: rest =>
        let (value, rest) ← value? (← dropGap? false rest)
        let read ← read.assign key value
        match ← dropGap? false rest with
        | ',' :: rest => inlineEntries? value? rounds read rest
        | '\x7d' :: rest => some (read, rest)
        | _ => none
      | _ => none

/-- A value with at most so many arrays and inline tables open at once. -/
def valueWithin? (depth : Nat) : Reader Written := fun cs =>
  match cs with
  | '"' :: _ => (Quoted.read? cs).map fun (text, rest) => (.string text, rest)
  | '\'' :: _ => (Quoted.read? cs).map fun (text, rest) => (.string text, rest)
  | '[' :: rest =>
    match depth with
    | 0 => none
    | depth + 1 =>
      (items? (valueWithin? depth) cs.length [] rest).map fun (items, rest) => (.array items, rest)
  | '\x7b' :: rest =>
    match depth with
    | 0 => none
    | depth + 1 =>
      (inlineEntries? (valueWithin? depth) cs.length [] rest).map fun (entries, rest) =>
        (.table (membersOf [] entries), rest)
  | _ => word? cs

/-- A value. -/
def value? : Reader Written := valueWithin? nestingLimit

/-- What has been read of a document: the path of the last header, and all entries. -/
structure Draft where
  header : List String
  entries : Entries

namespace Draft

/-- Takes the header of a table, or of the next table of an array. -/
def takeHeader? (draft : Draft) (path : List String) (array : Bool) : Option Draft :=
  match path.getLast? with
  | none => none
  | some key =>
    let edit := if array then Entries.appendTable key else Entries.openTable key
    (Entries.within edit path.dropLast draft.entries).map fun entries => ⟨path, entries⟩

/-- Takes a value under the last header. -/
def takeValue? (draft : Draft) (key : List String) (value : Written) : Option Draft :=
  (Entries.within (Entries.assign key value) draft.header draft.entries).map fun entries =>
    ⟨draft.header, entries⟩

/-- One line with what it says: a header, a key with a value, or nothing. -/
def line? (draft : Draft) : Reader Draft := fun cs =>
  match dropBlanks cs with
  | '[' :: '[' :: rest => do
    let (path, rest) ← key? (dropBlanks rest)
    match rest with
    | ']' :: ']' :: rest => return (← draft.takeHeader? path true, ← lineEnd? rest)
    | _ => none
  | '[' :: rest => do
    let (path, rest) ← key? (dropBlanks rest)
    match rest with
    | ']' :: rest => return (← draft.takeHeader? path false, ← lineEnd? rest)
    | _ => none
  | cs =>
    match lineEnd? cs with
    | some rest => some (draft, rest)
    | none => do
      let (key, rest) ← key? cs
      match rest with
      | '=' :: rest =>
        let (value, rest) ← value? (dropBlanks rest)
        return (← draft.takeValue? key value, ← lineEnd? rest)
      | _ => none

/-- Line after line to the end of the text. -/
def lines? : Nat → Draft → List Char → Option Draft
  | _, draft, [] => some draft
  | 0, _, _ => none
  | rounds + 1, draft, cs =>
    match draft.line? cs with
    | some (draft, rest) => lines? rounds draft rest
    | none => none

end Draft

/-- The text without the byte order mark at its front. -/
def dropMark : List Char → List Char
  | '\uFEFF' :: rest => rest
  | cs => cs

/-- The table of a document as it is written. -/
def readWritten? (text : String) : Option (List (String × Written)) :=
  let cs := dropMark text.toList
  (Draft.lines? cs.length ⟨[], []⟩ cs).map fun draft => membersOf [] draft.entries

/-- The table of a document. It is a table whatever its keys are. -/
def read? (text : String) : Option (List (String × Toml)) :=
  (readWritten? text).bind (Written.membersToToml? [])

end TestJob.Toml
