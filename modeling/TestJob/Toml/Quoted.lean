import TestJob.Toml.Value

/-!
Quoted texts in their four forms. One automaton reads them all, one character at a time: `Quoted`
says which form it is, `Mode` what the last characters were.
-/

namespace TestJob.Toml

/-- The form of a quoted text: its quote, whether it may go over several lines. A single quote
takes its text as it is, a double quote knows escapes. -/
structure Quoted where
  literal : Bool
  lines : Bool
deriving DecidableEq

namespace Quoted

/-- The quote of a form. -/
def quote (q : Quoted) : Char := if q.literal then '\'' else '"'

/-- Where the automaton is. -/
inductive Mode where
  /-- Among the characters of the text. -/
  | plain
  /-- After so many quotes of a text of several lines. -/
  | quotes (count : Nat)
  /-- After a carriage return, which must be followed by a line feed. -/
  | return
  /-- After a backslash. -/
  | escape
  /-- Inside an escape by number: the digits still to come after this one, and the value. -/
  | number (left : Nat) (value : Nat)
  /-- After a backslash and blanks, before the end of the line. -/
  | lineEnd
  /-- After a backslash at the end of a line, before the next character that is no space. -/
  | skip
  /-- The same, after a carriage return. -/
  | skipReturn

/-- What a step leads to: more text, the end after this character, or the end before it. -/
inductive Outcome where
  | more (read : List Char) (mode : Mode)
  | endAfter (read : List Char)
  | endBefore (read : List Char)

/-- Whether a character may stand in a text as it is, the ends of lines apart. -/
def isText (c : Char) : Bool := c = '\t' || (0x20 ≤ c.toNat && c.toNat ≠ 0x7F)

/-- The value of a hexadecimal digit. -/
def hexDigit? (c : Char) : Option Nat :=
  if c.isDigit then some (c.toNat - '0'.toNat)
  else if 'a' ≤ c ∧ c ≤ 'f' then some (c.toNat - 'a'.toNat + 10)
  else if 'A' ≤ c ∧ c ≤ 'F' then some (c.toNat - 'A'.toNat + 10)
  else none

/-- The character of a code point. -/
def ofCode? (code : Nat) : Option Char :=
  if code < 0xD800 ∨ (0xDFFF < code ∧ code < 0x110000) then some (Char.ofNat code) else none

/-- A character of the text. -/
def plainStep (q : Quoted) (read : List Char) (c : Char) : Option Outcome :=
  if c = q.quote then some (if q.lines then .more read (.quotes 1) else .endAfter read)
  else if c = '\\' ∧ q.literal = false then some (.more read .escape)
  else if q.lines ∧ c = '\n' then some (.more (c :: read) .plain)
  else if q.lines ∧ c = '\r' then some (.more read .return)
  else if isText c then some (.more (c :: read) .plain)
  else none

/-- The character after a backslash. -/
def escapeStep (q : Quoted) (read : List Char) (c : Char) : Option Outcome :=
  match c with
  | '"' => some (.more ('"' :: read) .plain)
  | '\\' => some (.more ('\\' :: read) .plain)
  | 'b' => some (.more ('\x08' :: read) .plain)
  | 't' => some (.more ('\t' :: read) .plain)
  | 'n' => some (.more ('\n' :: read) .plain)
  | 'f' => some (.more ('\x0c' :: read) .plain)
  | 'r' => some (.more ('\r' :: read) .plain)
  | 'e' => some (.more ('\x1b' :: read) .plain)
  | 'x' => some (.more read (.number 1 0))
  | 'u' => some (.more read (.number 3 0))
  | 'U' => some (.more read (.number 7 0))
  | _ =>
    if q.lines = false then none
    else if c = ' ' ∨ c = '\t' then some (.more read .lineEnd)
    else if c = '\n' then some (.more read .skip)
    else if c = '\r' then some (.more read .skipReturn)
    else none

/-- So many quotes, put into the text. -/
def pushQuotes (q : Quoted) (count : Nat) (read : List Char) : List Char :=
  List.replicate count q.quote ++ read

/-- One character. Of the quotes at the end of a text of several lines the last three close it, and
at most two stand before them. -/
def step (q : Quoted) (read : List Char) (mode : Mode) (c : Char) : Option Outcome :=
  match mode with
  | .plain => plainStep q read c
  | .quotes count =>
    if c = q.quote then
      if count = 4 then some (.endAfter (q.pushQuotes 2 read))
      else some (.more read (.quotes (count + 1)))
    else if 3 ≤ count then some (.endBefore (q.pushQuotes (count - 3) read))
    else plainStep q (q.pushQuotes count read) c
  | .return => if c = '\n' then some (.more ('\n' :: '\r' :: read) .plain) else none
  | .escape => escapeStep q read c
  | .number left value =>
    match hexDigit? c with
    | none => none
    | some digit =>
      let value := value * 16 + digit
      match left with
      | 0 => (ofCode? value).map fun character => .more (character :: read) .plain
      | left + 1 => some (.more read (.number left value))
  | .lineEnd =>
    if c = ' ' ∨ c = '\t' then some (.more read .lineEnd)
    else if c = '\n' then some (.more read .skip)
    else if c = '\r' then some (.more read .skipReturn)
    else none
  | .skip =>
    if c = ' ' ∨ c = '\t' ∨ c = '\n' then some (.more read .skip)
    else if c = '\r' then some (.more read .skipReturn)
    else plainStep q read c
  | .skipReturn => if c = '\n' then some (.more read .skip) else none

/-- Runs the automaton to the end of the text, and gives what follows. -/
def run (q : Quoted) (read : List Char) (mode : Mode) : List Char → Option (String × List Char)
  | [] =>
    match mode with
    | .quotes count =>
      if 3 ≤ count then some (String.ofList (q.pushQuotes (count - 3) read).reverse, []) else none
    | _ => none
  | c :: rest =>
    match q.step read mode c with
    | none => none
    | some (.more read mode) => run q read mode rest
    | some (.endAfter read) => some (String.ofList read.reverse, rest)
    | some (.endBefore read) => some (String.ofList read.reverse, c :: rest)

/-- The text without the end of a line at its beginning. -/
def dropFirstNewline : List Char → List Char
  | '\n' :: rest => rest
  | '\r' :: '\n' :: rest => rest
  | rest => rest

/-- Reads a text on one line, if one begins here. -/
def readLine? : List Char → Option (String × List Char)
  | '"' :: rest => run ⟨false, false⟩ [] .plain rest
  | '\'' :: rest => run ⟨true, false⟩ [] .plain rest
  | _ => none

/-- Reads a text in any form, if one begins here. -/
def read? : List Char → Option (String × List Char)
  | '"' :: '"' :: '"' :: rest => run ⟨false, true⟩ [] .plain (dropFirstNewline rest)
  | '\'' :: '\'' :: '\'' :: rest => run ⟨true, true⟩ [] .plain (dropFirstNewline rest)
  | cs => readLine? cs

end Quoted

end TestJob.Toml
