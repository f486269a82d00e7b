/-!
Dates and times as TOML writes them, checked against the calendar. The text of a date or time is
its canonical spelling: a capital `T` and `Z`, seconds always, no superfluous digit in a fraction.
-/

namespace TestJob.Toml

/-- A day of the calendar. -/
structure Date where
  year : Nat
  month : Nat
  day : Nat
deriving DecidableEq

/-- A time of day. -/
structure Time where
  hour : Nat
  minute : Nat
  second : Nat
  nanosecond : Nat
deriving DecidableEq

/-- How far a clock is from universal time. -/
inductive Offset where
  | utc
  | minutes (value : Int)
deriving DecidableEq

/-- A date, a time, or both, with an offset or without. -/
inductive Datetime where
  | date (date : Date)
  | time (time : Time)
  | both (date : Date) (time : Time) (offset : Option Offset)
deriving DecidableEq

/-- The value of two digits. -/
def twoDigits? (a b : Char) : Option Nat :=
  if a.isDigit && b.isDigit then some (10 * (a.toNat - '0'.toNat) + (b.toNat - '0'.toNat)) else none

namespace Date

/-- Whether a year has a 29th of February. -/
def isLeap (year : Nat) : Bool := year % 4 = 0 && (year % 100 ≠ 0 || year % 400 = 0)

/-- The days of a month. -/
def daysIn (year month : Nat) : Nat :=
  if month = 2 then (if isLeap year then 29 else 28)
  else if month = 4 ∨ month = 6 ∨ month = 9 ∨ month = 11 then 30
  else 31

/-- Reads `YYYY-MM-DD` and gives what follows. -/
def read? : List Char → Option (Date × List Char)
  | y₁ :: y₂ :: y₃ :: y₄ :: '-' :: m₁ :: m₂ :: '-' :: d₁ :: d₂ :: rest => do
    let century ← twoDigits? y₁ y₂
    let year := 100 * century + (← twoDigits? y₃ y₄)
    let month ← twoDigits? m₁ m₂
    let day ← twoDigits? d₁ d₂
    if 1 ≤ month ∧ month ≤ 12 ∧ 1 ≤ day ∧ day ≤ daysIn year month then
      some (⟨year, month, day⟩, rest)
    else none
  | _ => none

end Date

namespace Time

/-- The nanoseconds of the digits of a fraction; those after the ninth are dropped. -/
def nanosecondsOf (digits : List Char) : Nat :=
  ((digits ++ List.replicate 9 '0').take 9).foldl
    (fun value c => 10 * value + (c.toNat - '0'.toNat)) 0

/-- Reads seconds and a fraction, if they are there. -/
def readSeconds? : List Char → Option ((Nat × Nat) × List Char)
  | ':' :: s₁ :: s₂ :: rest => do
    let second ← twoDigits? s₁ s₂
    match rest with
    | '.' :: rest =>
      let digits := rest.takeWhile Char.isDigit
      if digits.isEmpty then none
      else some ((second, nanosecondsOf digits), rest.dropWhile Char.isDigit)
    | rest => some ((second, 0), rest)
  | ':' :: _ => none
  | rest => some ((0, 0), rest)

/-- Reads `HH:MM`, then seconds if they are there, and gives what follows. Second 60 is allowed. -/
def read? : List Char → Option (Time × List Char)
  | h₁ :: h₂ :: ':' :: m₁ :: m₂ :: rest => do
    let hour ← twoDigits? h₁ h₂
    let minute ← twoDigits? m₁ m₂
    let ((second, nanosecond), rest) ← readSeconds? rest
    if hour ≤ 23 ∧ minute ≤ 59 ∧ second ≤ 60 then some (⟨hour, minute, second, nanosecond⟩, rest)
    else none
  | _ => none

end Time

namespace Offset

/-- Reads an offset that is all of the rest, or nothing. -/
def read? : List Char → Option (Option Offset)
  | [] => some none
  | ['Z'] => some (some .utc)
  | ['z'] => some (some .utc)
  | [sign, h₁, h₂, ':', m₁, m₂] => do
    let hours ← twoDigits? h₁ h₂
    let minutes ← twoDigits? m₁ m₂
    let total : Int := 60 * hours + minutes
    if hours ≤ 23 ∧ minutes ≤ 59 then
      if sign = '+' then some (some (.minutes total))
      else if sign = '-' then some (some (.minutes (-total)))
      else none
    else none
  | _ => none

end Offset

namespace Datetime

/-- Reads a date, a time or both. -/
def ofChars? (cs : List Char) : Option Datetime :=
  match Date.read? cs with
  | some (d, []) => some (.date d)
  | some (d, mark :: rest) =>
    if mark = 'T' ∨ mark = 't' ∨ mark = ' ' then do
      let (t, rest) ← Time.read? rest
      return .both d t (← Offset.read? rest)
    else none
  | none =>
    match Time.read? cs with
    | some (t, []) => some (.time t)
    | _ => none

/-- A number in decimal, with zeros in front up to a width. -/
def padded (width n : Nat) : String :=
  let digits := Nat.toDigits 10 n
  String.ofList (List.replicate (width - digits.length) '0' ++ digits)

/-- The text of a date. -/
def dateText (d : Date) : String :=
  padded 4 d.year ++ "-" ++ padded 2 d.month ++ "-" ++ padded 2 d.day

/-- The text of a fraction of a second, without zeros at its end. -/
def fractionText (nanosecond : Nat) : String :=
  if nanosecond = 0 then ""
  else
    let digits := (padded 9 nanosecond).toList.reverse.dropWhile (· = '0')
    String.ofList ('.' :: digits.reverse)

/-- The text of a time. -/
def timeText (t : Time) : String :=
  padded 2 t.hour ++ ":" ++ padded 2 t.minute ++ ":" ++ padded 2 t.second ++
    fractionText t.nanosecond

/-- The text of an offset; no offset is negative zero. -/
def offsetText : Offset → String
  | .utc => "Z"
  | .minutes value =>
    let size := value.natAbs
    (if value < 0 then "-" else "+") ++ padded 2 (size / 60) ++ ":" ++ padded 2 (size % 60)

/-- The canonical text. -/
def text : Datetime → String
  | date d => dateText d
  | time t => timeText t
  | both d t offset => dateText d ++ "T" ++ timeText t ++ (offset.map offsetText).getD ""

end Datetime

end TestJob.Toml
