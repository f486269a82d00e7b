/-!
Texts measured in code points: centring in a column and cutting to a length.
-/

namespace TestJob.Text

/-- The text in the middle of a column of `width` characters filled with `fill`; of an odd number
of fillers the odd one goes to the right. A text that is too long stays as it is. -/
def centre (width : Nat) (fill : Char) (s : String) : String :=
  let free := width - s.length
  let left := List.replicate (free / 2) fill
  let right := List.replicate (free - free / 2) fill
  String.ofList (left ++ s.toList ++ right)

/-- The first `length` characters of the text. -/
def cut (length : Nat) (s : String) : String := String.ofList (s.toList.take length)

end TestJob.Text
