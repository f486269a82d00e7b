import TestJob.Decimal.Binary64
import TestJob.Members
import TestJob.Toml.Datetime

/-!
TOML values. Integers have 64 bits with a sign; floats may be infinite or not a number; tables have
their keys in ascending order.
-/

namespace TestJob

/-- A TOML float. -/
inductive Toml.Real where
  | finite (value : Binary64)
  | infinite (negative : Bool)
  | notANumber
deriving DecidableEq

/-- A whole number that a signed word of 64 bits holds. -/
def Toml.Fits (n : Int) : Prop := -9223372036854775808 ≤ n ∧ n < 9223372036854775808

instance Toml.decidableFits (n : Int) : Decidable (Toml.Fits n) :=
  inferInstanceAs (Decidable (_ ∧ _))

/-- A TOML value. -/
inductive Toml where
  | string (value : String)
  | integer (value : Int) (fits : Toml.Fits value)
  | float (value : Toml.Real)
  | boolean (value : Bool)
  | datetime (value : Toml.Datetime)
  | array (items : List Toml)
  | table (members : List (String × Toml))

end TestJob
