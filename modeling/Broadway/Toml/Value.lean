/-!
# TOML values

What a document holds once it is read. Numbers with a fraction and moments in time are told apart
from the other values, but what they are is not kept: no setting is one.
-/

namespace Broadway.Toml

inductive Value
  | string (s : String)
  | integer (n : Int)
  | float
  | boolean (b : Bool)
  | moment
  | array (items : List Value)
  | table (entries : List (String × Value))

/-- Whether a value is an array or a table with nothing in it. -/
def Value.isEmpty : Value → Bool
  | .array [] | .table [] => true
  | _ => false

end Broadway.Toml
