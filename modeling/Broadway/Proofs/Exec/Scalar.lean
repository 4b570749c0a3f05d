import Broadway.Proofs.Exec.Lanes

/-!
# Scalar arithmetic

The words of groups 59 and 63 that do arithmetic carry out the same operations, on the first lanes
of their operands, and differ in the precision of what they deliver (`Machine.execute_scalarArith`).
-/

namespace Broadway

open Opcode

/-- The operation of a double precision word; `fsel` has none. -/
def Opcode.DoubleArith.operation? : DoubleArith → Option FloatOp
  | .fadd => some .add
  | .fsub => some .sub
  | .fmul => some .mul
  | .fdiv => some .div
  | .fmadd => some .madd
  | .fmsub => some .msub
  | .fnmadd => some .nmadd
  | .fnmsub => some .nmsub
  | .frsqrte => some .reciprocalSqrt
  | .fsel => none

/-- A word of scalar arithmetic, with its operation and the precision of its result. -/
inductive Word.ScalarArith (w : Word) : FloatOp → Precision → Prop
  | double {op : DoubleArith} {f : FloatOp} (hw : op.Selects w) (hop : op.operation? = some f) :
      ScalarArith w f .double
  | single {op : SingleArith} (hw : op.Selects w) : ScalarArith w op.operation .single

/-- What is delivered of a result in a precision. -/
def Precision.deliver : Precision → Double → Double
  | .double, x => x
  | .single, x => Single.round x

variable {w : Word} {op : FloatOp} {precision : Precision}

theorem Instr.ofWord_of_scalarArith (hw : Word.ScalarArith w op precision) :
    ofWord w = .ok (.float (.arith op precision (Field.rt w) (Field.ra w) (Field.rb w) (Field.rc w)
      (Field.bit31 w))) := by
  cases hw with
  | @double op f hw hop =>
      rw [ofWord_of_doubleArith hw, ofAForm63, hw.ofCode?_aForm]
      cases op <;> cases hop <;> simp only [AForm.decode, reg_setWidth]
  | single hw => exact ofWord_of_scalar hw

namespace Registers

variable (r : Registers) (frt : Reg) (rc : Bool) (x : Double × Word)

theorem ps0_finishFloat (precision : Precision) :
    (r.finishFloat precision frt rc x).ps0 frt = precision.deliver x.1 := by
  cases precision with
  | double =>
      simp only [ps0, finishFloat, fpr_recordStatusIf]
      exact congrArg Lanes.ps0 (Bank.read_write_self ..)
  | single => exact congrArg Lanes.ps0 (r.read_finishFloat_single frt rc x)

theorem fpscr_finishFloat (precision : Precision) :
    (r.finishFloat precision frt rc x).fpscr = Fpscr.setClass x.2 (precision.deliver x.1) := by
  cases precision with
  | double =>
      simp only [finishFloat, fpscr_recordStatusIf]
      rfl
  | single => exact r.fpscr_finishFloat_single frt rc x

end Registers

/-- A word of scalar arithmetic delivers the result of its operation and records its class. -/
theorem Machine.execute_scalarArith (hw : Word.ScalarArith w op precision) (m : Machine) :
    let x := op.evalAt m.regs.fpscr (m.regs.scalarOperand w)
    ∃ r, m.execute w = m.done r ∧ r.ps0 (Field.rt w) = precision.deliver x.1 ∧
      r.fpscr = Fpscr.setClass x.2 (precision.deliver x.1) :=
  ⟨_, execute_of_ofWord (Instr.ofWord_of_scalarArith hw) m, Registers.ps0_finishFloat ..,
    Registers.fpscr_finishFloat ..⟩

end Broadway
