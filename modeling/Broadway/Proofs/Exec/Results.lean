import Broadway.Proofs.Checked.Run
import Broadway.Proofs.Exec.Sums

/-!
# What a fixed point result leaves

Register arithmetic and shifts hand over a word, with a carry or an overflow if they have one
(`ArithResult`). `Registers.Receives` says what is to be found in the registers afterwards, and
`Machine.Receives` what a word leaves that hands over such a result. An instruction that writes its
result back leaves just that (`Machine.receives_of_finish`), so it remains to say what the result is.
-/

namespace Broadway

open Opcode

/-- A signed number is a word if its word stands for it. -/
theorem fitsWord_iff (n : Int) : FitsWord n ↔ (BitVec.ofInt 32 n).toInt = n := by
  constructor
  · rintro ⟨hlow, hhigh⟩
    rw [BitVec.toInt_ofInt]
    apply Int.bmod_eq_of_le_mul_two
    · show -(2 ^ 32 : Int) ≤ n * 2
      omega
    · show n * 2 < (2 ^ 32 : Int)
      omega
  · intro h
    rw [← h]
    exact ⟨BitVec.le_toInt _, BitVec.toInt_lt⟩

/-- What is recorded of a result: the overflow is asked for by a bit of the word. -/
def ArithResult.recording (x : ArithResult) (oe : Bool) : ArithResult :=
  { x with overflow := if oe then x.overflow else none }

/-- What a result leaves in the registers: `r` is before it and `r'` after it. A carry or an overflow
that the result does not have is kept. -/
structure Registers.Receives (r : Registers) (rd : Reg) (rc : Bool) (x : ArithResult)
    (r' : Registers) : Prop where
  result : r'.gpr.read rd = x.value
  others : ∀ i, i ≠ rd → r'.gpr.read i = r.gpr.read i
  carry : r'.carry = x.carry.getD r.carry
  overflow : r'.overflow = x.overflow.getD r.overflow
  /-- An overflow is summarised, and the summary is never cleared. -/
  summary : r'.summaryOverflow = (r.summaryOverflow || x.overflow.getD false)
  /-- The record is of the result and of the summary overflow after the update. -/
  recorded : rc = true →
    r'.cr = Condition.setField r.cr 0 (resultField x.value.toInt r'.summaryOverflow)
  unrecorded : rc = false → r'.cr = r.cr
  /-- Nothing else changes, neither in XER nor in the other registers. -/
  xer_kept : r'.xer &&& ~~~(Xer.ca ||| Xer.ov ||| Xer.so) =
    r.xer &&& ~~~(Xer.ca ||| Xer.ov ||| Xer.so)
  frame : r' = { r with gpr := r'.gpr, cr := r'.cr, xer := r'.xer }

/-- A result that is written back leaves in the registers what is recorded of it. -/
theorem Registers.receives_finish (r : Registers) (rd : Reg) (oe rc : Bool) (x : ArithResult) :
    r.Receives rd rc (x.recording oe) (r.finish rd oe rc x) := by
  constructor
  case result =>
    rw [gpr_finish, Bank.read_write_self]
    rfl
  case others =>
    intro i hi
    rw [gpr_finish, Bank.read_write_of_ne _ _ hi.symm]
  case carry => exact r.carry_finish rd oe rc x
  case overflow => exact r.overflow_finish rd oe rc x
  case summary => exact r.summaryOverflow_finish rd oe rc x
  case recorded =>
    intro hrc
    rw [cr_finish, hrc, resultField_eq, BitVec.ofInt_toInt]
    rfl
  case unrecorded =>
    intro hrc
    rw [cr_finish, hrc]
    rfl
  case xer_kept =>
    rw [xer_finish]
    exact r.recorded_and (by decide) (by decide) (by decide) _ _
  case frame => exact r.finish_frame rd oe rc x

/-- What a word leaves that hands over a result: it completes, also under the checks of a debugging
build, changes no memory, and its registers are those that the result calls for. -/
structure Machine.Receives (m : Machine) (w : Word) (rd : Reg) (rc : Bool) (x : ArithResult) :
    Prop where
  completes : (m.execute w).failure = none
  unstopped : Checked.execute m w = .ok (m.execute w)
  memory : (m.execute w).machine.ram = m.ram
  registers : m.regs.Receives rd rc x (m.execute w).machine.regs

namespace Machine

variable {m : Machine} {w : Word}

theorem receives_of_finish {i : FixedInstr} {rd : Reg} {oe rc : Bool} {x : ArithResult}
    (hi : Instr.ofWord w = .ok (.fixed i)) (hexec : i.exec m.regs = m.regs.finish rd oe rc x) :
    m.Receives w rd rc (x.recording oe) := by
  have hdone : m.execute w = m.done (m.regs.finish rd oe rc x) := by
    rw [execute_of_ofWord hi]
    exact congrArg m.done hexec
  constructor
  case completes => rw [hdone, failure_done]
  case unstopped => exact Checked.execute_eq m w
  case memory => rw [hdone, machine_done]
  case registers =>
    rw [hdone, machine_done]
    exact m.regs.receives_finish rd oe rc x

/-- Register arithmetic hands over the result of its opcode. -/
theorem receives_of_arith {op : FixedArith} (hw : op.Selects w) :
    m.Receives w (Field.rt w) (Field.bit31 w)
      ((Arith.eval op (m.regs.gpr.read (Field.ra w)) (m.regs.gpr.read (Field.rb w))
        m.regs.carry).recording (Field.oe w)) :=
  receives_of_finish (Instr.ofWord_of_arith hw) rfl

/-- A shift hands over its word and its carry, if it has one. It has no overflow to record. -/
theorem receives_of_shift {op : Shift} {ra rs : Reg} {amount : Operand} {rc : Bool}
    (hi : Instr.ofWord w = .ok (.fixed (.shift op ra rs amount rc))) :
    m.Receives w ra rc
      ⟨(op.eval (m.regs.gpr.read rs) (m.regs.operand amount)).1,
        (op.eval (m.regs.gpr.read rs) (m.regs.operand amount)).2, none⟩ := by
  have hexec : (FixedInstr.shift op ra rs amount rc).exec m.regs = m.regs.finish ra false rc
      ⟨(op.eval (m.regs.gpr.read rs) (m.regs.operand amount)).1,
        (op.eval (m.regs.gpr.read rs) (m.regs.operand amount)).2, none⟩ := rfl
  exact receives_of_finish hi hexec

end Machine

end Broadway
