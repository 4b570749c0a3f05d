import Broadway.Registers

/-!
# Condition register instructions

Logic on single bits and moves of whole fields. Each writes the condition register only, apart from
the two moves that have another register as their source or target: the move to a register, and the
move from XER, which clears what it took.
-/

namespace Broadway

def Logic.evalBit : Logic → Bool → Bool → Bool
  | .and, a, b => a && b
  | .andc, a, b => a && !b
  | .or, a, b => a || b
  | .orc, a, b => a || !b
  | .xor, a, b => a != b
  | .nand, a, b => !(a && b)
  | .nor, a, b => !(a || b)
  | .eqv, a, b => a == b

namespace ConditionInstr

def exec (i : ConditionInstr) (r : Registers) : Registers :=
  match i with
  | .moveField target source => r.setCrField target (r.crField source)
  | .combine op target a b => r.setCrBit target (op.evalBit (r.crBit a) (r.crBit b))
  | .toRegister rd => r.setGpr rd r.cr
  | .fromRegister mask rs => { r with cr := Condition.blend mask r.cr (r.gpr.read rs) }
  | .fromXer field =>
    { r.setCrField field (r.xer.extractLsb' 28 4) with xer := r.xer &&& 0x0FFFFFFF#32 }

end ConditionInstr

end Broadway
