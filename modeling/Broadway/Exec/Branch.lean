import Broadway.Registers

/-!
# Branches

A conditional branch asks for a bit of the condition register, for the count register after it has
been decremented, for both or for neither; `BranchPolicy` names the nine cases. Branches write the
address of the next instruction and never the current one.

* A branch to the link register clears the two low bits of its target, except when the target is
  the address that stands for the host (`returnSentinel`), which no other branch can reach.
-/

namespace Broadway

/-- The return address of a call from the host. It is no instruction address: its low bits are
set. -/
def returnSentinel : Word := 0xDEADBEEF#32

/-- What a conditional branch asks for; the count register is decremented before it is tested. -/
inductive BranchPolicy
  | decrementNonZeroFalse
  | decrementZeroFalse
  | ifFalse
  | decrementNonZeroTrue
  | decrementZeroTrue
  | ifTrue
  | decrementNonZero
  | decrementZero
  | always
  deriving DecidableEq

namespace BranchPolicy

/-- The policy of a BO field. From the most significant bit: the condition is ignored, the value
that it must have, the count is ignored, it must be zero; the last bit is a hint. -/
def ofBo (bo : BitVec 5) : BranchPolicy :=
  match bo.getLsbD 4, bo.getLsbD 3, bo.getLsbD 2, bo.getLsbD 1 with
  | false, false, false, false => .decrementNonZeroFalse
  | false, false, false, true => .decrementZeroFalse
  | false, false, true, _ => .ifFalse
  | false, true, false, false => .decrementNonZeroTrue
  | false, true, false, true => .decrementZeroTrue
  | false, true, true, _ => .ifTrue
  | true, _, false, false => .decrementNonZero
  | true, _, false, true => .decrementZero
  | true, _, true, _ => .always

/-- Whether the count register is decremented. -/
def decrements : BranchPolicy → Bool
  | .ifFalse | .ifTrue | .always => false
  | _ => true

/-- Whether the branch is taken, given the count after the decrement and the condition bit. -/
def taken (p : BranchPolicy) (ctr : Word) (condition : Bool) : Bool :=
  match p with
  | .decrementNonZeroFalse => ctr != 0 && !condition
  | .decrementZeroFalse => ctr == 0 && !condition
  | .ifFalse => !condition
  | .decrementNonZeroTrue => ctr != 0 && condition
  | .decrementZeroTrue => ctr == 0 && condition
  | .ifTrue => condition
  | .decrementNonZero => ctr != 0
  | .decrementZero => ctr == 0
  | .always => true

end BranchPolicy

/-- An address with its two low bits cleared. -/
def aligned (a : Word) : Word := a &&& ~~~3#32

namespace Registers

/-- The address that a branch goes to. -/
def destination (r : Registers) : Target → Word
  | .relative d => r.pc + d
  | .absolute a => a
  | .link => if r.lr = returnSentinel then r.lr else aligned r.lr
  | .count => aligned r.ctr

/-- Puts the return address into the link register, if asked to. -/
def linked (r : Registers) (lk : Bool) : Registers := if lk then { r with lr := r.pc + 4 } else r

end Registers

namespace BranchInstr

def exec (i : BranchInstr) (r : Registers) : Registers :=
  match i with
  | .always target lk => { r with npc := r.destination target }.linked lk
  | .conditional bo bi target lk =>
    let policy := BranchPolicy.ofBo bo
    let ctr := if policy.decrements then r.ctr - 1 else r.ctr
    let npc := if policy.taken ctr (r.crBit bi) then r.destination target else r.npc
    { r with ctr := ctr, npc := npc }.linked lk

end BranchInstr

end Broadway
