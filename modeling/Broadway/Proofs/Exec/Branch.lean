import Broadway.Exec
import Broadway.Proofs.Instr.Reads

/-!
# Conditional branches

The architecture defines a conditional branch by the bits of its BO field, one bit of the condition
register and the count register (`Registers.countAfter`, `Registers.branches`), for every value of
BO. Execution classifies the field into nine policies instead, and decides by the policy.

* The classification loses nothing: a policy decrements and is taken as the bits of BO say
  (`BranchPolicy.decrements_eq`, `BranchPolicy.taken_eq`).
* So a word that branches leaves what the definition says, and nothing else
  (`conditional_branch_exact`).
-/

namespace Broadway

open Opcode

/-! ## The definition -/

namespace Registers

variable (r : Registers)

/-- The count register after a branch: it is decremented unless the third bit of BO is set. -/
def countAfter (bo : BitVec 5) : Word := if bo.getMsbD 2 then r.ctr else r.ctr - 1

/-- Whether a branch is taken. The count has to be ignored or to be, after the decrement, other than
zero as the fourth bit of BO asks; the condition has to be ignored or to be as the second bit asks.
All bits are numbered from the most significant one. -/
def branches (bo bi : BitVec 5) : Bool :=
  (bo.getMsbD 2 || ((r.countAfter bo != 0) ^^ bo.getMsbD 3)) &&
    (bo.getMsbD 0 || r.cr.getMsbD bi.toNat == bo.getMsbD 1)

/-- The registers after a branch that goes to some target if it is taken. -/
def branched (bo bi : BitVec 5) (target : Word) (lk : Bool) : Registers :=
  { r with
    ctr := r.countAfter bo
    npc := if r.branches bo bi then target else r.npc
    lr := if lk then r.pc + 4 else r.lr }

end Registers

/-! ## Policies -/

namespace BranchPolicy

/-- A bit of BO as the classification numbers it. -/
theorem getMsbD_bo (bo : BitVec 5) {i : Nat} (h : i < 5) : bo.getMsbD i = bo.getLsbD (4 - i) := by
  rw [BitVec.getMsbD_eq_getLsbD, decide_eq_true h, Bool.true_and]

theorem decrements_eq (bo : BitVec 5) : (ofBo bo).decrements = !bo.getMsbD 2 := by
  rw [getMsbD_bo bo (by decide), ofBo]
  cases bo.getLsbD 4 <;> cases bo.getLsbD 3 <;> cases bo.getLsbD 2 <;> cases bo.getLsbD 1 <;> rfl

/-- A policy looks at the count only to see whether it is zero, so four bits and two answers decide
all cases. -/
theorem taken_eq (bo : BitVec 5) (ctr : Word) (condition : Bool) :
    (ofBo bo).taken ctr condition =
      ((bo.getMsbD 2 || ((ctr != 0) ^^ bo.getMsbD 3)) &&
        (bo.getMsbD 0 || condition == bo.getMsbD 1)) := by
  rw [getMsbD_bo bo (by decide), getMsbD_bo bo (by decide), getMsbD_bo bo (by decide),
    getMsbD_bo bo (by decide), ofBo]
  -- one policy asks for a count of zero, the formula for a count that is not
  have hzero : (ctr == 0#32) = !(ctr != 0#32) := by rw [bne, Bool.not_not]
  cases bo.getLsbD 4 <;> cases bo.getLsbD 3 <;> cases bo.getLsbD 2 <;> cases bo.getLsbD 1 <;>
    cases condition <;> simp [taken, hzero]

end BranchPolicy

/-! ## Instructions -/

/-- A bit of the condition register is numbered from the most significant one. -/
theorem Registers.crBit_eq (r : Registers) (bi : BitVec 5) :
    r.crBit bi = r.cr.getMsbD bi.toNat := by
  rw [BitVec.getMsbD_eq_getLsbD, decide_eq_true bi.isLt, Bool.true_and]
  rfl

theorem BranchInstr.exec_conditional (bo bi : BitVec 5) (target : Target) (lk : Bool)
    (r : Registers) :
    (conditional bo bi target lk).exec r = r.branched bo bi (r.destination target) lk := by
  have hcount : (if (BranchPolicy.ofBo bo).decrements then r.ctr - 1 else r.ctr) =
      r.countAfter bo := by
    rw [BranchPolicy.decrements_eq, Registers.countAfter]
    cases bo.getMsbD 2 <;> rfl
  have htaken : (BranchPolicy.ofBo bo).taken (r.countAfter bo) (r.crBit bi) =
      r.branches bo bi := by
    rw [BranchPolicy.taken_eq, Registers.crBit_eq, Registers.branches]
  simp only [exec, hcount, htaken]
  cases lk <;> rfl

/-! ## Words -/

namespace Instr

variable {w : Word}

theorem ofWord_of_conditional (hw : Primary.bc.Selects w) :
    ofWord w = .ok (.branch (.conditional (Field.rt w) (Field.ra w)
      (if Field.aa w then .absolute (Field.bd w) else .relative (Field.bd w))
      (Field.bit31 w))) := by
  have hkind : FormKind.ofTables? w = some .b := by
    rw [FormKind.ofTables?, hw.found]
    rfl
  rw [ofWord_of_tables hkind, Form.decode, ofForm, ofBForm]
  simp only [BForm.decode, reg_setWidth]
  rfl

/-- A word of group 19 is read from three condition register bits. -/
theorem ofWord_of_control {op : Opcode.Control} (hw : op.Selects w) :
    ofWord w = ofXlForm (.decode w) := by
  have hkind : FormKind.ofTables? w = some .xl := by
    rw [FormKind.ofTables?_group19 hw.1, hw.found]
    rfl
  rw [ofWord_of_tables hkind, Form.decode, ofForm]

theorem ofWord_of_bclr (hw : Opcode.Control.bclr.Selects w) :
    ofWord w = .ok (.branch (.conditional (Field.rt w) (Field.ra w) .link (Field.bit31 w))) := by
  rw [ofWord_of_control hw, ofXlForm, hw.ofCode?_xlForm]
  simp only [XlForm.decode, reg_setWidth]

theorem ofWord_of_bcctr (hw : Opcode.Control.bcctr.Selects w) :
    ofWord w =
      if (Field.rt w).getMsbD 2 then
        .ok (.branch (.conditional (Field.rt w) (Field.ra w) .count (Field.bit31 w)))
      else .error (.countingBranch (Field.rt w)) := by
  rw [ofWord_of_control hw, ofXlForm, hw.ofCode?_xlForm, BranchPolicy.getMsbD_bo _ (by decide)]
  simp only [XlForm.decode, reg_setWidth]

end Instr

/-- The bit of BO that has the count ignored, as a mask. -/
theorem BranchPolicy.mask_eq_zero_iff (bo : BitVec 5) :
    bo &&& 0b00100#5 = 0#5 ↔ bo.getMsbD 2 = false := by
  revert bo
  decide

/-- **Conditional branches are those of the architecture**, for every state and every word: a branch
to an address that the word holds, to the link register as it was before, or to the count register,
which is refused if it would count. -/
theorem conditional_branch_exact (m : Machine) (w : Word) :
    let r := m.regs
    let bo := Field.rt w
    let branch (target : Word) : Outcome :=
      m.done (r.branched bo (Field.ra w) target (Field.bit31 w))
    (Primary.bc.Selects w →
      m.execute w = branch (if Field.aa w then Field.bd w else r.pc + Field.bd w)) ∧
    (Opcode.Control.bclr.Selects w →
      m.execute w = branch (if r.lr = returnSentinel then r.lr else r.lr &&& ~~~3#32)) ∧
    (Opcode.Control.bcctr.Selects w →
      m.execute w =
        if bo &&& 0b00100#5 = 0#5 then m.fail (.invalid (.countingBranch bo))
        else branch (r.ctr &&& ~~~3#32)) := by
  intro r bo branch
  have hbranch {target : Target} (hi : Instr.ofWord w =
      .ok (.branch (.conditional bo (Field.ra w) target (Field.bit31 w)))) :
      m.execute w = branch (r.destination target) := by
    rw [Machine.execute_of_ofWord hi]
    exact congrArg m.done (BranchInstr.exec_conditional ..)
  refine ⟨fun hw => ?_, fun hw => ?_, fun hw => ?_⟩
  · rw [hbranch (Instr.ofWord_of_conditional hw)]
    cases Field.aa w <;> rfl
  · exact hbranch (Instr.ofWord_of_bclr hw)
  · have hi := Instr.ofWord_of_bcctr hw
    by_cases hcounts : bo &&& 0b00100#5 = 0#5
    · rw [(BranchPolicy.mask_eq_zero_iff bo).1 hcounts] at hi
      rw [if_pos hcounts, Machine.execute_of_error hi]
    · rw [Bool.of_not_eq_false (mt (BranchPolicy.mask_eq_zero_iff bo).2 hcounts)] at hi
      rw [if_neg hcounts]
      exact hbranch hi

/-- `bdnzflrl 6`, with a count of zero: it goes round to the largest word, the equal bit of field
one is clear, and the branch goes where the link register was before it got the return address. -/
theorem conditional_branch_exact_round :
    let r : Registers := { Registers.initial with lr := 0x1237#32, pc := 0x100#32 }
    let m : Machine := ⟨r, .ofBytes .empty⟩
    let w := 0x4C060021#32
    Opcode.Control.bclr.Selects w ∧
      m.execute w =
        m.done { r with ctr := 0xFFFFFFFF#32, npc := 0x1234#32, lr := 0x104#32 } := by
  intro r m w
  have hw : Opcode.Control.bclr.Selects w := by decide
  have hfields : Field.rt w = 0 ∧ Field.ra w = 6 ∧ Field.bit31 w = true := by decide
  have htarget : (if r.lr = returnSentinel then r.lr else r.lr &&& ~~~3#32) = 0x1234#32 := by
    decide
  have hcount : r.countAfter 0 = 0xFFFFFFFF#32 := by decide
  have htaken : r.branches 0 6 = true := by decide
  refine ⟨hw, ?_⟩
  rw [(conditional_branch_exact m w).2.1 hw]
  show m.done (r.branched (Field.rt w) (Field.ra w) (if _ then _ else _) (Field.bit31 w)) = _
  rw [htarget, hfields.1, hfields.2.1, hfields.2.2, Registers.branched, hcount, htaken]
  rfl

end Broadway
