import Broadway.Proofs.Exec.Frame

/-!
# What instructions leave alone

Most instructions compute: they change numbers and flags, but neither where the program is nor how
the processor is set up. `Registers.control` is that second part of the registers. Every unit but
branches and system instructions keeps all of it (`Instr.control_exec`); what the two others do to
the address of the next instruction is said by `Instr.goesTo`, exactly and for every instruction
(`Instr.npc_exec`). No instruction changes the address of the current one (`Instr.pc_exec`).
-/

namespace Broadway

/-- The registers that say where the program is and how the processor is set up. -/
structure Control where
  lr : Word
  ctr : Word
  pc : Word
  npc : Word
  msr : Word
  srr0 : Word
  srr1 : Word
  dar : Word
  dsisr : Word
  tb : BitVec 64
  sr : Bank 4 Word
  gqr : Bank 3 Word
  spr : Bank 10 Word

namespace Registers

def control (r : Registers) : Control where
  lr := r.lr
  ctr := r.ctr
  pc := r.pc
  npc := r.npc
  msr := r.msr
  srr0 := r.srr0
  srr1 := r.srr1
  dar := r.dar
  dsisr := r.dsisr
  tb := r.tb
  sr := r.sr
  gqr := r.gqr
  spr := r.spr

variable (r : Registers)

/-- A special register with a number is never the address of an instruction. -/
@[simp]
theorem pc_setSpecial (n : Nat) (v : Word) : (r.setSpecial n v).pc = r.pc := by
  simp only [setSpecial, apply_ite pc, ite_self]

@[simp]
theorem npc_setSpecial (n : Nat) (v : Word) : (r.setSpecial n v).npc = r.npc := by
  simp only [setSpecial, apply_ite npc, ite_self]

@[simp]
theorem pc_linked (lk : Bool) : (r.linked lk).pc = r.pc := by
  cases lk <;> rfl

@[simp]
theorem npc_linked (lk : Bool) : (r.linked lk).npc = r.npc := by
  cases lk <;> rfl

end Registers

/-! ## Units that compute -/

theorem FixedInstr.control_exec (i : FixedInstr) (r : Registers) :
    (i.exec r).control = r.control := by
  rw [i.frame r]
  rfl

theorem ConditionInstr.control_exec (i : ConditionInstr) (r : Registers) :
    (i.exec r).control = r.control := by
  rw [i.frame r]
  rfl

theorem FloatInstr.control_exec (i : FloatInstr) (r : Registers) :
    (i.exec r).control = r.control := by
  rw [i.frame r]
  rfl

theorem PairedInstr.control_exec (i : PairedInstr) (r : Registers) :
    (i.exec r).control = r.control := by
  rw [i.frame r]
  rfl

theorem MemoryInstr.control_exec (i : MemoryInstr) (m : Machine) :
    (i.exec m).machine.regs.control = m.regs.control := by
  rcases i.regs_cases m with hregs | ⟨-, hregs⟩ | ⟨rd, address, -, -, v, hregs⟩ |
    ⟨rs, address, -, -, flags, hregs⟩
  all_goals
    rw [hregs]
    rfl

/-! ## The next instruction -/

/-- Whether a conditional branch is taken. -/
def Registers.taken (r : Registers) (bo bi : BitVec 5) : Bool :=
  let policy := BranchPolicy.ofBo bo
  policy.taken (if policy.decrements then r.ctr - 1 else r.ctr) (r.crBit bi)

namespace Instr

/-- Whether an instruction is neither a branch nor a system instruction. -/
def computes : Instr → Bool
  | .branch _ | .system _ => false
  | _ => true

/-- The address at which an instruction lets the program go on, if it completes. -/
def goesTo (i : Instr) (r : Registers) : Word :=
  match i with
  | .branch (.always target _) => r.destination target
  | .branch (.conditional bo bi target _) =>
    if r.taken bo bi then r.destination target else r.npc
  | .system .call => r.vectorBase ||| systemCallVector
  | .system .returnFromInterrupt => aligned r.srr0
  | _ => r.npc

/-- An instruction that computes keeps the control registers, whether it completes or not. -/
theorem control_exec {i : Instr} (h : i.computes = true) (m : Machine) :
    (i.exec m).machine.regs.control = m.regs.control := by
  cases i with
  | branch | system => contradiction
  | fixed i => exact i.control_exec m.regs
  | condition i => exact i.control_exec m.regs
  | float i => exact i.control_exec m.regs
  | paired i => exact i.control_exec m.regs
  | memory i => exact i.control_exec m
  | trap options ra b =>
      simp only [exec]
      split <;> rfl

theorem pc_exec (i : Instr) (m : Machine) : (i.exec m).machine.regs.pc = m.regs.pc := by
  cases i with
  | branch i =>
      show (i.exec m.regs).pc = m.regs.pc
      cases i <;> simp [BranchInstr.exec]
  | system i =>
      show (i.exec m.regs).pc = m.regs.pc
      cases i with
      | fromTimeBase rd upper => cases upper <;> rfl
      | toSpecial n rs => exact Registers.pc_setSpecial ..
      | _ => rfl
  | _ => exact congrArg Control.pc (control_exec rfl m)

theorem npc_exec (i : Instr) (m : Machine) :
    (i.exec m).machine.regs.npc = i.goesTo m.regs := by
  cases i with
  | branch i =>
      show (i.exec m.regs).npc = (Instr.branch i).goesTo m.regs
      cases i <;> simp [BranchInstr.exec, goesTo, Registers.taken]
  | system i =>
      show (i.exec m.regs).npc = (Instr.system i).goesTo m.regs
      cases i with
      | fromTimeBase rd upper => cases upper <;> rfl
      | toSpecial n rs => exact Registers.npc_setSpecial ..
      | _ => rfl
  | _ => exact congrArg Control.npc (control_exec rfl m)

end Instr

namespace Machine

/-- What completes is an instruction. -/
theorem execute_completed {m m' : Machine} {w : Word} (h : m.execute w = ⟨m', none⟩) :
    ∃ i, Instr.ofWord w = .ok i ∧ i.exec m = ⟨m', none⟩ := by
  cases hi : Instr.ofWord w with
  | ok i => exact ⟨i, rfl, by rw [← execute_of_ofWord hi, h]⟩
  | error e =>
      rw [execute_of_error hi] at h
      cases h

theorem pc_execute (m : Machine) (w : Word) : (m.execute w).machine.regs.pc = m.regs.pc := by
  cases hi : Instr.ofWord w with
  | ok i =>
      rw [execute_of_ofWord hi]
      exact Instr.pc_exec i m
  | error e =>
      rw [execute_of_error hi]
      rfl

end Machine

end Broadway
