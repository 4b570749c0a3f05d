import Broadway.Proofs.Exec.Branch
import Broadway.Proofs.Exec.WriteSets
import Broadway.Proofs.Run.Code
import Broadway.Proofs.Run.Stretch

/-!
# System calls and their return

A system call saves the address of the next instruction in SRR0 and some bits of the machine state
in SRR1, clears others, and goes on in the guest's handler; the return from an interrupt puts the
saved bits back. Three masks share the bits of the machine state among them. Two bits are cleared
and not saved, `Msr.lost`; every other one is saved if it is cleared (`Msr.restored`).

* A call changes the registers that it is about and no others (`Machine.step_call`), and so does a
  return (`Machine.step_returnFromInterrupt`).
* A handler of any length that writes neither the two saving registers nor the machine state brings
  the caller back to where it was, in the machine state that it had but for the lost bits
  (`system_call_returns`).
-/

namespace Broadway

open Opcode

/-- Bits of the machine state that a system call clears and no return brings back. -/
def Msr.lost : Word := 0x00040004#32

/-- Each bit of the machine state is left alone, or saved and put back, or lost. -/
theorem Msr.restored (msr : Word) :
    ((msr &&& ~~~clearedOnInterrupt &&& ~~~saved) ||| (msr &&& saved &&& saved)) &&& ~~~pow =
      msr &&& ~~~lost := by
  have hmasks : (~~~clearedOnInterrupt &&& ~~~saved ||| saved &&& saved) &&& ~~~pow = ~~~lost := by
    decide
  rw [BitVec.and_assoc, BitVec.and_assoc, ← BitVec.and_or_distrib_left, BitVec.and_assoc, hmasks]

/-- An address that is aligned is what is left of it. -/
theorem aligned_eq_self {a : Word} (h : a.setWidth 2 = 0#2) : aligned a = a := by
  apply BitVec.eq_of_getLsbD_eq
  intro i hi
  have hmask : (~~~3#32).getLsbD i = decide (2 ≤ i) := by
    revert hi i
    decide
  rw [aligned, BitVec.getLsbD_and, hmask]
  by_cases hlow : i < 2
  · have hzero : (a.setWidth 2).getLsbD i = false := by rw [h, BitVec.getLsbD_zero]
    rw [BitVec.getLsbD_setWidth, decide_eq_true hlow, Bool.true_and] at hzero
    rw [hzero, Bool.false_and]
  · rw [decide_eq_true (Nat.le_of_not_lt hlow), Bool.and_true]

namespace Instr

variable {w : Word}

theorem ofWord_of_sc (hw : Primary.sc.Selects w) : ofWord w = .ok (.system .call) := by
  have hkind : FormKind.ofTables? w = some .sc := by
    rw [FormKind.ofTables?, hw.found]
    rfl
  rw [ofWord_of_tables hkind, Form.decode, ofForm]

theorem ofWord_of_rfi (hw : Opcode.Control.rfi.Selects w) :
    ofWord w = .ok (.system .returnFromInterrupt) := by
  rw [ofWord_of_control hw, ofXlForm, hw.ofCode?_xlForm]

end Instr

/-! ## Steps -/

namespace Registers

/-- Where a system call is handled. -/
def callEntry (r : Registers) : Word :=
  if r.msr &&& Msr.ip = 0 then 0x80000C00#32 else 0xFFF00C00#32

theorem vectorBase_or (r : Registers) : r.vectorBase ||| systemCallVector = r.callEntry := by
  unfold callEntry vectorBase
  by_cases hip : r.msr &&& Msr.ip = 0
  · rw [if_pos hip, hip]
    rfl
  · rw [if_neg hip, if_pos (bne_iff_ne.2 hip)]
    rfl

/-- The registers at the entry of the handler of a system call. -/
def called (r : Registers) : Registers :=
  { r with
    msr := r.msr &&& ~~~Msr.clearedOnInterrupt
    srr0 := r.pc + 4
    srr1 := r.msr &&& Msr.saved
    pc := r.callEntry
    npc := r.callEntry
    tb := r.tb + 1 }

/-- The registers behind a return from an interrupt. -/
def returned (r : Registers) : Registers :=
  { r with
    msr := ((r.msr &&& ~~~Msr.saved) ||| (r.srr1 &&& Msr.saved)) &&& ~~~Msr.pow
    reservation := none
    pc := aligned r.srr0
    npc := aligned r.srr0
    tb := r.tb + 1 }

end Registers

theorem SystemInstr.exec_call (r : Registers) :
    call.exec r =
      { r with
        srr0 := r.pc + 4
        srr1 := r.msr &&& Msr.saved
        msr := r.msr &&& ~~~Msr.clearedOnInterrupt
        npc := r.callEntry } := by
  rw [← r.vectorBase_or]
  rfl

namespace Machine

variable {m : Machine} {w : Word}

theorem step_call (hread : Window.read m.ram 4 m.regs.pc = .ok w) (hw : Primary.sc.Selects w) :
    m.step = ⟨⟨m.regs.called, m.ram⟩, none⟩ := by
  have hdone := execute_of_ofWord (Instr.ofWord_of_sc hw) m.fetched
  exact step_of_done hread (hdone.trans (congrArg m.fetched.done (SystemInstr.exec_call _)))

theorem step_returnFromInterrupt (hread : Window.read m.ram 4 m.regs.pc = .ok w)
    (hw : Opcode.Control.rfi.Selects w) : m.step = ⟨⟨m.regs.returned, m.ram⟩, none⟩ :=
  step_of_done hread (execute_of_ofWord (Instr.ofWord_of_rfi hw) m.fetched)

end Machine

/-! ## Handlers -/

/-- A word writes nothing that a return from an interrupt depends on. -/
def Word.KeepsReturn (w : Word) : Prop := ∀ p ∈ [Part.msr, .srr0, .srr1], ¬ p.WrittenBy w

/-- What a return depends on is behind a handler what it was before. -/
theorem Machine.Stretch.keepsReturn {m m' : Machine} (h : m.Stretch Word.KeepsReturn m') :
    m'.regs.msr = m.regs.msr ∧ m'.regs.srr0 = m.regs.srr0 ∧ m'.regs.srr1 = m.regs.srr1 := by
  have hkept (p : Part) (hp : p ∈ [Part.msr, .srr0, .srr1]) (m : Machine) (w : Word)
      (hw : w.KeepsReturn) : p.Same m.regs (m.execute w).machine.regs :=
    Classical.byContradiction fun hne => hw p hp (m.writtenBy_of_changed w p hne)
  refine ⟨?msr, ?srr0, ?srr1⟩
  case msr =>
    exact h.keeps Registers.msr (fun _ _ _ _ => rfl) (hkept .msr (by decide))
  case srr0 =>
    exact h.keeps Registers.srr0 (fun _ _ _ _ => rfl) (hkept .srr0 (by decide))
  case srr1 =>
    exact h.keeps Registers.srr1 (fun _ _ _ _ => rfl) (hkept .srr1 (by decide))

/-- **A system call and the return from it bring the caller back**, for every state, whatever the
machine state is.

* The call completes, changes the registers that `Registers.called` names and nothing else, and
  goes on at the vector that the machine state asks for.
* Behind any handler that writes none of the machine state, SRR0 and SRR1, a return from the
  interrupt goes on at the word behind the call, in the machine state that was there before it but
  for two bits, which are clear. No reservation outlives it. -/
theorem system_call_returns (m : Machine) {w : Word}
    (hread : Window.read m.ram 4 m.regs.pc = .ok w) (hw : Primary.sc.Selects w)
    (haligned : m.regs.pc.setWidth 2 = 0#2) :
    m.step = ⟨⟨m.regs.called, m.ram⟩, none⟩ ∧
    m.step.machine.regs.pc =
      (if m.regs.msr &&& Msr.ip = 0 then 0x80000C00#32 else 0xFFF00C00#32) ∧
    ∀ m' w', m.step.machine.Stretch Word.KeepsReturn m' →
      Window.read m'.ram 4 m'.regs.pc = .ok w' → Opcode.Control.rfi.Selects w' →
      m'.step.failure = none ∧
      m'.step.machine.regs.pc = m.regs.pc + 4 ∧
      m'.step.machine.regs.msr = m.regs.msr &&& ~~~0x00040004#32 ∧
      m'.step.machine.regs.reservation = none := by
  have hcall := Machine.step_call hread hw
  refine ⟨hcall, by rw [hcall]; rfl, ?_⟩
  intro m' w' hhandler hread' hw'
  rw [hcall] at hhandler
  obtain ⟨hmsr, hsrr0, hsrr1⟩ := hhandler.keepsReturn
  rw [Machine.step_returnFromInterrupt hread' hw']
  refine ⟨rfl, ?resumes, ?restored, rfl⟩
  case resumes =>
    show aligned m'.regs.srr0 = m.regs.pc + 4
    rw [hsrr0]
    exact aligned_eq_self (setWidth_next haligned)
  case restored =>
    show ((m'.regs.msr &&& ~~~Msr.saved) ||| (m'.regs.srr1 &&& Msr.saved)) &&& ~~~Msr.pow = _
    rw [hmsr, hsrr1]
    exact Msr.restored m.regs.msr

/-- With all bits of the machine state set but the one that moves the vectors, `sc` leads to the low
vector. From there the host brings the guest to a handler that counts in r3 and returns. -/
theorem system_call_returns_counting :
    let ram : Ram := .ofBytes ⟨#[0x44, 0, 0, 2, 0x38, 0x63, 0, 1, 0x4C, 0, 0, 0x64]⟩
    let m : Machine := ⟨{ Registers.initial with pc := 0x80000000#32, msr := 0xFFFFFFBF#32 }, ram⟩
    let called := m.step.machine
    let handler : Machine := ⟨{ called.regs with pc := 4#32 }, ram⟩
    let handled := handler.step.machine
    called.regs.pc = 0x80000C00#32 ∧ handled.step.failure = none ∧
      handled.step.machine.regs.pc = 0x80000004#32 ∧
      handled.step.machine.regs.msr = 0xFFFBFFBB#32 ∧
      handled.step.machine.regs.reservation = none := by
  intro ram m called handler handled
  obtain ⟨hcall, hentry, hreturns⟩ :=
    system_call_returns m (by decide : Window.read m.ram 4 m.regs.pc = .ok 0x44000002#32)
      (by decide) (by decide)
  have hvector : m.regs.msr &&& Msr.ip = 0 := by decide
  rw [if_pos hvector] at hentry
  have hcount : Window.read handler.ram 4 handler.regs.pc = .ok 0x38630001#32 := by decide
  have hkeeps : Word.KeepsReturn 0x38630001#32 := by
    intro p hp
    obtain rfl | rfl | rfl : p = .msr ∨ p = .srr0 ∨ p = .srr1 := by simpa using hp
    all_goals
      unfold Part.WrittenBy Part.Moves
      decide
  have hhandler : called.Stretch Word.KeepsReturn handled := by
    refine (Machine.Stretch.start.moved 4#32 called.regs.npc called.regs.tb ram).stepped ?_
    intro w hw
    rw [hcount] at hw
    cases hw
    exact hkeeps
  have hrfi : Window.read handled.ram 4 handled.regs.pc = .ok 0x4C000064#32 := by decide +kernel
  obtain ⟨hcompleted, hresumed, hrestored, hreservation⟩ :=
    hreturns handled _ hhandler hrfi (by decide)
  exact ⟨hentry, hcompleted, hresumed.trans (by decide), hrestored.trans (by decide), hreservation⟩

end Broadway
