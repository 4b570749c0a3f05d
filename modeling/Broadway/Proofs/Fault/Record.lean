import Broadway.Proofs.Exec.Control
import Broadway.Proofs.Run.Trace

/-!
# What the fault registers hold

A data access fault leaves its address in one register and its cause in another, where a handler
looks for them. Otherwise these two (`FaultRegister`) are the guest's: of all instructions only a
move to a special register changes them (`FaultRegister.read_exec`), so in a run they hold what
was last moved to them (`Interpreter.Visits.read_faultRegister`), up to the record of the failure
that may end the run (`Interpreter.Ends.read_faultRegister`).
-/

namespace Broadway

/-- The registers in which a data access fault is recorded. -/
inductive FaultRegister
  /-- The address of the access. -/
  | dar
  /-- The cause of the fault. -/
  | dsisr

namespace FaultRegister

/-- The number of the register among the special purpose registers. -/
def number : FaultRegister → Nat
  | .dar => Spr.dar
  | .dsisr => Spr.dsisr

def read (q : FaultRegister) (r : Registers) : Word :=
  match q with
  | .dar => r.dar
  | .dsisr => r.dsisr

/-- What the end of a run leaves in the register, if it leaves something there. -/
def left? (q : FaultRegister) (t : Termination) : Option Word :=
  match q, t with
  | .dar, .faulted .dsi address _ => some address
  | .dar, .faulted .alignment address _ => some address
  | .dsisr, .faulted .dsi _ _ => some notMapped
  | _, _ => none

/-- Only a data storage fault leaves something, and an alignment fault its address. -/
theorem left?_eq_none {q : FaultRegister} {t : Termination}
    (hdsi : ∀ address pc, t ≠ .faulted .dsi address pc)
    (halignment : q = .dar → ∀ address pc, t ≠ .faulted .alignment address pc) :
    q.left? t = none := by
  cases t with
  | faulted cause address pc =>
      cases cause with
      | dsi => exact absurd rfl (hdsi address pc)
      | alignment =>
          cases q with
          | dar => exact absurd rfl (halignment rfl address pc)
          | dsisr => rfl
      | _ => cases q <;> rfl
  | _ => cases q <;> rfl

end FaultRegister

/-! ## Moves by the guest -/

/-- The word that an instruction moves to the special register with the number `n`, if it does. -/
def Instr.moved? (n : Nat) (i : Instr) (r : Registers) : Option Word :=
  match i with
  | .system (.toSpecial n' rs) => if n'.toNat = n then some (r.gpr.read rs) else none
  | _ => none

namespace Machine

/-- The word that the next instruction moves to a special register, if it does. -/
def moved? (n : Nat) (m : Machine) : Option Word :=
  match Window.read m.ram 4 m.regs.pc with
  | .error _ => none
  | .ok w =>
    match Instr.ofWord w with
    | .error _ => none
    | .ok i => i.moved? n m.regs

/-- The word that the first `k` instructions last move to a special register, if one does. -/
def written? (n : Nat) (m : Machine) : (k : Nat) → Option Word
  | 0 => none
  | k + 1 => ((m.after k).bind (moved? n)).or (m.written? n k)

theorem moved?_of_fetch {n : Nat} {m : Machine} {w : Word} {i : Instr}
    (hread : Window.read m.ram 4 m.regs.pc = .ok w) (hi : Instr.ofWord w = .ok i) :
    m.moved? n = i.moved? n m.regs := by
  simp only [moved?, hread, hi]

end Machine

/-! ## Instructions and steps -/

namespace FaultRegister

variable (q : FaultRegister)

theorem read_of_control {r s : Registers} (h : r.control = s.control) : q.read r = q.read s := by
  cases q with
  | dar => exact congrArg Control.dar h
  | dsisr => exact congrArg Control.dsisr h

theorem number_ne_xer : q.number ≠ Spr.xer := by
  cases q <;> decide

/-- A write to a special register is seen here if it has the number of this one. -/
theorem read_setSpecial (r : Registers) (n : Nat) (v : Word) :
    q.read (r.setSpecial n v) = if n = q.number then v else q.read r := by
  by_cases hn : n = q.number
  · rw [if_pos hn, hn]
    cases q <;> rfl
  · rw [if_neg hn]
    cases q with
    | dar =>
        have hdar : n ≠ Spr.dar := hn
        simp only [read, Registers.setSpecial, apply_ite Registers.dar, if_neg hdar, ite_self]
    | dsisr =>
        have hdsisr : n ≠ Spr.dsisr := hn
        simp only [read, Registers.setSpecial, apply_ite Registers.dsisr, if_neg hdsisr, ite_self]

/-- An instruction leaves in the register what it moves there, and else what was there. -/
theorem read_exec (i : Instr) (m : Machine) :
    q.read (i.exec m).machine.regs = (i.moved? q.number m.regs).getD (q.read m.regs) := by
  cases i with
  | branch i =>
      show q.read (i.exec m.regs) = q.read m.regs
      cases i with
      | always target lk => cases q <;> cases lk <;> rfl
      | conditional bo bi target lk => cases q <;> cases lk <;> rfl
  | system i =>
      show q.read (i.exec m.regs) = ((Instr.system i).moved? q.number m.regs).getD (q.read m.regs)
      cases i with
      | toSpecial n rs =>
          rw [SystemInstr.exec, read_setSpecial, Instr.moved?]
          by_cases hn : n.toNat = q.number
          · -- what is moved to another register than XER is not masked
            have hxer : n.toNat ≠ Spr.xer := hn ▸ q.number_ne_xer
            rw [if_pos hn, if_pos hn, if_neg hxer, Option.getD_some]
          · rw [if_neg hn, if_neg hn, Option.getD_none]
      | fromTimeBase rd upper => cases q <;> cases upper <;> rfl
      | _ => cases q <;> rfl
  | _ => exact q.read_of_control (Instr.control_exec rfl m)

/-- What fails moves nothing. -/
theorem moved?_of_failed {i : Instr} {m : Machine} {f : Failure} {n : Nat}
    (h : (i.exec m).failure = some f) : i.moved? n m.regs = none := by
  cases i with
  | branch | system => contradiction
  | _ => rfl

theorem read_execute_failed {m m' : Machine} {w : Word} {f : Failure}
    (h : m.execute w = ⟨m', some f⟩) : q.read m'.regs = q.read m.regs := by
  cases hi : Instr.ofWord w with
  | error e =>
      rw [Machine.execute_of_error hi] at h
      cases h
      rfl
  | ok i =>
      rw [Machine.execute_of_ofWord hi] at h
      have hread := q.read_exec i m
      rw [moved?_of_failed (by rw [h]), h] at hread
      exact hread

theorem read_step_failed {m m' : Machine} {f : Failure} (h : m.step = ⟨m', some f⟩) :
    q.read m'.regs = q.read m.regs := by
  rcases Machine.step_failed h with ⟨rfl, -⟩ | ⟨w, -, hex⟩
  · rfl
  · rw [q.read_execute_failed hex]
    cases q <;> rfl

theorem read_step_completed {m m' : Machine} (h : m.step = ⟨m', none⟩) :
    q.read m'.regs = (m.moved? q.number).getD (q.read m.regs) := by
  obtain ⟨w, m₁, hread, hcompleted, rfl⟩ := Machine.step_completed h
  obtain ⟨i, hi, hex⟩ := Machine.execute_completed hcompleted
  have hexec := q.read_exec i m.fetched
  rw [hex] at hexec
  rw [Machine.moved?_of_fetch hread hi]
  -- neither the fetch nor the advance touches the register
  cases q <;> exact hexec

/-- The record of a failure is what the end of the run leaves. -/
theorem read_recordFault (r : Registers) (f : Failure) (pc : Word) :
    q.read (Interpreter.recordFault r f) = (q.left? (.ofFailure f pc)).getD (q.read r) := by
  cases f with
  | invalid reason => cases q <;> rfl
  | fault cause address => cases q <;> cases cause <;> rfl

end FaultRegister

/-! ## Runs -/

namespace Interpreter

variable {i : Interpreter} {k : Nat} {m : Machine} {t : Termination} (q : FaultRegister)

/-- At every point of a run a fault register holds what the guest last moved there, and until then
what it held before. -/
theorem Visits.read_faultRegister (h : i.Visits k m) :
    q.read m.regs = (i.machine.written? q.number k).getD (q.read i.machine.regs) := by
  induction h with
  | start => rfl
  | @next k m m' hm _ hstep ih =>
      rw [q.read_step_completed hstep, ih, Machine.written?, hm.after_eq, Option.bind_some]
      cases m.moved? q.number with
      | none => rfl
      | some v => rfl

/-- At the end of a run a fault register holds the record of the failure, if there is one for it,
and else what the guest last moved there. -/
theorem Ends.read_faultRegister (h : i.Ends k m t) :
    q.read m.regs =
      ((q.left? t).or (i.machine.written? q.number k)).getD (q.read i.machine.regs) := by
  cases h with
  | stopped hm hstop =>
      -- to stop is to return or to have reached the limit, of which there is no record
      have hleft : q.left? t = none := by
        rcases of_stop?_eq_some hstop with ⟨rfl, -⟩ | ⟨rfl, -⟩ <;> cases q <;> rfl
      rw [hleft, Option.none_or]
      exact hm.read_faultRegister q
  | @failed _ m' f hm _ hstep =>
      rw [q.read_recordFault _ f m'.regs.pc, q.read_step_failed hstep, hm.read_faultRegister q]
      cases q.left? (.ofFailure f m'.regs.pc) with
      | none => rfl
      | some v => rfl

end Interpreter

end Broadway
