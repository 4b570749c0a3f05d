import Broadway.Proofs.Call.Entry
import Broadway.Proofs.Run.Sentinel

/-!
# Reachable states

What is reachable from a reset is what steps, runs and calls make of it, in any order, while the
host may set memory, the limit and general purpose registers in between
(`Interpreter.Reachable`).

Stepping, running and calling move addresses about, but the flags are the business of instructions
alone. So a property of the flags that a reset establishes and that each instruction keeps
(`FlagInvariant`) holds at all times: after a step, at every point and at the end of a run, and in
everything that is reachable (`FlagInvariant.reachable`).
-/

namespace Broadway

/-! ## Flags -/

/-- Whether two register files agree in the condition register, XER and the floating point
status. -/
structure Registers.SameFlags (r r' : Registers) : Prop where
  cr : r'.cr = r.cr
  xer : r'.xer = r.xer
  fpscr : r'.fpscr = r.fpscr

theorem FunctionCall.sameFlags_enter (c : FunctionCall) (r : Registers) :
    r.SameFlags (c.enter r) := by
  rw [enter, placeIntegers_eq, placeFloats_eq]
  exact ⟨rfl, rfl, rfl⟩

theorem Interpreter.sameFlags_recordFault (r : Registers) (f : Failure) :
    r.SameFlags (recordFault r f) := by
  rcases f with ⟨cause, address⟩ | reason
  · cases cause <;> exact ⟨rfl, rfl, rfl⟩
  · exact ⟨rfl, rfl, rfl⟩

theorem Registers.sameFlags_setGprs (r : Registers) (gpr : Bank 5 Word) :
    r.SameFlags { r with gpr := gpr } := ⟨rfl, rfl, rfl⟩

theorem Machine.sameFlags_fetched (m : Machine) : m.regs.SameFlags m.fetched.regs :=
  ⟨rfl, rfl, rfl⟩

theorem Machine.sameFlags_advanced (m : Machine) : m.regs.SameFlags m.advanced.regs :=
  ⟨rfl, rfl, rfl⟩

/-- A property of the flags that holds after a reset and that every instruction keeps, whether it
completes or fails. -/
structure FlagInvariant (P : Registers → Prop) : Prop where
  flags {r r' : Registers} (h : r.SameFlags r') (hr : P r) : P r'
  initial : P .initial
  execute (m : Machine) (w : Word) (hm : P m.regs) : P (m.execute w).machine.regs

/-! ## Reachable interpreters -/

/-- What comes about from a reset. -/
inductive Interpreter.Reachable : Interpreter → Prop
  | initial (ram : Ram) (limit : Nat) : Reachable (initial ram limit)
  | reset {i : Interpreter} (h : Reachable i) : Reachable i.reset
  /-- The host has set memory, the limit or general purpose registers. -/
  | prepared {i j : Interpreter} (h : Reachable i) (gpr : Bank 5 Word)
      (hregs : j.regs = { i.regs with gpr := gpr }) : Reachable j
  | step {i : Interpreter} (h : Reachable i) : Reachable i.step.1
  | run {i j : Interpreter} {fuel : Nat} {t : Termination} (h : Reachable i)
      (hrun : i.run fuel = some (j, t)) : Reachable j
  | evaluate {i j : Interpreter} {fuel : Nat} {c : FunctionCall}
      {result : Except CallError CallResult} (h : Reachable i)
      (hcall : i.evaluate fuel c = some (j, result)) : Reachable j

namespace FlagInvariant

variable {P : Registers → Prop} (hP : FlagInvariant P)
include hP

/-- One step keeps the invariant, whether it completes or fails. -/
theorem step {m : Machine} (hm : P m.regs) : P m.step.machine.regs := by
  rcases hstep : m.step with ⟨m', _ | f⟩
  · obtain ⟨w, m₁, -, hex, rfl⟩ := Machine.step_completed hstep
    have hexecute := hP.execute m.fetched w (hP.flags m.sameFlags_fetched hm)
    rw [hex] at hexecute
    exact hP.flags m₁.sameFlags_advanced hexecute
  · rcases Machine.step_failed hstep with ⟨rfl, -⟩ | ⟨w, -, hex⟩
    · exact hm
    · have hexecute := hP.execute m.fetched w (hP.flags m.sameFlags_fetched hm)
      rwa [hex] at hexecute

/-- Every point of a run keeps the invariant. -/
theorem visits {i : Interpreter} {k : Nat} {m : Machine} (h : i.Visits k m) (hi : P i.regs) :
    P m.regs := by
  induction h with
  | start => exact hi
  | next _ _ hstep ih =>
      have hnext := hP.step ih
      rwa [hstep] at hnext

/-- The end of a run keeps the invariant. -/
theorem ends {i : Interpreter} {k : Nat} {m : Machine} {t : Termination} (h : i.Ends k m t)
    (hi : P i.regs) : P m.regs := by
  cases h with
  | stopped hm _ => exact hP.visits hm hi
  | failed hm _ hstep =>
      have hfailed := hP.step (hP.visits hm hi)
      rw [hstep] at hfailed
      exact hP.flags (Interpreter.sameFlags_recordFault _ _) hfailed

theorem entering {i : Interpreter} (hi : P i.regs) (c : FunctionCall) :
    P (i.entering c).regs :=
  hP.flags (c.sameFlags_enter i.regs) hi

/-- The end of a call keeps the invariant, and so does a call that is refused. -/
theorem evaluate {i j : Interpreter} {fuel : Nat} {c : FunctionCall}
    {result : Except CallError CallResult} (h : i.evaluate fuel c = some (j, result))
    (hi : P i.regs) : P j.regs := by
  cases result with
  | ok r =>
      obtain ⟨k, m, hend, rfl⟩ := Interpreter.ends_of_evaluate h
      exact hP.ends hend (hP.entering hi c)
  | error e =>
      obtain rfl := Interpreter.eq_of_evaluate_error h
      exact hi

/-- An invariant of the flags holds of everything that is reachable. -/
theorem reachable {i : Interpreter} (h : i.Reachable) : P i.regs := by
  induction h with
  | initial => exact hP.initial
  | reset => exact hP.initial
  | prepared _ gpr hregs ih =>
      rw [hregs]
      exact hP.flags (Registers.sameFlags_setGprs _ gpr) ih
  | @step i _ ih =>
      rw [Interpreter.regs, i.machine_step]
      exact hP.step ih
  | run _ hrun ih =>
      obtain ⟨k, m, -, hend, rfl⟩ := Interpreter.run_eq_some_iff.1 hrun
      exact hP.ends hend ih
  | evaluate _ hcall ih => exact hP.evaluate hcall ih

end FlagInvariant

/-! ## Changes over a run -/

/-- What has become of the flags from one time to a later one, if stepping and running play no part
in it. -/
structure FlagCourse (R : Registers → Registers → Prop) : Prop where
  flags {r r' : Registers} (h : r.SameFlags r') : R r r'
  trans {r r' r'' : Registers} (h : R r r') (h' : R r' r'') : R r r''

/-- The word that a run executes after `k` instructions, and the machine on which it does. -/
def Interpreter.Executes (i : Interpreter) (k : Nat) (m : Machine) (w : Word) : Prop :=
  ∃ before, i.Visits k before ∧ Window.read before.ram 4 before.regs.pc = .ok w ∧
    m = before.fetched

/-- Among the first `k` instructions of a run is one whose word is of some kind. -/
def Interpreter.ExecutesSome (i : Interpreter) (k : Nat) (P : Word → Prop) : Prop :=
  ∃ j < k, ∃ before w, i.Executes j before w ∧ P w

/-- What only words of some kind make of the flags, a run makes of them by such a word. -/
theorem FlagCourse.executesSome {R : Registers → Registers → Prop} (hR : FlagCourse R)
    {P : Word → Prop} (hP : ∀ (m : Machine) w, ¬ R m.regs (m.execute w).machine.regs → P w)
    {i : Interpreter} {k : Nat} {m : Machine} (h : i.Visits k m) (hm : ¬ R i.regs m.regs) :
    i.ExecutesSome k P := by
  induction h with
  | start => exact absurd (hR.flags ⟨rfl, rfl, rfl⟩) hm
  | @next k m m' hvisit hgo hstep ih =>
      by_cases hearlier : R i.regs m.regs
      · -- so far all was well, and neither fetching nor moving on touches the flags
        obtain ⟨w, m₁, hread, hexecuted, rfl⟩ := Machine.step_completed hstep
        refine ⟨k, Nat.lt_succ_self k, m.fetched, w, ⟨m, hvisit, hread, rfl⟩, hP m.fetched w ?_⟩
        rw [hexecuted]
        intro hkept
        have hfetched := hR.trans hearlier (hR.flags m.sameFlags_fetched)
        exact hm (hR.trans (hR.trans hfetched hkept) (hR.flags m₁.sameFlags_advanced))
      · obtain ⟨j, hj, hexecutes⟩ := ih hearlier
        exact ⟨j, Nat.lt_succ_of_lt hj, hexecutes⟩

end Broadway
