import Broadway.Proofs.Run.Step

/-!
# The points of a run

A run visits one machine after another (`Interpreter.Visits`) until it ends at one of them
(`Interpreter.Ends`). Fuel drops out here: a run ends for some fuel exactly if it ends in this sense
(`Interpreter.run_eq_some_iff`), and whatever is to be shown of all points of a run goes by
induction on the visits.
-/

namespace Broadway

namespace Machine

/-- The machine after the next step, if that step completes. -/
def next? (m : Machine) : Option Machine :=
  match m.step with
  | ⟨m, none⟩ => some m
  | ⟨_, some _⟩ => none

/-- The machine after `k` steps, if all of them complete. -/
def after (m : Machine) : (k : Nat) → Option Machine
  | 0 => some m
  | k + 1 => (m.after k).bind next?

theorem next?_of_step {m m' : Machine} (h : m.step = ⟨m', none⟩) : m.next? = some m' := by
  rw [next?, h]

end Machine

theorem Termination.ofFailure_ne_completed (f : Failure) (pc : Word) :
    ofFailure f pc ≠ .completed := by
  cases f <;> exact fun h => by contradiction

namespace Interpreter

/-- The interpreter in a run, with `k` instructions executed and `m` for its machine. -/
def point (i : Interpreter) (k : Nat) (m : Machine) : Interpreter :=
  { i with machine := m, state := .running, executed := k }

/-- The interpreter at the end of a run. -/
def ended (i : Interpreter) (k : Nat) (m : Machine) (t : Termination) : Interpreter :=
  { i with machine := m, state := t.state, executed := k }

/-- The run of an interpreter comes to `m` after `k` instructions. -/
inductive Visits (i : Interpreter) : Nat → Machine → Prop
  | start : Visits i 0 i.machine
  | next {k : Nat} {m m' : Machine} (hm : Visits i k m) (hgo : (i.point k m).stop? = none)
      (hstep : m.step = ⟨m', none⟩) : Visits i (k + 1) m'

/-- The run of an interpreter ends after `k` instructions, and leaves `m`: it stops before the next
instruction, or the next instruction fails. -/
inductive Ends (i : Interpreter) : Nat → Machine → Termination → Prop
  | stopped {k : Nat} {m : Machine} {t : Termination} (hm : Visits i k m)
      (hstop : (i.point k m).stop? = some t) : Ends i k m t
  | failed {k : Nat} {m m' : Machine} {f : Failure} (hm : Visits i k m)
      (hgo : (i.point k m).stop? = none) (hstep : m.step = ⟨m', some f⟩) :
      Ends i k { m' with regs := recordFault m'.regs f } (.ofFailure f m'.regs.pc)

variable {i : Interpreter} {k : Nat} {m m' : Machine} {t : Termination}

theorem stop?_point (i : Interpreter) (k : Nat) (m : Machine) :
    (i.point k m).stop? =
      if m.regs.pc = returnSentinel then some .completed
      else if i.limit ≠ 0 ∧ i.limit ≤ k then some (.invalid .limitReached m.regs.pc)
      else none := rfl

/-- A run stops at the host, or at its limit while it is elsewhere. -/
theorem of_stop?_eq_some (h : (i.point k m).stop? = some t) :
    (t = .completed ∧ m.regs.pc = returnSentinel) ∨
      (t = .invalid .limitReached m.regs.pc ∧ m.regs.pc ≠ returnSentinel) := by
  rw [stop?_point] at h
  split at h
  · next hpc => exact .inl ⟨(Option.some.inj h).symm, hpc⟩
  · next hpc =>
    split at h
    · exact .inr ⟨(Option.some.inj h).symm, hpc⟩
    · contradiction

/-- A run that goes on is not at the host. -/
theorem pc_ne_of_stop?_eq_none (h : (i.point k m).stop? = none) :
    m.regs.pc ≠ returnSentinel := by
  intro hpc
  rw [stop?_point, if_pos hpc] at h
  contradiction

/-! ## Turns of a run -/

theorem turn_stopped (h : (i.point k m).stop? = some t) :
    (i.point k m).turn = (i.point k m, some t) := by
  rw [turn, h]

theorem turn_completed (hgo : (i.point k m).stop? = none) (hstep : m.step = ⟨m', none⟩) :
    (i.point k m).turn = (i.point (k + 1) m', none) := by
  rw [turn, hgo]
  simp only [point, step, hstep]

theorem turn_failed {f : Failure} (hgo : (i.point k m).stop? = none)
    (hstep : m.step = ⟨m', some f⟩) :
    (i.point k m).turn =
      (i.point k { m' with regs := recordFault m'.regs f }, some (.ofFailure f m'.regs.pc)) := by
  rw [turn, hgo]
  simp only [point, step, hstep, regs, setRegs]

/-! ## Runs and visits -/

/-- The loop passes through every point that the run visits. -/
theorem loop_of_visits (h : i.Visits k m) (n : Nat) :
    loop (n + k) (i.point 0 i.machine) = loop n (i.point k m) := by
  induction h generalizing n with
  | start => rfl
  | @next k m m' _ hgo hstep ih =>
      rw [show n + (k + 1) = n + 1 + k by omega, ih (n + 1), loop, turn_completed hgo hstep]

theorem loop_of_ends (h : i.Ends k m t) (n : Nat) :
    loop (n + 1 + k) (i.point 0 i.machine) = some (i.ended k m t, t) := by
  cases h with
  | stopped hm hstop =>
      rw [loop_of_visits hm, loop, turn_stopped hstop]
      rfl
  | failed hm hgo hstep =>
      rw [loop_of_visits hm, loop, turn_failed hgo hstep]
      rfl

/-- A loop that ends has gone from a visited point to an end of the run. -/
theorem ends_of_loop {n : Nat} {j : Interpreter} (hm : i.Visits k m)
    (h : loop n (i.point k m) = some (j, t)) :
    ∃ l m', l < k + n ∧ i.Ends l m' t ∧ j = i.ended l m' t := by
  -- as the fuel is used up the point moves along the run
  induction n generalizing k m with
  | zero => contradiction
  | succ n ih =>
      unfold loop at h
      cases hstop : (i.point k m).stop? with
      | some t' =>
          rw [turn_stopped hstop] at h
          cases h
          exact ⟨k, m, by omega, .stopped hm hstop, rfl⟩
      | none =>
          rcases hstep : m.step with ⟨m', f | f⟩
          · rw [turn_completed hstop hstep] at h
            obtain ⟨l, m₁, hl, hend, hj⟩ := ih (hm.next hstop hstep) h
            exact ⟨l, m₁, by omega, hend, hj⟩
          · rw [turn_failed hstop hstep] at h
            cases h
            exact ⟨k, _, by omega, .failed hm hstop hstep, rfl⟩

/-- A run ends within its fuel exactly if it ends after fewer instructions than that. -/
theorem run_eq_some_iff {fuel : Nat} {j : Interpreter} :
    run fuel i = some (j, t) ↔ ∃ k m, k < fuel ∧ i.Ends k m t ∧ j = i.ended k m t := by
  show loop fuel (i.point 0 i.machine) = some (j, t) ↔ _
  constructor
  · intro h
    obtain ⟨k, m, hk, hend, hj⟩ := ends_of_loop .start h
    exact ⟨k, m, by omega, hend, hj⟩
  · rintro ⟨k, m, hk, hend, rfl⟩
    have hloop := loop_of_ends hend (fuel - 1 - k)
    rwa [show fuel - 1 - k + 1 + k = fuel by omega] at hloop

theorem Ends.run_eq (h : i.Ends k m t) {fuel : Nat} (hfuel : k < fuel) :
    i.run fuel = some (i.ended k m t, t) :=
  run_eq_some_iff.2 ⟨k, m, hfuel, h, rfl⟩

/-- A run has one end. -/
theorem Ends.unique {k' : Nat} {t' : Termination} (h : i.Ends k m t) (h' : i.Ends k' m' t') :
    k = k' ∧ m = m' ∧ t = t' := by
  -- with fuel for both of them the loop gives both
  have hrun : run (k + k' + 1) i = some (i.ended k m t, t) := h.run_eq (by omega)
  have hrun' : run (k + k' + 1) i = some (i.ended k' m' t', t') := h'.run_eq (by omega)
  rw [hrun] at hrun'
  injection hrun' with heq
  injection heq with hi ht
  exact ⟨congrArg executed hi, congrArg machine hi, ht⟩

/-- A run goes on as long as it has not ended. -/
theorem visits_or_ends (i : Interpreter) (n : Nat) :
    (∃ m, i.Visits n m) ∨ ∃ k m t, k < n ∧ i.Ends k m t := by
  induction n with
  | zero => exact .inl ⟨i.machine, .start⟩
  | succ n ih =>
      rcases ih with ⟨m, hm⟩ | ⟨k, m, t, hk, hend⟩
      · cases hstop : (i.point n m).stop? with
        | some t => exact .inr ⟨n, m, t, by omega, .stopped hm hstop⟩
        | none =>
            rcases hstep : m.step with ⟨m', f | f⟩
            · exact .inl ⟨m', hm.next hstop hstep⟩
            · exact .inr ⟨n, _, _, by omega, .failed hm hstop hstep⟩
      · exact .inr ⟨k, m, t, by omega, hend⟩

/-- What a run visits after `k` instructions is its machine after `k` completed steps. -/
theorem Visits.after_eq (h : i.Visits k m) : i.machine.after k = some m := by
  induction h with
  | start => rfl
  | next _ _ hstep ih =>
      rw [Machine.after, ih]
      exact Machine.next?_of_step hstep

end Interpreter

end Broadway
