import Broadway.Proofs.Run.Trace

/-!
# An instruction limit only truncates a run

A run with a limit visits what the run without one visits, up to the limit
(`Interpreter.visits_limited_iff`). Whether it also ends as that run does is a matter of where the
end lies (`Termination.Fits`): the return to the host is noticed before the limit is, so it may
come after as many instructions as the limit allows, while a failing instruction must be one of
them. All other runs stop at the limit (`Interpreter.run_limited`).
-/

namespace Broadway

/-- Whether a run that ends so after `k` instructions comes to its end under a limit of `n`. -/
def Termination.Fits (t : Termination) (k n : Nat) : Prop :=
  if t = .completed then k ≤ n else k < n

namespace Interpreter

/-- The interpreter with another limit, zero standing for none. -/
def limited (i : Interpreter) (n : Nat) : Interpreter := { i with limit := n }

variable {i : Interpreter} {n k : Nat} {m : Machine} {t : Termination}

/-! ## Where a run stops -/

theorem stop?_unlimited :
    ((i.limited 0).point k m).stop? =
      if m.regs.pc = returnSentinel then some .completed else none := by
  simp [stop?_point, limited]

theorem stop?_limited (hn : 1 ≤ n) :
    ((i.limited n).point k m).stop? =
      if m.regs.pc = returnSentinel then some .completed
      else if n ≤ k then some (.invalid .limitReached m.regs.pc)
      else none := by
  have h0 : n ≠ 0 := by omega
  simp [stop?_point, limited, h0]

/-- Under a limit a run goes on where it would go on without one and the limit is not reached. -/
theorem stop?_limited_eq_none_iff (hn : 1 ≤ n) :
    ((i.limited n).point k m).stop? = none ↔
      ((i.limited 0).point k m).stop? = none ∧ k < n := by
  rw [stop?_limited hn, stop?_unlimited]
  by_cases hpc : m.regs.pc = returnSentinel
  · simp [hpc]
  · by_cases hk : n ≤ k
    · simp [hpc, hk]
    · simp [hpc, hk]
      omega

/-! ## What a run visits -/

/-- Under a limit a run visits what it visits without one, as far as the limit. -/
theorem visits_limited_iff (hn : 1 ≤ n) :
    (i.limited n).Visits k m ↔ (i.limited 0).Visits k m ∧ k ≤ n := by
  constructor
  · intro h
    induction h with
    | start => exact ⟨.start, Nat.zero_le n⟩
    | next _ hgo hstep ih =>
        obtain ⟨hgo, hk⟩ := (stop?_limited_eq_none_iff hn).1 hgo
        exact ⟨ih.1.next hgo hstep, hk⟩
  · rintro ⟨h, hk⟩
    induction h with
    | start => exact .start
    | next _ hgo hstep ih =>
        exact (ih (by omega)).next ((stop?_limited_eq_none_iff hn).2 ⟨hgo, hk⟩) hstep

/-! ## How a run ends -/

/-- An end that fits the limit is the end of the limited run. -/
theorem Ends.limited (hn : 1 ≤ n) (h : (i.limited 0).Ends k m t) (hfit : t.Fits k n) :
    (i.limited n).Ends k m t := by
  cases h with
  | stopped hm hstop =>
      rw [stop?_unlimited] at hstop
      split at hstop
      · next hpc =>
        cases hstop
        -- the return to the host is looked for before the limit
        refine .stopped ((visits_limited_iff hn).2 ⟨hm, hfit⟩) ?_
        rw [stop?_limited hn, if_pos hpc]
      · contradiction
  | failed hm hgo hstep =>
      rw [Termination.Fits, if_neg (Termination.ofFailure_ne_completed _ _)] at hfit
      exact .failed ((visits_limited_iff hn).2 ⟨hm, Nat.le_of_lt hfit⟩)
        ((stop?_limited_eq_none_iff hn).2 ⟨hgo, hfit⟩) hstep

/-- The limited run ends where the unlimited one does and the end fits, or at the limit. -/
theorem Ends.unlimited (hn : 1 ≤ n) (h : (i.limited n).Ends k m t) :
    (i.limited 0).Ends k m t ∧ t.Fits k n ∨
      (i.limited n).Visits n m ∧ k = n ∧ t = .invalid .limitReached m.regs.pc := by
  cases h with
  | stopped hm hstop =>
      have hvisit := (visits_limited_iff hn).1 hm
      rw [stop?_limited hn] at hstop
      split at hstop
      · next hpc =>
        cases hstop
        exact .inl ⟨.stopped hvisit.1 (by rw [stop?_unlimited, if_pos hpc]), hvisit.2⟩
      · split at hstop
        · next hk =>
          cases hstop
          have heq : k = n := Nat.le_antisymm hvisit.2 hk
          exact .inr ⟨heq ▸ hm, heq, rfl⟩
        · contradiction
  | failed hm hgo hstep =>
      obtain ⟨hgo, hk⟩ := (stop?_limited_eq_none_iff hn).1 hgo
      refine .inl ⟨.failed ((visits_limited_iff hn).1 hm).1 hgo hstep, ?_⟩
      rw [Termination.Fits, if_neg (Termination.ofFailure_ne_completed _ _)]
      exact hk

/-- Under a limit every run ends, within the limit. -/
theorem exists_ends_limited (i : Interpreter) (hn : 1 ≤ n) :
    ∃ k m t, k ≤ n ∧ (i.limited n).Ends k m t := by
  rcases visits_or_ends (i.limited n) n with ⟨m, hm⟩ | ⟨k, m, t, hk, hend⟩
  · -- a run that comes as far as the limit ends there
    by_cases hpc : m.regs.pc = returnSentinel
    · exact ⟨n, m, _, Nat.le_refl n, .stopped hm (by rw [stop?_limited hn, if_pos hpc])⟩
    · exact ⟨n, m, _, Nat.le_refl n,
        .stopped hm (by rw [stop?_limited hn, if_neg hpc, if_pos (Nat.le_refl n)])⟩
  · exact ⟨k, m, t, Nat.le_of_lt hk, hend⟩

/-- An instruction limit only truncates a run. The run always ends, having executed no more than
the limit. If the run without a limit has an end that fits, the limited run has the same end and
leaves the same machine; otherwise it stops at the limit, on the machine after that many steps. -/
theorem run_limited (i : Interpreter) (n : Nat) (hn : 1 ≤ n) :
    ∃ j t, (∀ fuel, n < fuel → run fuel (i.limited n) = some (j, t)) ∧ j.executed ≤ n ∧
      (∀ fuel u o, run fuel (i.limited 0) = some (u, o) → o.Fits u.executed n →
        t = o ∧ j = u.limited n) ∧
      ((∀ fuel u o, run fuel (i.limited 0) = some (u, o) → ¬ o.Fits u.executed n) →
        ∃ m, i.machine.after n = some m ∧ j.machine = m ∧ j.executed = n ∧
          t = .invalid .limitReached m.regs.pc ∧
          Invalid.limitReached.message = "instruction limit reached") := by
  obtain ⟨k, m, t, hk, hend⟩ := exists_ends_limited i hn
  refine ⟨(i.limited n).ended k m t, t, ?_, hk, ?_, ?_⟩
  · intro fuel hfuel
    exact run_eq_some_iff.2 ⟨k, m, by omega, hend, rfl⟩
  · intro fuel u o hrun hfit
    obtain ⟨k', m', -, hend', rfl⟩ := run_eq_some_iff.1 hrun
    -- the end of the unlimited run ends the limited one, which has one end only
    obtain ⟨rfl, rfl, rfl⟩ := hend.unique (hend'.limited hn hfit)
    exact ⟨rfl, rfl⟩
  · intro hother
    rcases hend.unlimited hn with ⟨hend', hfit⟩ | ⟨hm, rfl, rfl⟩
    · -- this end fits, which was ruled out
      have hrun : run (k + 1) (i.limited 0) = some ((i.limited 0).ended k m t, t) :=
        run_eq_some_iff.2 ⟨k, m, Nat.lt_succ_self k, hend', rfl⟩
      exact absurd hfit (hother _ _ _ hrun)
    · exact ⟨m, hm.after_eq, rfl, rfl, rfl, rfl⟩

/-- A function that returns at once does so under a limit of one instruction. -/
theorem run_limited_return :
    let ram := Ram.ofBytes ⟨#[0x4E, 0x80, 0x00, 0x20]⟩
    let i := (initial ram 0).setRegs { Registers.initial with lr := returnSentinel }
    1 ≤ 1 ∧ ∃ j, run 2 (i.limited 1) = some (j, .completed) ∧ j.executed = 1 := by
  intro ram i
  obtain ⟨j, t, hrun, -, hsame, -⟩ := run_limited i 1 (by decide)
  -- without a limit the run completes after one instruction
  have hfree : (run 2 (i.limited 0)).map (fun x => (x.1.executed, x.2)) = some (1, .completed) := by
    decide
  obtain ⟨⟨u, o⟩, hu, heq⟩ := Option.map_eq_some_iff.1 hfree
  obtain ⟨hexec, rfl⟩ := Prod.mk.inj heq
  have hfit : Termination.completed.Fits u.executed 1 := Nat.le_of_eq hexec
  obtain ⟨rfl, rfl⟩ := hsame 2 u .completed hu hfit
  exact ⟨by decide, _, hrun 2 (by decide), hexec⟩

end Interpreter

end Broadway
