import Broadway.Interpreter

/-!
# What a step can do

A step fails at the fetch, or executes the fetched word on the machine whose next instruction is
the following one (`Machine.fetched`). The two inversion lemmas say all that a failed step
(`Machine.step_failed`) and a completed step (`Machine.step_completed`) can have done; nothing
else opens the definition of a step.
-/

namespace Broadway

namespace Machine

/-- The machine on which a fetched instruction is executed. -/
def fetched (m : Machine) : Machine :=
  { m with regs := { m.regs with npc := m.regs.pc + 4 } }

/-- The machine after a completed instruction: on to the next one, and time has passed. -/
def advanced (m : Machine) : Machine :=
  { m with regs := { m.regs with pc := m.regs.npc, tb := m.regs.tb + 1 } }

@[simp]
theorem pc_advanced (m : Machine) : m.advanced.regs.pc = m.regs.npc := rfl

theorem step_of_fetch {m : Machine} {w : Word} (h : Window.read m.ram 4 m.regs.pc = .ok w) :
    m.step = match m.fetched.execute w with
      | ⟨m', some f⟩ => ⟨m', some f⟩
      | ⟨m', none⟩ => ⟨m'.advanced, none⟩ := by
  unfold step
  rw [h]
  rfl

/-- A word that only changes registers completes its step. -/
theorem step_of_done {m : Machine} {w : Word} {r : Registers}
    (h : Window.read m.ram 4 m.regs.pc = .ok w) (hdone : m.fetched.execute w = m.fetched.done r) :
    m.step = ⟨⟨{ r with pc := r.npc, tb := r.tb + 1 }, m.ram⟩, none⟩ := by
  rw [step_of_fetch h, hdone]
  rfl

/-- A step that has fetched a word fails exactly as the word does. -/
theorem failure_step_of_fetch {m : Machine} {w : Word}
    (h : Window.read m.ram 4 m.regs.pc = .ok w) :
    m.step.failure = (m.fetched.execute w).failure := by
  rw [step_of_fetch h]
  rcases m.fetched.execute w with ⟨m', _ | f⟩ <;> rfl

/-- A step that fails has failed at the fetch and changed nothing, or in the instruction. -/
theorem step_failed {m m' : Machine} {f : Failure} (h : m.step = ⟨m', some f⟩) :
    (m' = m ∧ f = .fault .isi m.regs.pc ∧ ∃ e, Window.read m.ram 4 m.regs.pc = .error e) ∨
    ∃ w, Window.read m.ram 4 m.regs.pc = .ok w ∧ m.fetched.execute w = ⟨m', some f⟩ := by
  cases hread : Window.read m.ram 4 m.regs.pc with
  | error e =>
      simp only [step, hread] at h
      cases h
      exact .inl ⟨rfl, rfl, e, rfl⟩
  | ok w =>
      refine .inr ⟨w, rfl, ?_⟩
      rw [step_of_fetch hread] at h
      rcases hex : m.fetched.execute w with ⟨m₁, f' | f'⟩
      · rw [hex] at h
        cases h
      · rw [hex] at h
        exact h

/-- A step that completes has executed the fetched word and moved on. -/
theorem step_completed {m m' : Machine} (h : m.step = ⟨m', none⟩) :
    ∃ w m₁, Window.read m.ram 4 m.regs.pc = .ok w ∧ m.fetched.execute w = ⟨m₁, none⟩ ∧
      m' = m₁.advanced := by
  cases hread : Window.read m.ram 4 m.regs.pc with
  | error e =>
      simp only [step, hread] at h
      cases h
  | ok w =>
      rw [step_of_fetch hread] at h
      rcases hex : m.fetched.execute w with ⟨m₁, f' | f'⟩
      · rw [hex] at h
        cases h
        exact ⟨w, m₁, rfl, hex, rfl⟩
      · rw [hex] at h
        cases h

end Machine

namespace Interpreter

/-- A step of the interpreter is a step of its machine. -/
theorem machine_step (i : Interpreter) : i.step.1.machine = i.machine.step.machine := by
  obtain ⟨m, limit, state, executed⟩ := i
  unfold step
  rcases hstep : m.step with ⟨m', _ | f⟩ <;> simp only [hstep]

/-- A step of the interpreter fails as the step of its machine does. -/
theorem failure_step (i : Interpreter) : i.step.2 = i.machine.step.failure := by
  obtain ⟨m, limit, state, executed⟩ := i
  unfold step
  rcases hstep : m.step with ⟨m', _ | f⟩ <;> simp only [hstep]

/-- A step of the interpreter that fails is a failed step of its machine and counts nothing. -/
theorem step_failed {i j : Interpreter} {f : Failure} (h : i.step = (j, some f)) :
    i.machine.step = ⟨j.machine, some f⟩ ∧ j = { i with machine := j.machine } := by
  obtain ⟨m, limit, state, executed⟩ := i
  unfold step at h
  rcases hstep : m.step with ⟨m', f' | f'⟩
  · simp only [hstep] at h
    cases h
  · simp only [hstep] at h
    cases h
    exact ⟨rfl, rfl⟩

end Interpreter

end Broadway
