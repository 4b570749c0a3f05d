import Broadway.Call
import Broadway.Proofs.Exec.Control
import Broadway.Proofs.Instr.Legal
import Broadway.Proofs.Run.Trace

/-!
# Only a return leads back to the host

The address that stands for the host has both low bits set. No instruction makes such an address
out of another one: targets that a word holds are multiples of four, targets in registers have
their low bits cleared, and all other addresses are a multiple of four away from the current one.
The one exception is the branch to the link register, which lets the host's address through. So a
run that starts at no such address stays on course (`OnCourse`), and if it comes to the host it has
just returned there (`Machine.Returns`).
-/

namespace Broadway

/-- The low bits of an address are clear or those of the entry. -/
def OnCourse (entry pc : Word) : Prop :=
  pc.setWidth 2 = 0#2 ∨ pc.setWidth 2 = entry.setWidth 2

/-- The next instruction is a branch to the link register that is taken, and takes the program to
the host. -/
def Machine.Returns (m : Machine) : Prop :=
  ∃ w bo bi lk, Window.read m.ram 4 m.regs.pc = .ok w ∧
    Instr.ofWord w = .ok (.branch (.conditional bo bi .link lk)) ∧
    m.regs.taken bo bi = true ∧ m.regs.lr = returnSentinel

theorem not_onCourse_sentinel {entry : Word} (h : entry.setWidth 2 ≠ 3#2) :
    ¬ OnCourse entry returnSentinel := by
  have hlow : returnSentinel.setWidth 2 = 3#2 := rfl
  rw [OnCourse, hlow]
  rintro (h0 | h3)
  · contradiction
  · exact h h3.symm

/-- An address a multiple of four further on is as much on course. -/
theorem OnCourse.add {entry pc d : Word} (h : OnCourse entry pc) (hd : d.setWidth 2 = 0#2) :
    OnCourse entry (pc + d) := by
  rw [OnCourse, BitVec.setWidth_add pc d (by decide), hd, BitVec.add_zero]
  exact h

theorem setWidth_aligned (a : Word) : (aligned a).setWidth 2 = 0#2 := by
  have hmask : (~~~3#32).setWidth 2 = 0#2 := rfl
  rw [aligned, BitVec.setWidth_and, hmask, BitVec.and_zero]

/-! ## One step -/

namespace Instr

/-- A legal branch stays on course, unless it goes to the link register and that to the host. -/
theorem destination_onCourse {target : Target} {r : Registers} {entry : Word}
    (hlegal : target.Legal) (h : OnCourse entry r.pc) :
    OnCourse entry (r.destination target) ∨ target = .link ∧ r.lr = returnSentinel := by
  cases target with
  | relative d => exact .inl (h.add hlegal)
  | absolute a => exact .inl (.inl hlegal)
  | count => exact .inl (.inl (setWidth_aligned r.ctr))
  | link =>
      by_cases hlr : r.lr = returnSentinel
      · exact .inr ⟨rfl, hlr⟩
      · refine .inl (.inl ?_)
        rw [Registers.destination, if_neg hlr]
        exact setWidth_aligned r.lr

/-- From an instruction on course the program stays on course or returns to the host. -/
theorem goesTo_onCourse {i : Instr} {r : Registers} {entry : Word} (hlegal : i.Legal)
    (h : OnCourse entry r.pc) (hnpc : r.npc = r.pc + 4) :
    OnCourse entry (i.goesTo r) ∨
      (∃ bo bi lk, i = .branch (.conditional bo bi .link lk) ∧ r.taken bo bi = true) ∧
        r.lr = returnSentinel ∧ i.goesTo r = returnSentinel := by
  have hnext : OnCourse entry r.npc := by
    rw [hnpc]
    exact h.add rfl
  cases i with
  | branch i =>
      cases i with
      | always target lk =>
          obtain ⟨htarget, hlink, -⟩ := hlegal
          rcases destination_onCourse htarget h with hgo | ⟨rfl, -⟩
          · exact .inl hgo
          · exact absurd rfl hlink
      | conditional bo bi target lk =>
          -- a branch that is not taken goes on to the next instruction
          by_cases htaken : r.taken bo bi = true
          · simp only [goesTo, if_pos htaken]
            rcases destination_onCourse hlegal.1 h with hgo | ⟨rfl, hlr⟩
            · exact .inl hgo
            · refine .inr ⟨⟨bo, bi, lk, rfl, htaken⟩, hlr, ?_⟩
              rw [Registers.destination, if_pos hlr, hlr]
          · simp only [goesTo, if_neg htaken]
            exact .inl hnext
  | system i =>
      cases i with
      | call =>
          refine .inl (.inl ?_)
          simp only [goesTo, Registers.vectorBase]
          split <;> rfl
      | returnFromInterrupt => exact .inl (.inl (setWidth_aligned r.srr0))
      | _ => exact .inl hnext
  | _ => exact .inl hnext

end Instr

namespace Machine

/-- A completed step goes where its instruction says. -/
theorem step_goesTo {m m' : Machine} (h : m.step = ⟨m', none⟩) :
    ∃ w i, Window.read m.ram 4 m.regs.pc = .ok w ∧ Instr.ofWord w = .ok i ∧
      m'.regs.pc = i.goesTo m.fetched.regs := by
  obtain ⟨w, m₁, hread, hcompleted, rfl⟩ := step_completed h
  obtain ⟨i, hi, hex⟩ := execute_completed hcompleted
  refine ⟨w, i, hread, hi, ?_⟩
  rw [pc_advanced, ← Instr.npc_exec, hex]

/-- A completed step from a point on course stays on course or returns to the host. -/
theorem step_onCourse {m m' : Machine} {entry : Word} (h : m.step = ⟨m', none⟩)
    (hpc : OnCourse entry m.regs.pc) :
    OnCourse entry m'.regs.pc ∨ m.Returns ∧ m'.regs.pc = returnSentinel := by
  obtain ⟨w, i, hread, hi, hgo⟩ := step_goesTo h
  rw [hgo]
  rcases Instr.goesTo_onCourse (r := m.fetched.regs) (Instr.legal_ofWord hi) hpc rfl with
    hcourse | ⟨⟨bo, bi, lk, rfl, htaken⟩, hlr, hhost⟩
  · exact .inl hcourse
  · exact .inr ⟨⟨w, bo, bi, lk, hread, hi, htaken, hlr⟩, hhost⟩

/-- A failed step leaves the program counter on its instruction. -/
theorem pc_step_failed {m m' : Machine} {f : Failure} (h : m.step = ⟨m', some f⟩) :
    m'.regs.pc = m.regs.pc := by
  rcases step_failed h with ⟨rfl, -⟩ | ⟨w, -, hex⟩
  · rfl
  · have hpc := pc_execute m.fetched w
    rw [hex] at hpc
    exact hpc

end Machine

/-! ## Whole runs -/

namespace Interpreter

@[simp]
theorem pc_recordFault (r : Registers) (f : Failure) : (recordFault r f).pc = r.pc := by
  rcases f with ⟨cause, address⟩ | reason
  · cases cause <;> rfl
  · rfl

/-- The interpreter as a call enters its function. -/
def entering (i : Interpreter) (c : FunctionCall) : Interpreter := i.setRegs (c.enter i.regs)

/-- A call that is made ends as the run of its function does. -/
theorem ends_of_evaluate {fuel : Nat} {c : FunctionCall} {i j : Interpreter} {r : CallResult}
    (h : i.evaluate fuel c = some (j, .ok r)) :
    ∃ k m, (i.entering c).Ends k m r.termination ∧ j = (i.entering c).ended k m r.termination := by
  unfold evaluate at h
  split at h
  · cases h
  · split at h
    · next u t hrun =>
      cases h
      obtain ⟨k, m, -, hend, hj⟩ := run_eq_some_iff.1 hrun
      exact ⟨k, m, hend, hj⟩
    · cases h

/-- A call reports the registers as it leaves them. -/
theorem snapshot_of_evaluate {fuel : Nat} {c : FunctionCall} {i j : Interpreter} {r : CallResult}
    (h : i.evaluate fuel c = some (j, .ok r)) : r.snapshot = .capture j.regs := by
  unfold evaluate at h
  split at h
  · cases h
  · split at h
    · cases h
      rfl
    · cases h

/-- A call that is refused changes nothing. -/
theorem eq_of_evaluate_error {fuel : Nat} {c : FunctionCall} {i j : Interpreter} {e : CallError}
    (h : i.evaluate fuel c = some (j, .error e)) : j = i := by
  unfold evaluate at h
  split at h
  · cases h
    rfl
  · split at h <;> cases h

/-- Every point of a run that starts on course is on course, or is the host's address and has just
been returned to. -/
theorem Visits.onCourse {i : Interpreter} {entry : Word} {k : Nat} {m : Machine}
    (h : i.Visits k m) (hstart : OnCourse entry i.machine.regs.pc) :
    OnCourse entry m.regs.pc ∨
      m.regs.pc = returnSentinel ∧
        ∃ l m₀, k = l + 1 ∧ i.Visits l m₀ ∧ m₀.Returns ∧ m₀.step = ⟨m, none⟩ := by
  induction h with
  | start => exact .inl hstart
  | @next k m m' hm hgo hstep ih =>
      rcases ih with hpc | ⟨hhost, -⟩
      · rcases Machine.step_onCourse hstep hpc with hcourse | ⟨hreturns, hhost⟩
        · exact .inl hcourse
        · exact .inr ⟨hhost, k, m, rfl, hm, hreturns, hstep⟩
      · -- a run stops at the host
        exact absurd hhost (pc_ne_of_stop?_eq_none hgo)

/-- Where a run ends its program counter is at the last point that it visited. -/
theorem Ends.exists_visits {i : Interpreter} {k : Nat} {m : Machine} {t : Termination}
    (h : i.Ends k m t) : ∃ m', i.Visits k m' ∧ m.regs.pc = m'.regs.pc := by
  cases h with
  | stopped hm _ => exact ⟨m, hm, rfl⟩
  | failed hm _ hstep =>
      refine ⟨_, hm, ?_⟩
      rw [pc_recordFault, Machine.pc_step_failed hstep]

/-- A run that completes has come to the host. -/
theorem Ends.completed {i : Interpreter} {k : Nat} {m : Machine} (h : i.Ends k m .completed) :
    i.Visits k m ∧ m.regs.pc = returnSentinel := by
  generalize ht : Termination.completed = t at h
  cases h with
  | stopped hm hstop =>
      rcases of_stop?_eq_some hstop with ⟨-, hpc⟩ | ⟨rfl, -⟩
      · exact ⟨hm, hpc⟩
      · contradiction
  | failed hm hgo hstep => exact absurd ht.symm (Termination.ofFailure_ne_completed _ _)

/-- The run of a call whose entry has not both low bits set comes to the host only by a genuine
return. All its addresses are on course or the host's; the host is entered from a taken branch to
the link register and from nothing else; and a call that completes has executed such a branch last
and was not at the host before. -/
theorem host_entered_by_return (i : Interpreter) (c : FunctionCall)
    (hentry : c.entry.setWidth 2 ≠ 3#2) :
    (∀ k m, (i.entering c).Visits k m →
      OnCourse c.entry m.regs.pc ∨ m.regs.pc = returnSentinel) ∧
    (∀ k m, (i.entering c).Visits k m → m.regs.pc = returnSentinel →
      ∃ l m₀, k = l + 1 ∧ (i.entering c).Visits l m₀ ∧ m₀.Returns ∧ m₀.step = ⟨m, none⟩) ∧
    ∀ fuel j r, i.evaluate fuel c = some (j, .ok r) →
      (OnCourse c.entry j.regs.pc ∨ j.regs.pc = returnSentinel) ∧
      (r.termination = .completed →
        ∃ l m, j.executed = l + 1 ∧ (i.entering c).Visits l m ∧ m.Returns ∧
          m.step = ⟨j.machine, none⟩ ∧
          ∀ l' m', l' ≤ l → (i.entering c).Visits l' m' → m'.regs.pc ≠ returnSentinel) := by
  have hstart : OnCourse c.entry (i.entering c).machine.regs.pc := .inr rfl
  have hpoint : ∀ k m, (i.entering c).Visits k m →
      OnCourse c.entry m.regs.pc ∨ m.regs.pc = returnSentinel := by
    intro k m hm
    rcases hm.onCourse hstart with hpc | ⟨hhost, -⟩
    · exact .inl hpc
    · exact .inr hhost
  have hhost : ∀ k m, (i.entering c).Visits k m → m.regs.pc = returnSentinel →
      ∃ l m₀, k = l + 1 ∧ (i.entering c).Visits l m₀ ∧ m₀.Returns ∧ m₀.step = ⟨m, none⟩ := by
    intro k m hm hpc
    rcases hm.onCourse hstart with hcourse | ⟨-, hreturn⟩
    · rw [hpc] at hcourse
      exact absurd hcourse (not_onCourse_sentinel hentry)
    · exact hreturn
  refine ⟨hpoint, hhost, ?_⟩
  intro fuel j r heval
  obtain ⟨k, m, hend, rfl⟩ := ends_of_evaluate heval
  refine ⟨?_, ?_⟩
  · obtain ⟨m', hm', hpc⟩ := hend.exists_visits
    show OnCourse c.entry m.regs.pc ∨ m.regs.pc = returnSentinel
    rw [hpc]
    exact hpoint k m' hm'
  · intro hcompleted
    rw [hcompleted] at hend
    obtain ⟨hm, hpc⟩ := hend.completed
    obtain ⟨l, m₀, rfl, hl, hreturns, hstep⟩ := hhost k m hm hpc
    refine ⟨l, m₀, rfl, hl, hreturns, hstep, ?_⟩
    intro l' m' hle hm' hpc'
    -- at the host the run would have ended, and it has one end
    have hstop : ((i.entering c).point l' m').stop? = some .completed := by
      rw [stop?_point, if_pos hpc']
    have hsame := (Ends.stopped hm' hstop).unique hend
    omega

/-- A call of a function that returns at once ends with that return. -/
theorem host_entered_by_return_call :
    let i := initial (.ofBytes ⟨#[0x4E, 0x80, 0x00, 0x20]⟩) 0
    let c : FunctionCall := ⟨0, [], []⟩
    c.entry.setWidth 2 ≠ 3#2 ∧ ∃ j r l m, i.evaluate 2 c = some (j, .ok r) ∧
      j.executed = l + 1 ∧ (i.entering c).Visits l m ∧ m.Returns := by
  intro i c
  have hrun : (i.evaluate 2 c).bind (fun x => x.2.toOption.map (·.termination))
      = some .completed := by
    decide
  obtain ⟨⟨j, x⟩, heval, hx⟩ := Option.bind_eq_some_iff.1 hrun
  cases x with
  | error e => contradiction
  | ok r =>
      have hcompleted : r.termination = .completed := Option.some.inj hx
      obtain ⟨l, m, hexec, hl, hreturns, -⟩ :=
        ((host_entered_by_return i c (by decide)).2.2 2 j r heval).2 hcompleted
      exact ⟨by decide, j, r, l, m, heval, hexec, hl, hreturns⟩

end Interpreter

end Broadway
