import Broadway.Proofs.Instr.Aligned
import Broadway.Proofs.Run.Trace

/-!
# Fault reports are precise

An instruction that faults says where. From the order in which a memory instruction looks at what
may fail, and from the words that must be aligned, follow for every word exactly which faults there
are and at which addresses (`fault_reports_precise`), one equivalence for each cause
(`Machine.dsi_iff`, `Machine.alignment_iff`, `Machine.program_iff`, `Machine.isi_iff`).
-/

namespace Broadway

theorem Instr.fault_iff {i : Instr} {m : Machine} {cause : Cause} {a : Word} :
    (i.exec m).failure = some (.fault cause a) ↔
      (∃ j, i = .memory j ∧ (j.exec m).failure = some (.fault cause a)) ∨
      ∃ options ra b, i = .trap options ra b ∧
        trapCondition options (m.regs.gpr.read ra) (m.regs.operand b) = true ∧
        cause = .program ∧ a = m.regs.pc := by
  cases i with
  | memory j => simp [exec]
  | trap options ra b =>
      constructor
      · intro h
        rw [exec] at h
        split at h
        · next htaken =>
          cases h
          exact .inr ⟨options, ra, b, rfl, htaken, rfl, rfl⟩
        · contradiction
      · rintro (⟨j, hj, -⟩ | ⟨_, _, _, heq, htaken, rfl, rfl⟩)
        · contradiction
        · cases heq
          rw [exec, if_pos htaken, Machine.failure_fail]
  | _ => simp [exec]

namespace Machine

variable {m : Machine} {w : Word} {cause : Cause} {a : Word}

theorem fault_iff : (m.execute w).failure = some (.fault cause a) ↔
    ∃ i, Instr.ofWord w = .ok i ∧ (i.exec m).failure = some (.fault cause a) := by
  unfold execute
  cases Instr.ofWord w <;> simp

/-- An access fails at the first of its elements that memory does not hold. -/
theorem dsi_iff : (m.execute w).failure = some (.fault .dsi a) ↔
    ∃ i, Instr.ofWord w = .ok (.memory i) ∧ i.stopped? m.regs = none ∧
      m.ram.missing? (i.elements m.regs) = some a := by
  rw [fault_iff]
  constructor
  · rintro ⟨i, hi, hfault⟩
    rcases Instr.fault_iff.1 hfault with ⟨j, rfl, hj⟩ | ⟨_, _, _, _, _, hcause, _⟩
    · rcases MemoryInstr.fault_iff.1 hj with ⟨hcause, _⟩ | ⟨_, hgo, hmissing⟩
      · contradiction
      · exact ⟨j, hi, hgo, hmissing⟩
    · contradiction
  · rintro ⟨j, hi, hgo, hmissing⟩
    have hfault := MemoryInstr.fault_iff.2 (.inr ⟨rfl, hgo, hmissing⟩)
    exact ⟨_, hi, Instr.fault_iff.2 (.inl ⟨j, rfl, hfault⟩)⟩

/-- Alignment is looked at before memory, in the words that must be aligned and in no others. -/
theorem alignment_iff : (m.execute w).failure = some (.fault .alignment a) ↔
    ∃ address, w.MustAlign address ∧ (∃ i, Instr.ofWord w = .ok i) ∧
      a = m.regs.effective address ∧ ¬ 4 ∣ a.toNat := by
  rw [fault_iff]
  constructor
  · rintro ⟨i, hi, hfault⟩
    rcases Instr.fault_iff.1 hfault with ⟨j, rfl, hj⟩ | ⟨_, _, _, _, _, hcause, _⟩
    · rcases MemoryInstr.fault_iff.1 hj with ⟨_, hmust, ha, hodd⟩ | ⟨hcause, _⟩
      · refine ⟨j.address, ?_, ⟨_, hi⟩, ha, hodd⟩
        exact (Instr.mustAlign_of_reads (Instr.reads_ofWord w) hi _).1 (if_pos hmust)
      · contradiction
    · contradiction
  · rintro ⟨address, hmust, ⟨i, hi⟩, ha, hodd⟩
    have halign := (Instr.mustAlign_of_reads (Instr.reads_ofWord w) hi _).2 hmust
    cases i with
    | memory j =>
        obtain ⟨hj, haddress⟩ := Option.ite_none_right_eq_some.1 halign
        cases haddress
        have hfault := MemoryInstr.fault_iff.2 (.inl ⟨rfl, hj, ha, hodd⟩)
        exact ⟨_, hi, Instr.fault_iff.2 (.inl ⟨j, rfl, hfault⟩)⟩
    | _ => contradiction

theorem program_iff : (m.execute w).failure = some (.fault .program a) ↔
    ∃ options ra b, Instr.ofWord w = .ok (.trap options ra b) ∧
      trapCondition options (m.regs.gpr.read ra) (m.regs.operand b) = true ∧ a = m.regs.pc := by
  rw [fault_iff]
  constructor
  · rintro ⟨i, hi, hfault⟩
    rcases Instr.fault_iff.1 hfault with ⟨j, rfl, hj⟩ | ⟨options, ra, b, rfl, htaken, _, ha⟩
    · rcases MemoryInstr.fault_iff.1 hj with ⟨hcause, _⟩ | ⟨hcause, _⟩ <;> contradiction
    · exact ⟨options, ra, b, hi, htaken, ha⟩
  · rintro ⟨options, ra, b, hi, htaken, ha⟩
    exact ⟨_, hi, Instr.fault_iff.2 (.inr ⟨options, ra, b, rfl, htaken, rfl, ha⟩)⟩

/-- No instruction faults for another cause than these. -/
theorem cause_of_fault (h : (m.execute w).failure = some (.fault cause a)) :
    cause ∈ [Cause.dsi, .alignment, .program] := by
  obtain ⟨i, -, hfault⟩ := fault_iff.1 h
  rcases Instr.fault_iff.1 hfault with ⟨j, -, hj⟩ | ⟨_, _, _, -, -, rfl, -⟩
  · rcases MemoryInstr.fault_iff.1 hj with ⟨rfl, -⟩ | ⟨rfl, -⟩
    · decide
    · decide
  · decide

/-- A step faults at the fetch, or in the instruction that it has fetched. -/
theorem step_fault_iff : m.step.failure = some (.fault cause a) ↔
    (cause = .isi ∧ a = m.regs.pc ∧ ¬ m.ram.Holds m.regs.pc 4) ∨
    ∃ w, Window.read m.ram 4 m.regs.pc = .ok w ∧
      (m.fetched.execute w).failure = some (.fault cause a) := by
  by_cases hheld : m.ram.Holds m.regs.pc 4
  · have hread := Window.read_eq m.ram 4 m.regs.pc
    rw [if_pos hheld] at hread
    generalize Bytes.toWord 4 _ = w at hread
    rw [failure_step_of_fetch hread, hread]
    simp [hheld]
  · have hread : Window.read m.ram 4 m.regs.pc = .error (m.ram.outside m.regs.pc 4) := by
      rw [Window.read_eq, if_neg hheld]
    rw [step, hread]
    simp [hheld, eq_comm]

/-- A step fails at the fetch exactly if memory does not hold the instruction word. -/
theorem isi_iff : m.step.failure = some (.fault .isi a) ↔
    ¬ m.ram.Holds m.regs.pc 4 ∧ a = m.regs.pc := by
  rw [step_fault_iff]
  constructor
  · rintro (⟨-, ha, hmissing⟩ | ⟨w, -, hfault⟩)
    · exact ⟨hmissing, ha⟩
    · have hcause := cause_of_fault hfault
      contradiction
  · rintro ⟨hmissing, ha⟩
    exact .inl ⟨rfl, ha, hmissing⟩

theorem cause_of_step (h : m.step.failure = some (.fault cause a)) :
    cause ∈ [Cause.isi, .dsi, .alignment, .program] := by
  rcases step_fault_iff.1 h with ⟨rfl, -⟩ | ⟨w, -, hfault⟩
  · decide
  · exact List.mem_cons_of_mem _ (cause_of_fault hfault)

end Machine

namespace Interpreter

theorem cause_of_run {fuel : Nat} {i j : Interpreter} {cause : Cause} {a pc : Word}
    (h : run fuel i = some (j, .faulted cause a pc)) :
    cause ∈ [Cause.isi, .dsi, .alignment, .program] := by
  obtain ⟨k, m, -, hend, -⟩ := run_eq_some_iff.1 h
  generalize ht : Termination.faulted cause a pc = t at hend
  cases hend with
  | stopped hm hstop =>
      rcases of_stop?_eq_some hstop with ⟨rfl, -⟩ | ⟨rfl, -⟩ <;> contradiction
  | @failed m _ f hm hgo hstep =>
      cases f with
      | invalid reason => contradiction
      | fault cause' a' =>
          cases ht
          exact Machine.cause_of_step (m := m) (congrArg Outcome.failure hstep)

end Interpreter

/-- **Fault reports are precise.** A data storage fault is at the effective address of the first
element of the transfer that memory does not hold. The words that must be aligned, and no others,
report an alignment fault, at their effective address, whatever memory holds; a trap that is taken
reports its own address; a step whose instruction word memory does not hold reports the program
counter. No instruction, step or run faults for any other cause. -/
theorem fault_reports_precise :
    (∀ (m : Machine) (w a : Word), (m.execute w).failure = some (.fault .dsi a) ↔
      ∃ i, Instr.ofWord w = .ok (.memory i) ∧ i.refusal? m.regs = none ∧
        (i.mustAlign = true → 4 ∣ (m.regs.effective i.address).toNat) ∧
        ∃ done e rest, i.elements m.regs = done ++ e :: rest ∧
          (∀ x ∈ done, m.ram.Holds x.1 x.2) ∧ ¬ m.ram.Holds e.1 e.2 ∧ a = e.1) ∧
    (∀ (m : Machine) (w a : Word), (m.execute w).failure = some (.fault .alignment a) ↔
      ∃ address, w.MustAlign address ∧ (∃ i, Instr.ofWord w = .ok i) ∧
        a = m.regs.effective address ∧ ¬ 4 ∣ a.toNat) ∧
    (∀ (m : Machine) (w a : Word), (m.execute w).failure = some (.fault .program a) ↔
      ∃ options ra b, Instr.ofWord w = .ok (.trap options ra b) ∧
        trapCondition options (m.regs.gpr.read ra) (m.regs.operand b) = true ∧ a = m.regs.pc) ∧
    (∀ (m : Machine) (w : Word) (cause : Cause) (a : Word),
      (m.execute w).failure = some (.fault cause a) →
      cause ∈ [Cause.dsi, .alignment, .program]) ∧
    (∀ (i : Interpreter) (a : Word), i.step.2 = some (.fault .isi a) ↔
      ¬ i.ram.Holds i.regs.pc 4 ∧ a = i.regs.pc) ∧
    (∀ (i : Interpreter) (cause : Cause) (a : Word), i.step.2 = some (.fault cause a) →
      cause ∈ [Cause.isi, .dsi, .alignment, .program]) ∧
    ∀ (fuel : Nat) (i j : Interpreter) (cause : Cause) (a pc : Word),
      i.run fuel = some (j, .faulted cause a pc) →
      cause ∈ [Cause.isi, .dsi, .alignment, .program] := by
  refine ⟨?_, fun m w a => Machine.alignment_iff, fun m w a => Machine.program_iff,
    fun m w cause a => Machine.cause_of_fault, ?_, ?_, fun fuel i j cause a pc => ?_⟩
  · intro m w a
    rw [Machine.dsi_iff]
    simp only [MemoryInstr.stopped?_eq_none_iff, Ram.missing?_eq_some_iff, and_assoc]
  · intro i a
    rw [Interpreter.failure_step]
    exact Machine.isi_iff
  · intro i cause a h
    rw [Interpreter.failure_step] at h
    exact Machine.cause_of_step h
  · exact Interpreter.cause_of_run

/-- Over six bytes of memory `stswi r5, r0, 8` reports its seventh byte, and `lfd f1, 2(r0)` its
alignment. -/
theorem fault_reports_precise_string :
    let m : Machine := .initial (.ofBytes ⟨#[1, 2, 3, 4, 5, 6]⟩)
    (m.execute 0x7CA045AA#32).failure = some (.fault .dsi 6#32) ∧
      (m.execute 0xC8200002#32).failure = some (.fault .alignment 2#32) := by
  intro m
  constructor
  · refine (fault_reports_precise.1 m _ _).2
      ⟨.storeString 5 (.displaced 0 0) (.immediate 8), rfl, rfl, by decide, ?_⟩
    exact ⟨[(0, 1), (1, 1), (2, 1), (3, 1), (4, 1), (5, 1)], (6, 1), [(7, 1)], by decide, by decide,
      by decide, rfl⟩
  · have hop : Opcode.Primary.lfd.Selects 0xC8200002#32 := by decide
    exact (fault_reports_precise.2.1 m _ _).2
      ⟨_, .displaced hop rfl, ⟨_, rfl⟩, by decide, by decide⟩

end Broadway
