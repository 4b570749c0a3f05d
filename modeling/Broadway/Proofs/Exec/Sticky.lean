import Broadway.Proofs.Exec.Status
import Broadway.Proofs.Float.Sticky
import Broadway.Proofs.Instr.Reads

/-!
# Sticky exceptions under execution

Only four kinds of words may clear an exception of the floating point status or `fx`, or leave a new
exception without its record (`Word.ClearsStatus`): those that move bits of the status itself, but
for the one that sets a single bit. All others keep to `Fpscr.Sticky`, and so do runs that execute
none of the four (`exceptions_sticky`).
-/

namespace Broadway

open Fpscr Opcode

/-! ## Instructions -/

/-- Whether an instruction may clear exceptions. -/
def FloatInstr.clearsStatus : FloatInstr → Bool
  | .clearStatusBit .. | .setStatusField .. | .setStatusFields .. | .statusToCondition .. => true
  | _ => false

def Instr.clearsStatus : Instr → Bool
  | .float i => i.clearsStatus
  | _ => false

theorem FloatInstr.sticky_exec {i : FloatInstr} (h : i.clearsStatus = false) (r : Registers) :
    Sticky r.fpscr (i.exec r).fpscr := by
  cases hmoves : i.movesStatus with
  | false => exact (i.records_exec hmoves r).sticky
  | true =>
      cases i with
      | setStatusBit b rc =>
          rw [exec, Registers.fpscr_recordStatusIf]
          exact sticky_setBit r.fpscr b
      | _ => contradiction

/-- What does not move bits of the status keeps exceptions, whether it completes or fails. -/
theorem Instr.sticky_exec {i : Instr} (h : i.clearsStatus = false) (m : Machine) :
    Sticky m.regs.fpscr (i.exec m).machine.regs.fpscr := by
  by_cases hwrites : i.Writes .status
  · rcases i.writes_status hwrites with ⟨j, rfl⟩ | ⟨j, rfl⟩
    · exact FloatInstr.sticky_exec h m.regs
    · exact (j.records_exec m.regs).sticky
  · have hsame : (i.exec m).machine.regs.fpscr = m.regs.fpscr := i.same_exec hwrites m
    rw [hsame]
    exact .refl _

/-! ## Words -/

/-- Whether a word is one of those that may clear exceptions. -/
def Word.ClearsStatus (w : Word) : Prop :=
  ∃ op ∈ [DoubleMove.mtfsf, .mtfsfi, .mtfsb0, .mcrfs], op.Selects w

namespace Instr

variable {w : Word}

/-- Only these words stand for instructions that may clear exceptions. -/
theorem clearsStatus_of_reads {x : Except Invalid Instr} (h : Reads w x) :
    Yields x fun i => i.clearsStatus = true → w.ClearsStatus := by
  have hfree {i : Instr} (hi : i.clearsStatus = false) (hclears : i.clearsStatus = true) :
      w.ClearsStatus := by
    rw [hi] at hclears
    contradiction
  cases h with
  | unlisted => exact yields_error _
  | branch | conditional | call => exact yields_ok (hfree rfl)
  | immediate =>
      exact yields_ofDForm _ (fun _ => hfree rfl) (fun _ _ _ => hfree rfl) fun _ => hfree rfl
  | rotate =>
      exact yields_ofMForm _ (fun _ _ _ _ _ _ => hfree rfl) (fun _ _ _ _ _ _ => hfree rfl)
  | quantized =>
      exact yields_ofPsqForm _ (fun _ _ _ _ _ => hfree rfl) (fun _ _ _ _ _ => hfree rfl)
  | control =>
      exact yields_ofXlForm _ (fun _ => hfree rfl) (fun _ _ => hfree rfl)
        (fun _ _ _ _ => hfree rfl) (hfree rfl) (hfree rfl)
  | arith => exact yields_ofXoForm _ fun _ _ _ _ _ _ _ => hfree rfl
  | special =>
      exact yields_ofXfxForm _ (fun _ _ => hfree rfl) (fun _ _ => hfree rfl)
        (fun _ _ => hfree rfl) fun _ _ => hfree rfl
  | fixed =>
      exact yields_ofXForm31 _ (fun _ => hfree rfl) (fun _ _ _ => hfree rfl)
        (fun _ => hfree rfl) (fun _ => hfree rfl) fun _ => hfree rfl
  | pairedArith => exact yields_ofAForm4 _ fun _ => hfree rfl
  | pairedIndexed =>
      exact yields_ofPsqxForm _ (fun _ _ _ _ _ => hfree rfl) (fun _ _ _ _ _ => hfree rfl)
  | pairedMove => exact yields_ofXForm4 _ (fun _ => hfree rfl) (hfree rfl)
  | single => exact yields_ofAForm59 _ fun _ _ _ _ _ _ _ => hfree rfl
  | double =>
      exact yields_ofAForm63 _ (fun _ _ _ _ _ _ _ => hfree rfl) fun _ _ _ _ _ => hfree rfl
  | @doubleMove op hw =>
      unfold ofXForm63
      rw [hw.ofCode?_xForm]
      cases op with
      | mtfsfi | mtfsb0 | mcrfs => exact yields_ok fun _ => ⟨_, by decide, hw⟩
      | mtfsf => exact yields_error _
      | _ => exact yields_ok (hfree rfl)
  | statusFields hw => exact yields_ok fun _ => ⟨_, by decide, hw⟩

/-- The instruction that a move of a status field to the condition register stands for. -/
theorem ofWord_of_mcrfs (hw : DoubleMove.mcrfs.Selects w) :
    ofWord w = .ok (.float (.statusToCondition (Field.crfd w) (Field.crfs w))) := by
  have hcrfd : crField (XForm.decode w).rt = Field.crfd w := crField_extractLsb' w 21
  have hcrfs : crField (XForm.decode w).ra = Field.crfs w := crField_extractLsb' w 16
  rw [ofWord_of_doubleMove hw (by decide), ofXForm63, hw.ofCode?_xForm]
  simp only [hcrfd, hcrfs]

end Instr

namespace Machine

variable {m : Machine} {w : Word}

theorem sticky_execute (m : Machine) (hw : ¬ w.ClearsStatus) :
    Sticky m.regs.fpscr (m.execute w).machine.regs.fpscr := by
  cases hi : Instr.ofWord w with
  | error e =>
      rw [execute_of_error hi]
      exact .refl _
  | ok i =>
      rw [execute_of_ofWord hi]
      refine Instr.sticky_exec (Bool.eq_false_iff.2 fun hclears => hw ?_) m
      exact Instr.clearsStatus_of_reads (Instr.reads_ofWord w) i hi hclears

/-- A status field that is moved to the condition register arrives there, and its sticky bits are
cleared. -/
theorem execute_mcrfs (m : Machine) (hw : DoubleMove.mcrfs.Selects w) :
    (m.execute w).machine.regs.crField (Field.crfd w)
        = Condition.field m.regs.fpscr (Field.crfs w) ∧
      (m.execute w).machine.regs.fpscr = clearField m.regs.fpscr (Field.crfs w) := by
  rw [execute_of_ofWord (Instr.ofWord_of_mcrfs hw)]
  exact ⟨Condition.field_setField_self _ _ _, rfl⟩

end Machine

/-! ## Runs -/

theorem sticky_course : FlagCourse fun r r' => Sticky r.fpscr r'.fpscr where
  flags hflags := by
    rw [hflags.fpscr]
    exact .refl _
  trans := Sticky.trans

/-- **Exceptions are sticky.** But for the four kinds of words that may, none clears an exception or
`fx`, and a new exception is recorded in `fx`. The move of a status field to the condition register
clears the sticky bits inside the field and no others. A run keeps to it as well, unless it has
executed one of the four. -/
theorem exceptions_sticky :
    (∀ (m : Machine) (w : Word),
      ¬ w.ClearsStatus → Sticky m.regs.fpscr (m.execute w).machine.regs.fpscr) ∧
    (∀ (m : Machine) (w : Word), DoubleMove.mcrfs.Selects w →
      (m.execute w).machine.regs.crField (Field.crfd w)
          = Condition.field m.regs.fpscr (Field.crfs w) ∧
        ∀ bit ∈ sticky, Has (m.execute w).machine.regs.fpscr bit ↔
          Has m.regs.fpscr bit ∧ ¬ Has (fieldBits (Field.crfs w)) bit) ∧
    ∀ (i : Interpreter) (k : Nat) (m : Machine), i.Visits k m →
      Sticky i.regs.fpscr m.regs.fpscr ∨ i.ExecutesSome k Word.ClearsStatus := by
  refine ⟨fun m w => m.sticky_execute, fun m w hw => ?_, fun i k m hm => ?_⟩
  · obtain ⟨hfield, hstatus⟩ := m.execute_mcrfs hw
    refine ⟨hfield, fun bit hbit => ?_⟩
    rw [hstatus]
    exact has_clearField m.regs.fpscr (Field.crfs w) hbit
  · by_cases hkept : Sticky i.regs.fpscr m.regs.fpscr
    · exact .inl hkept
    · refine .inr (sticky_course.executesSome (fun m w hne => ?_) hm hkept)
      exact Classical.byContradiction fun hw => hne (m.sticky_execute hw)

/-- `mtfsb1 3` raises an overflow after a reset, which is recorded since the word is none of the
four. -/
theorem exceptions_sticky_overflow :
    let m : Machine := .initial (.ofBytes .empty)
    ¬ Has m.regs.fpscr ox ∧ Has (m.execute 0xFC60004C#32).machine.regs.fpscr ox ∧
      Has (m.execute 0xFC60004C#32).machine.regs.fpscr fx := by
  intro m
  have hword : ¬ Word.ClearsStatus 0xFC60004C#32 := by
    have hnone : ∀ op ∈ [DoubleMove.mtfsf, .mtfsfi, .mtfsb0, .mcrfs],
        ¬ op.Selects 0xFC60004C#32 := by decide
    exact fun ⟨op, hop, hw⟩ => hnone op hop hw
  have hclear : ¬ Has m.regs.fpscr ox := by decide
  have hraised : Has (m.execute 0xFC60004C#32).machine.regs.fpscr ox := by decide
  exact ⟨hclear, hraised,
    (exceptions_sticky.1 m _ hword).recorded ox (by decide) hclear hraised⟩

end Broadway
