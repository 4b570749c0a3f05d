import Broadway.Proofs.Exec.Scalar
import Broadway.Proofs.Float.FormatClass

/-!
# The class of what an instruction delivers

Every word of arithmetic records the class of one lane of its result: of the first lane, or for
`ps_sum1` of the second, which is the one that it computes (`Word.Describes`).

The class goes by the double that is delivered. For double precision that is the class of the result
(`class_of_delivered`). For single precision it is the class of the result in that precision, except
that the denormal numbers of single precision are on record as normal
(`single_denormal_recorded_normal`).
-/

namespace Broadway

open Opcode Fpscr

/-- Words of arithmetic, each with the precision of what it delivers and the lane whose class it
records. -/
inductive Word.Describes (w : Word) : Precision → Lane → Prop
  | scalar {op : FloatOp} {precision : Precision} (hw : Word.ScalarArith w op precision) :
      Describes w precision .ps0
  | round (hw : DoubleMove.frsp.Selects w) : Describes w .single .ps0
  | paired {op : PairedArith} (hw : op.Selects w) (hop : op ∉ [PairedArith.sel, .sum1]) :
      Describes w .single .ps0
  | sum (hw : PairedArith.sum1.Selects w) : Describes w .single .ps1

def Precision.format : Precision → Format
  | .double => .double
  | .single => .single

/-- The class on record. -/
def Fpscr.resultClass (s : Word) : BitVec 5 := s.extractLsb' 12 5

theorem Fpscr.resultClass_setClass (s : Word) (x : Double) :
    resultClass (setClass s x) = classify x :=
  extractLsb'_placed s (classify x) (by decide) (by decide)

/-- No operation gives a signalling NaN. -/
theorem FloatOp.isSignaling_eval (op : FloatOp) (s : Word) (a b c : Double) :
    (op.eval s a b c).1.isSignaling = false := by
  rw [op.eval_eq]
  cases hvalue : op.value? a b c with
  | none => exact Fpu.isSignaling_invalid s _ _
  | some x => exact Double.isSignaling_of_number (op.isNaN_of_value? hvalue)

namespace Machine

variable {w : Word}

/-- A word of paired arithmetic writes both lanes and records the class of the first. -/
theorem execute_pairedArith {op : PairedArith} (hw : op.Selects w)
    (hop : op ∉ [PairedArith.sel, .sum1]) (m : Machine) : ∃ x y s,
      m.execute w = m.done (m.regs.finishPair (Field.rt w) (Field.bit31 w) x y s) := by
  obtain ⟨i, hi, hexec⟩ : ∃ i, Instr.ofWord w = .ok (.paired i) ∧ ∃ x y s,
      i.exec m.regs = m.regs.finishPair (Field.rt w) (Field.bit31 w) x y s := by
    rw [Instr.ofWord_of_pairedArith hw, Instr.ofAForm4, hw.ofCode?_aForm]
    cases op with
    | sel | sum1 => exact absurd (by decide) hop
    | _ =>
      simp only [AForm.decode, Instr.reg_setWidth]
      exact ⟨_, rfl, _, _, _, rfl⟩
  obtain ⟨x, y, s, hexec⟩ := hexec
  refine ⟨x, y, s, ?_⟩
  rw [execute_of_ofWord hi, ← hexec]
  rfl

/-- What a word of arithmetic delivers is a result brought to its precision, and the class on record
is the one of what is delivered. -/
theorem execute_describes {precision : Precision} {lane : Lane}
    (hw : Word.Describes w precision lane) (m : Machine) :
    ∃ r x, m.execute w = m.done r ∧
      (r.fpr.read (Field.rt w)).lane lane = precision.deliver x ∧
      resultClass r.fpscr = classify (precision.deliver x) ∧
      (precision = .double → x.isSignaling = false) := by
  have hsingle : Precision.single ≠ .double := by decide
  cases hw with
  | scalar hw =>
      obtain ⟨r, hdone, hresult, hstatus⟩ := execute_scalarArith hw m
      refine ⟨r, _, hdone, hresult, ?_, fun _ => FloatOp.isSignaling_eval ..⟩
      rw [hstatus, resultClass_setClass]
  | round hw =>
      have hi : Instr.ofWord w =
          .ok (.float (.roundToSingle (Field.rt w) (Field.rb w) (Field.bit31 w))) := by
        rw [Instr.ofWord_of_doubleMove hw (by decide), Instr.ofXForm63, hw.ofCode?_xForm]
        simp only [XForm.decode, Instr.reg_setWidth]
      refine ⟨_, m.regs.ps0 (Field.rb w), execute_of_ofWord hi m, ?_, ?_, (absurd · hsingle)⟩
      · exact Registers.ps0_finishFloat m.regs _ _ _ .single
      · show resultClass (m.regs.finishFloat .single _ _ _).fpscr = _
        rw [Registers.fpscr_finishFloat, resultClass_setClass]
  | paired hw hop =>
      obtain ⟨x, y, s, hdone⟩ := execute_pairedArith hw hop m
      refine ⟨_, x, hdone, ?_, ?_, (absurd · hsingle)⟩
      · rw [Registers.read_finishPair]
        rfl
      · rw [Registers.fpscr_finishPair, resultClass_setClass]
        rfl
  | sum hw =>
      have hi : Instr.ofWord w = .ok (.paired (.sum .ps1 (Field.rt w) (Field.ra w) (Field.rb w)
          (Field.rc w) (Field.bit31 w))) := by
        rw [Instr.ofWord_of_pairedArith hw, Instr.ofAForm4, hw.ofCode?_aForm]
        simp only [AForm.decode, Instr.reg_setWidth]
      let x := (Fpu.add m.regs.fpscr (m.regs.fpr.read (Field.ra w)).ps0
        (m.regs.fpr.read (Field.rb w)).ps1).1
      refine ⟨_, x, execute_of_ofWord hi m, ?_, ?_, (absurd · hsingle)⟩
      · simp only [PairedInstr.exec, Registers.fpr_recordStatusIf]
        exact congrArg Lanes.ps1 (Bank.read_write_self ..)
      · simp only [PairedInstr.exec, Registers.fpscr_recordStatusIf]
        exact resultClass_setClass ..

end Machine

/-- **The class on record is the class of what is delivered**, for every state and every word of
arithmetic: in the precision of the instruction, unless that is single precision and the number is
denormal in it. Then the number is on record as a normal one, with its sign. What is delivered is
never a signalling NaN. -/
theorem class_of_delivered (m : Machine) (w : Word) {precision : Precision} {lane : Lane}
    (hw : Word.Describes w precision lane) :
    ∃ r, m.execute w = m.done r ∧
      let y := (r.fpr.read (Field.rt w)).lane lane
      y.isSignaling = false ∧
      (¬ (precision = .single ∧ y.datum.Denormal .single) →
        resultClass r.fpscr = y.datum.classIn precision.format) ∧
      (precision = .single ∧ y.datum.Denormal .single →
        resultClass r.fpscr = Class.normal y.negative) := by
  obtain ⟨r, x, hdone, hlane, hclass, hquiet⟩ := Machine.execute_describes hw m
  refine ⟨r, hdone, ?_⟩
  rw [hlane, hclass]
  cases precision with
  | double => exact ⟨hquiet rfl, fun _ => classify_eq x, fun h => nomatch h.1⟩
  | single =>
      have hrounded : Single.Rounded (Precision.single.deliver x) := Single.rounded x
      refine ⟨hrounded.isSignaling, fun hother => ?_, fun hdenormal => ?_⟩
      · rw [classify_of_rounded hrounded, if_neg (fun h => hother ⟨rfl, h⟩)]
        rfl
      · rw [classify_of_rounded hrounded, if_pos hdenormal.2]

/-- The sum of two negative zeros goes to the second lane. Its class is on record, not the one of the
infinity in the first lane. -/
theorem class_of_delivered_sum :
    let r := ((Registers.initial.setFpr 1 (.both 0x8000000000000000#64)).setFpr 2
      (.both 0x8000000000000000#64)).setFpr 4 (.both 0x7FF0000000000000#64)
    let m : Machine := ⟨r, .ofBytes .empty⟩
    Word.Describes 0x10611116#32 .single .ps1 ∧ ∃ after, m.execute 0x10611116#32 = m.done after ∧
      (after.fpr.read 3).ps0 = 0x7FF0000000000000#64 ∧
      resultClass after.fpscr = Class.negativeZero := by
  intro r m
  have hw : PairedArith.sum1.Selects 0x10611116#32 := by decide
  have hlanes : (m.execute 0x10611116#32).machine.regs.fpr.read 3 =
      ⟨0x7FF0000000000000#64, 0x8000000000000000#64⟩ := by decide +kernel
  have hsum : ¬ (Double.datum 0x8000000000000000#64).Denormal .single := by decide +kernel
  obtain ⟨after, hafter, -, hclass, -⟩ := class_of_delivered m 0x10611116#32 (.sum hw)
  rw [hafter] at hlanes
  have hread : after.fpr.read (Field.rt 0x10611116#32) =
      ⟨0x7FF0000000000000#64, 0x8000000000000000#64⟩ := hlanes
  rw [hread] at hclass
  refine ⟨.sum hw, after, hafter, congrArg Lanes.ps0 hread, ?_⟩
  rw [hclass fun h => hsum h.2]
  decide +kernel

/-- Rounding the smallest number of single precision to that precision delivers the number itself,
which is denormal there, and records a normal number. -/
theorem single_denormal_recorded_normal :
    let m : Machine :=
      ⟨Registers.initial.setFpr 1 (.both 0x36A0000000000000#64), .ofBytes .empty⟩
    let after := (m.execute 0xFC400818#32).machine.regs
    Word.Describes 0xFC400818#32 .single .ps0 ∧ after.ps0 2 = 0x36A0000000000000#64 ∧
      (after.ps0 2).datum.classIn .single = Class.positiveDenormal ∧
      resultClass after.fpscr = Class.positiveNormal := by
  intro m after
  have hw : DoubleMove.frsp.Selects 0xFC400818#32 := by decide
  have hresult : after.ps0 2 = 0x36A0000000000000#64 := by decide +kernel
  refine ⟨.round hw, hresult, ?_, ?_⟩
  · rw [hresult]
    decide +kernel
  · decide +kernel

end Broadway
