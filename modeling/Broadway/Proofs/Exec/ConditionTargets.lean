import Broadway.Proofs.Condition
import Broadway.Proofs.Exec.Branch
import Broadway.Proofs.Exec.Compare
import Broadway.Proofs.Exec.Frame
import Broadway.Proofs.Exec.Record
import Broadway.Proofs.Exec.Sticky

/-!
# What may be written of the condition register

An instruction replaces one field of the condition register, one bit, a row of fields under a mask,
or nothing of it (`Instr.crTarget`), and it keeps all other bits, whether it completes or fails
(`Instr.keeps_exec`).

Which words these are is a table again, with the opcodes and fields of the word itself
(`Word.WritesCondition`). It is exact: a word is listed with a target if and only if it stands for
an instruction with this target (`Word.writesCondition_iff`). So what a word changes, it is listed
for (`Machine.listed_of_changed`), and what it is listed for is all that it changes
(`Machine.keeps_execute`).
-/

namespace Broadway

open Opcode

/-! ## Targets -/

/-- The part of the condition register that may be written. -/
inductive CrTarget
  | nothing
  | field (f : BitVec 3)
  | bit (b : BitVec 5)
  /-- The fields whose mask bit is set, the most significant one standing for field zero. -/
  | fields (mask : BitVec 8)
  deriving DecidableEq

namespace CrTarget

/-- Whether bit `k` of field `n` is in a target. -/
def Holds : CrTarget → BitVec 3 → BitVec 2 → Prop
  | nothing, _, _ => False
  | field f, n, _ => n = f
  | bit b, n, k => n ++ k = b
  | fields mask, n, _ => mask.getMsbD n.toNat = true

/-- Field `f`, if a record is asked for. -/
def record (f : BitVec 3) (rc : Bool) : CrTarget := if rc then .field f else .nothing

/-- Whether two words of the condition register have the same bits outside a target. -/
structure Keeps (t : CrTarget) (old new : Word) : Prop where
  outside : ∀ n k, ¬ t.Holds n k → new.getMsbD (n ++ k).toNat = old.getMsbD (n ++ k).toNat

theorem Keeps.refl (t : CrTarget) (cr : Word) : t.Keeps cr cr := ⟨fun _ _ _ => rfl⟩

variable (cr : Word)

theorem keeps_setField (f : BitVec 3) (v : BitVec 4) :
    (field f).Keeps cr (Condition.setField cr f v) := by
  refine ⟨fun n k (hn : ¬ n = f) => ?_⟩
  rw [Condition.getMsbD_setField, if_neg hn]

theorem keeps_setBit (b : BitVec 5) (v : Bool) : (bit b).Keeps cr (Condition.setBit cr b v) := by
  refine ⟨fun n k (hb : ¬ n ++ k = b) => ?_⟩
  rw [Condition.getMsbD_setBit, if_neg hb]

theorem keeps_blend (mask : BitVec 8) (new : Word) :
    (fields mask).Keeps cr (Condition.blend mask cr new) := by
  refine ⟨fun n k (hmask : ¬ mask.getMsbD n.toNat = true) => ?_⟩
  rw [Condition.getMsbD_blend, if_neg hmask]

end CrTarget

/-! ## Instructions -/

def FixedInstr.crTarget : FixedInstr → CrTarget
  | .addImmediateCarrying _ _ _ rc => .record 0 rc
  | .arith _ _ _ _ _ rc => .record 0 rc
  | .logic _ _ _ _ rc => .record 0 rc
  | .unary _ _ _ rc => .record 0 rc
  | .shift _ _ _ _ rc => .record 0 rc
  | .rotateAnd _ _ _ _ _ rc => .record 0 rc
  | .rotateInsert _ _ _ _ _ rc => .record 0 rc
  | .compare _ f _ _ => .field f
  | _ => .nothing

def ConditionInstr.crTarget : ConditionInstr → CrTarget
  | .moveField target _ => .field target
  | .combine _ target _ _ => .bit target
  | .toRegister _ => .nothing
  | .fromRegister mask _ => .fields mask
  | .fromXer f => .field f

def FloatInstr.crTarget : FloatInstr → CrTarget
  | .arith _ _ _ _ _ _ rc => .record 1 rc
  | .select _ _ _ _ rc => .record 1 rc
  | .move _ _ _ rc => .record 1 rc
  | .roundToSingle _ _ rc => .record 1 rc
  | .toInteger _ _ _ rc => .record 1 rc
  | .compare _ f _ _ => .field f
  | .fromStatus _ rc => .record 1 rc
  | .clearStatusBit _ rc => .record 1 rc
  | .setStatusBit _ rc => .record 1 rc
  | .setStatusField _ _ rc => .record 1 rc
  | .setStatusFields _ _ rc => .record 1 rc
  | .statusToCondition target _ => .field target

def PairedInstr.crTarget : PairedInstr → CrTarget
  | .arith _ _ _ _ _ _ rc => .record 1 rc
  | .sum _ _ _ _ _ rc => .record 1 rc
  | .select _ _ _ _ rc => .record 1 rc
  | .move _ _ _ rc => .record 1 rc
  | .merge _ _ _ _ _ rc => .record 1 rc
  | .compare _ _ f _ _ => .field f

/-- What an instruction may write of the condition register. -/
def Instr.crTarget : Instr → CrTarget
  | .fixed i => i.crTarget
  | .condition i => i.crTarget
  | .float i => i.crTarget
  | .paired i => i.crTarget
  | .memory (.storeConditional ..) => .field 0
  | _ => .nothing

open CrTarget (keeps_setField keeps_setBit keeps_blend)

theorem FixedInstr.keeps_exec (i : FixedInstr) (r : Registers) :
    i.crTarget.Keeps r.cr (i.exec r).cr := by
  have hfinish (rd : Reg) (oe rc : Bool) (x : ArithResult) :
      (CrTarget.record 0 rc).Keeps r.cr (r.finish rd oe rc x).cr := by
    rw [Registers.cr_finish]
    cases rc with
    | true => exact keeps_setField ..
    | false => exact .refl ..
  cases i with
  | compare signed => cases signed <;> exact keeps_setField ..
  | addImmediateCarrying rd ra v rc => exact hfinish ..
  | subtractFromImmediate rd ra v => exact hfinish rd false false _
  | arith op rd ra rb oe rc => exact hfinish ..
  | logic op ra rs b rc => exact hfinish ra false rc ⟨_, none, none⟩
  | unary op ra rs rc => exact hfinish ra false rc ⟨_, none, none⟩
  | rotateAnd ra rs amount first last rc => exact hfinish ra false rc ⟨_, none, none⟩
  | rotateInsert ra rs amount first last rc => exact hfinish ra false rc ⟨_, none, none⟩
  | shift op ra rs amount rc => exact hfinish ra false rc ⟨_, _, none⟩
  | addImmediate | multiplyImmediate => exact .refl ..

theorem ConditionInstr.keeps_exec (i : ConditionInstr) (r : Registers) :
    i.crTarget.Keeps r.cr (i.exec r).cr := by
  cases i with
  | moveField | fromXer => exact keeps_setField ..
  | combine => exact keeps_setBit ..
  | toRegister => exact .refl ..
  | fromRegister => exact keeps_blend ..

/-- A record of the status replaces field one. -/
theorem Registers.keeps_recordStatus {r r' : Registers} {rc : Bool}
    (h : r'.cr = if rc then Condition.setField r.cr 1 (r'.fpscr.extractLsb' 28 4) else r.cr) :
    (CrTarget.record 1 rc).Keeps r.cr r'.cr := by
  rw [h]
  cases rc with
  | true => exact keeps_setField ..
  | false => exact .refl ..

open Registers (keeps_recordStatus)

theorem FloatInstr.keeps_exec (i : FloatInstr) (r : Registers) :
    i.crTarget.Keeps r.cr (i.exec r).cr := by
  cases i with
  | compare | statusToCondition => exact keeps_setField ..
  | arith op precision frt fra frb frc rc =>
      exact keeps_recordStatus (by cases precision <;> cases rc <;> rfl)
  | select frt fra frb frc rc => exact keeps_recordStatus (by cases rc <;> rfl)
  | move op frt frb rc => exact keeps_recordStatus (by cases rc <;> rfl)
  | roundToSingle frt frb rc => exact keeps_recordStatus (by cases rc <;> rfl)
  | toInteger truncate frt frb rc => exact keeps_recordStatus (by cases rc <;> rfl)
  | fromStatus frt rc => exact keeps_recordStatus (by cases rc <;> rfl)
  | clearStatusBit b rc => exact keeps_recordStatus (by cases rc <;> rfl)
  | setStatusBit b rc => exact keeps_recordStatus (by cases rc <;> rfl)
  | setStatusField n v rc => exact keeps_recordStatus (by cases rc <;> rfl)
  | setStatusFields mask frb rc => exact keeps_recordStatus (by cases rc <;> rfl)

theorem PairedInstr.keeps_exec (i : PairedInstr) (r : Registers) :
    i.crTarget.Keeps r.cr (i.exec r).cr := by
  cases i with
  | compare => exact keeps_setField ..
  | arith op broadcast frt fra frb frc rc => exact keeps_recordStatus (by cases rc <;> rfl)
  | sum lane frt fra frb frc rc =>
      exact keeps_recordStatus (by cases lane <;> cases rc <;> rfl)
  | select frt fra frb frc rc => exact keeps_recordStatus (by cases rc <;> rfl)
  | move op frt frb rc => exact keeps_recordStatus (by cases rc <;> rfl)
  | merge fromA fromB frt fra frb rc => exact keeps_recordStatus (by cases rc <;> rfl)

theorem SystemInstr.cr_exec (i : SystemInstr) (r : Registers) : (i.exec r).cr = r.cr := by
  cases i with
  | toSpecial n rs =>
      apply r.setSpecial_cases (motive := fun r' => r'.cr = r.cr)
      all_goals
        intros
        rfl
  | fromTimeBase rd upper => cases upper <;> rfl
  | _ => rfl

theorem MemoryInstr.keeps_exec (i : MemoryInstr) (m : Machine) :
    (Instr.memory i).crTarget.Keeps m.regs.cr (i.exec m).machine.regs.cr := by
  rcases i.regs_cases m with
    hregs | ⟨-, hregs⟩ | ⟨_, _, -, -, _, hregs⟩ | ⟨_, _, rfl, -, _, hregs⟩
  · rw [hregs]
    exact .refl ..
  · rw [hregs]
    exact .refl ..
  · rw [hregs]
    exact .refl ..
  · rw [hregs]
    exact keeps_setField ..

/-- An instruction keeps all bits of the condition register that are not in its target, whether it
completes or fails. -/
theorem Instr.keeps_exec (i : Instr) (m : Machine) :
    i.crTarget.Keeps m.regs.cr (i.exec m).machine.regs.cr := by
  cases i with
  | fixed i => exact i.keeps_exec m.regs
  | condition i => exact i.keeps_exec m.regs
  | float i => exact i.keeps_exec m.regs
  | paired i => exact i.keeps_exec m.regs
  | memory i => exact i.keeps_exec m
  | system i =>
      show CrTarget.nothing.Keeps m.regs.cr (i.exec m.regs).cr
      rw [i.cr_exec]
      exact .refl ..
  | branch i =>
      cases i with
      | always target lk => cases lk <;> exact .refl ..
      | conditional bo bi target lk => cases lk <;> exact .refl ..
  | trap options ra b =>
      simp only [exec]
      split <;> exact .refl ..

/-! ## Words -/

/-- The operation of a word of group 19 that combines two bits. -/
def Opcode.Control.logic? : Control → Option Logic
  | .crand => some .and
  | .crandc => some .andc
  | .creqv => some .eqv
  | .crnand => some .nand
  | .crnor => some .nor
  | .cror => some .or
  | .crorc => some .orc
  | .crxor => some .xor
  | _ => none

/-- Whether an opcode compares a register with an immediate, and if so as signed numbers. -/
def Opcode.Primary.comparison? : Primary → Option Bool
  | .cmpi => some true
  | .cmpli => some false
  | _ => none

/-- Whether an opcode of group 31 compares two registers, and if so as signed numbers. -/
def Opcode.Fixed.comparison? : Fixed → Option Bool
  | .cmp => some true
  | .cmpl => some false
  | _ => none

/-- The words that write the condition register, and what they may write of it. -/
inductive Word.WritesCondition (w : Word) : CrTarget → Prop
  | combine {op : Opcode.Control} {logic : Logic} (hw : op.Selects w)
      (hop : op.logic? = some logic) : WritesCondition w (.bit (Field.rt w))
  | moveField (hw : Opcode.Control.mcrf.Selects w) : WritesCondition w (.field (Field.crfd w))
  | fromXer (hw : Fixed.mcrxr.Selects w) : WritesCondition w (.field (Field.crfd w))
  | fromStatus (hw : DoubleMove.mcrfs.Selects w) : WritesCondition w (.field (Field.crfd w))
  | fromRegister (hw : Fixed.mtcrf.Selects w) : WritesCondition w (.fields (Field.crm w))
  | compareImmediate {op : Primary} {signed : Bool} (hw : op.Selects w)
      (hop : op.comparison? = some signed) (hl : Field.l w = false) :
      WritesCondition w (.field (Field.crfd w))
  | compareRegisters {op : Fixed} {signed : Bool} (hw : op.Selects w)
      (hop : op.comparison? = some signed) (hl : Field.l w = false) :
      WritesCondition w (.field (Field.crfd w))
  | compareFloats {lane : Lane} {ordered : Bool} (hw : w.ComparesFloats lane ordered) :
      WritesCondition w (.field (Field.crfd w))
  /-- A record of an integer result. -/
  | result {t : Reg} (hw : w.RecordsResult t) (hrc : Field.bit31 w = true) :
      WritesCondition w (.field 0)
  | resultImmediate {op : Primary} (hw : op.Selects w)
      (hop : op ∈ [Primary.addicRc, .andiRc, .andisRc]) : WritesCondition w (.field 0)
  | storeConditional (hw : Fixed.stwcx.Selects w) : WritesCondition w (.field 0)
  /-- A record of the floating point status. -/
  | status (hw : w.RecordsStatus) (hrc : Field.bit31 w = true) : WritesCondition w (.field 1)

namespace CrTarget

/-- Whether a word is listed with a target, if there is anything in it. -/
def Admits (t : CrTarget) (w : Word) : Prop := t ≠ .nothing → w.WritesCondition t

variable {w : Word}

theorem admits_nothing {t : CrTarget} (h : t = .nothing) : t.Admits w := fun hne => absurd h hne

theorem admits_record {f : BitVec 3} {rc : Bool} (h : rc = true → w.WritesCondition (.field f)) :
    (record f rc).Admits w := by
  cases rc with
  | true => exact fun _ => h rfl
  | false => exact admits_nothing rfl

end CrTarget

namespace Instr

open CrTarget (admits_nothing admits_record)

variable {w : Word}

/-! The parts of a form that say which field is written are those of the word. -/

theorem crfd_dForm : crField (DForm.decode w).rt = Field.crfd w := crField_extractLsb' w 21

theorem crfd_xForm : crField (XForm.decode w).rt = Field.crfd w := crField_extractLsb' w 21

theorem crfd_xlForm : crField (XlForm.decode w).bt = Field.crfd w := crField_extractLsb' w 21

theorem l_dForm : (DForm.decode w).l = Field.l w := by
  simp [DForm.l, DForm.decode, Field.l, Field.rt]

theorem l_xForm : (XForm.decode w).l = Field.l w := by
  simp [XForm.l, XForm.decode, Field.l, Field.rt]

theorem crm_xfxForm : (XfxForm.decode w).crm = Field.crm w := by
  apply BitVec.eq_of_getLsbD_eq
  intro i hi
  have hten : 1 + i < 10 := by omega
  have hsixteen : 1 + i < 16 := by omega
  simp [XfxForm.crm, XfxForm.decode, Field.crm, Field.sprField, hi, hten, hsixteen, ← Nat.add_assoc]

/-! ## From instructions back to words -/

theorem crTarget_ofDForm {op : Primary} (hw : op.Selects w) :
    Yields (ofDForm (.decode w)) (·.crTarget.Admits w) := by
  unfold ofDForm
  rw [hw.ofCode?_dForm]
  cases op with
  | cmpi | cmpli =>
      show Yields (if (DForm.decode w).l = true then _ else _) _
      rw [l_dForm, crfd_dForm]
      split
      · exact yields_error _
      · next hl => exact yields_ok fun _ =>
          .compareImmediate hw rfl (Bool.eq_false_of_not_eq_true hl)
  | addicRc | andiRc | andisRc => exact yields_ok fun _ => .resultImmediate hw (by decide)
  | lmw =>
      show Yields (if _ then _ else _) _
      split
      · exact yields_error _
      · exact yields_ok (admits_nothing rfl)
  | _ =>
      first
      | exact yields_error _
      | exact yields_ok (admits_nothing rfl)
      | exact yields_withBase (admits_nothing rfl)
      | exact yields_loadWithBase (admits_nothing rfl)

theorem crTarget_ofXForm31 {op : Fixed} (hw : op.Selects w) :
    Yields (ofXForm31 (.decode w)) (·.crTarget.Admits w) := by
  unfold ofXForm31
  rw [hw.ofCode?_xForm]
  cases op with
  | cmp | cmpl =>
      show Yields (if (XForm.decode w).l = true then _ else _) _
      rw [l_xForm, crfd_xForm]
      split
      · exact yields_error _
      · next hl => exact yields_ok fun _ =>
          .compareRegisters hw rfl (Bool.eq_false_of_not_eq_true hl)
  | mcrxr =>
      show Yields (.ok (.condition (.fromXer (crField (XForm.decode w).rt)))) _
      rw [crfd_xForm]
      exact yields_ok fun _ => .fromXer hw
  | stwcx => exact yields_ok fun _ => .storeConditional hw
  | and | andc | or | orc | xor | nand | nor | eqv | cntlzw | extsb | extsh | slw | srw | sraw
  | srawi => exact yields_ok (admits_record fun hrc => .result (.fixed hw rfl) hrc)
  | _ =>
      first
      | exact yields_error _
      | exact yields_ok (admits_nothing rfl)
      | exact yields_withBase (admits_nothing rfl)
      | exact yields_loadWithBase (admits_nothing rfl)

theorem crTarget_ofXlForm {op : Opcode.Control} (hw : op.Selects w) :
    Yields (ofXlForm (.decode w)) (·.crTarget.Admits w) := by
  unfold ofXlForm
  rw [hw.ofCode?_xlForm]
  cases op with
  | mcrf =>
      show Yields (.ok (.condition (.moveField (crField (XlForm.decode w).bt) _))) _
      rw [crfd_xlForm]
      exact yields_ok fun _ => .moveField hw
  | bcctr =>
      show Yields (if _ then _ else _) _
      split
      · exact yields_ok (admits_nothing rfl)
      · exact yields_error _
  | bclr | rfi | isync => exact yields_ok (admits_nothing rfl)
  | _ =>
      refine yields_ok fun _ => ?_
      show w.WritesCondition (.bit (reg (XlForm.decode w).bt))
      rw [XlForm.decode, reg_setWidth]
      exact .combine hw rfl

theorem crTarget_ofXfxForm {op : Fixed} (hw : op.Selects w) :
    Yields (ofXfxForm (.decode w)) (·.crTarget.Admits w) := by
  unfold ofXfxForm
  rw [hw.ofCode?_xfxForm]
  cases op with
  | mtcrf =>
      show Yields (.ok (.condition (.fromRegister (XfxForm.decode w).crm _))) _
      rw [crm_xfxForm]
      exact yields_ok fun _ => .fromRegister hw
  | mfspr | mtspr => exact yields_ok (admits_nothing rfl)
  | mftb =>
      simp only
      split
      · exact yields_ok (admits_nothing rfl)
      · split
        · exact yields_ok (admits_nothing rfl)
        · exact yields_error _
  | _ => exact yields_error _

theorem crTarget_ofMForm {op : Primary} (hw : op.Selects w)
    (hop : op ∈ [Primary.rlwimi, .rlwinm, .rlwnm]) :
    Yields (ofMForm (.decode w)) (·.crTarget.Admits w) := by
  have hrecord : (CrTarget.record 0 (Field.bit31 w)).Admits w :=
    admits_record fun hrc => .result (.rotate hw hop) hrc
  unfold ofMForm
  rw [hw.ofCode?_mForm]
  cases op <;> first | exact yields_error _ | exact yields_ok hrecord

theorem crTarget_ofXForm63 {op : DoubleMove} (hw : op.Selects w) :
    Yields (ofXForm63 (.decode w)) (·.crTarget.Admits w) := by
  unfold ofXForm63
  rw [hw.ofCode?_xForm]
  cases op with
  | fcmpu | fcmpo =>
      show Yields (.ok (.float (.compare _ (crField (XForm.decode w).rt) _ _))) _
      rw [crfd_xForm]
      exact yields_ok fun _ => .compareFloats (.scalar hw rfl)
  | mcrfs =>
      show Yields (.ok (.float (.statusToCondition (crField (XForm.decode w).rt) _))) _
      rw [crfd_xForm]
      exact yields_ok fun _ => .fromStatus hw
  | mtfsf => exact yields_error _
  | _ => exact yields_ok (admits_record fun hrc => .status (.doubleMove hw rfl) hrc)

theorem crTarget_ofXForm4 (hw : Primary.table4.Selects w) :
    Yields (ofXForm4 (.decode w)) (·.crTarget.Admits w) := by
  unfold ofXForm4
  cases hf : PairedMove.ofCode? (XForm.decode w).xo.toNat with
  | none => exact yields_error _
  | some op =>
      have hselects : op.Selects w :=
        ⟨hw, (toNat_xo_xForm w).symm.trans (PairedMove.code_of_ofCode? hf).symm⟩
      cases op with
      | cmpu0 | cmpo0 | cmpu1 | cmpo1 =>
          show Yields (.ok (.paired (.compare _ _ (crField (XForm.decode w).rt) _ _))) _
          rw [crfd_xForm]
          exact yields_ok fun _ => .compareFloats (.paired hselects rfl)
      | dcbzL => exact yields_ok (admits_nothing rfl)
      | _ => exact yields_ok (admits_record fun hrc => .status (.pairedMove hselects rfl) hrc)

theorem crTarget_ofAForm4 (hw : Primary.table4.Selects w) :
    Yields (ofAForm4 (.decode w)) (·.crTarget.Admits w) := by
  unfold ofAForm4
  cases hf : PairedArith.ofCode? (AForm.decode w).xo.toNat with
  | none => exact yields_error _
  | some op =>
      have hselects : op.Selects w :=
        ⟨hw, (toNat_xo_aForm w).symm.trans (PairedArith.code_of_ofCode? hf).symm⟩
      have hrecord : (CrTarget.record 1 (Field.bit31 w)).Admits w :=
        admits_record fun hrc => .status (.paired hselects) hrc
      cases op <;> exact yields_ok hrecord

theorem crTarget_ofAForm59 (hw : Primary.table59.Selects w) :
    Yields (ofAForm59 (.decode w)) (·.crTarget.Admits w) := by
  unfold ofAForm59
  cases hf : SingleArith.ofCode? (AForm.decode w).xo.toNat with
  | none => exact yields_error _
  | some op =>
      have hselects : op.Selects w :=
        ⟨hw, (toNat_xo_aForm w).symm.trans (SingleArith.code_of_ofCode? hf).symm⟩
      have hrecord : (CrTarget.record 1 (Field.bit31 w)).Admits w :=
        admits_record fun hrc => .status (.single hselects) hrc
      cases op <;> exact yields_ok hrecord

theorem crTarget_ofAForm63 (hw : Primary.table63.Selects w) :
    Yields (ofAForm63 (.decode w)) (·.crTarget.Admits w) := by
  unfold ofAForm63
  cases hf : DoubleArith.ofCode? (AForm.decode w).xo.toNat with
  | none => exact yields_error _
  | some op =>
      have hselects : op.Selects w :=
        ⟨hw, (toNat_xo_aForm w).symm.trans (DoubleArith.code_of_ofCode? hf).symm⟩
      have hrecord : (CrTarget.record 1 (Field.bit31 w)).Admits w :=
        admits_record fun hrc => .status (.double hselects) hrc
      cases op <;> exact yields_ok hrecord

/-- A word is listed with the target of the instruction that it stands for. -/
theorem crTarget_of_reads {x : Except Invalid Instr} (h : Reads w x) :
    Yields x (·.crTarget.Admits w) := by
  cases h with
  | unlisted => exact yields_error _
  | branch | conditional | call => exact yields_ok (admits_nothing rfl)
  | immediate hw _ => exact crTarget_ofDForm hw
  | rotate hw hop => exact crTarget_ofMForm hw hop
  | quantized =>
      exact yields_ofPsqForm _ (fun _ _ _ _ _ => admits_nothing rfl)
        fun _ _ _ _ _ => admits_nothing rfl
  | control hw => exact crTarget_ofXlForm hw
  | @arith op hw =>
      unfold ofXoForm
      rw [hw.ofCode?_xoForm]
      exact yields_ok (admits_record fun hrc => .result (.arith hw) hrc)
  | special hw _ => exact crTarget_ofXfxForm hw
  | fixed hw => exact crTarget_ofXForm31 hw
  | pairedArith hw => exact crTarget_ofAForm4 hw
  | pairedIndexed =>
      exact yields_ofPsqxForm _ (fun _ _ _ _ _ => admits_nothing rfl)
        fun _ _ _ _ _ => admits_nothing rfl
  | pairedMove hw => exact crTarget_ofXForm4 hw
  | single hw => exact crTarget_ofAForm59 hw
  | double hw => exact crTarget_ofAForm63 hw
  | doubleMove hw => exact crTarget_ofXForm63 hw
  | statusFields hw =>
      exact yields_ok (admits_record fun hrc => .status (.doubleMove hw rfl) hrc)

/-! ## From words to instructions -/

theorem ofWord_of_logic {op : Opcode.Control} {logic : Logic} (hw : op.Selects w)
    (hop : op.logic? = some logic) : ofWord w =
      .ok (.condition (.combine logic (Field.rt w) (Field.ra w) (Field.rb w))) := by
  rw [ofWord_of_control hw, ofXlForm, hw.ofCode?_xlForm]
  cases op <;> cases hop <;> simp only [XlForm.decode, reg_setWidth]

theorem ofWord_of_mcrf (hw : Opcode.Control.mcrf.Selects w) :
    ofWord w = .ok (.condition (.moveField (Field.crfd w) (Field.crfs w))) := by
  have hcrfs : crField (XlForm.decode w).ba = Field.crfs w := crField_extractLsb' w 16
  rw [ofWord_of_control hw, ofXlForm, hw.ofCode?_xlForm]
  simp only [crfd_xlForm, hcrfs]

theorem ofWord_of_mcrxr (hw : Fixed.mcrxr.Selects w) :
    ofWord w = .ok (.condition (.fromXer (Field.crfd w))) := by
  rw [ofWord_of_fixed hw (by decide), ofXForm31, hw.ofCode?_xForm]
  simp only [crfd_xForm]

theorem ofWord_of_mtcrf (hw : Fixed.mtcrf.Selects w) :
    ofWord w = .ok (.condition (.fromRegister (Field.crm w) (Field.rt w))) := by
  rw [ofWord_of_special hw (by decide), ofXfxForm, hw.ofCode?_xfxForm]
  simp only [crm_xfxForm]
  simp only [XfxForm.decode, reg_setWidth]

theorem ofWord_of_mfcr (hw : Fixed.mfcr.Selects w) :
    ofWord w = .ok (.condition (.toRegister (Field.rt w))) := by
  rw [ofWord_of_fixed hw (by decide), ofXForm31, hw.ofCode?_xForm]
  simp only [XForm.decode, reg_setWidth]

/-- A comparison with an immediate, which is extended as the comparison looks at it. -/
theorem ofWord_of_compareImmediate {op : Primary} {signed : Bool} (hw : op.Selects w)
    (hop : op.comparison? = some signed) (hl : Field.l w = false) : ofWord w =
      .ok (.fixed (.compare signed (Field.crfd w) (Field.ra w)
        (.imm (if signed then (Field.immediate w).signExtend 32
          else (Field.immediate w).setWidth 32)))) := by
  cases op with
  | cmpi | cmpli =>
      cases hop
      rw [ofWord_of_primary hw (by decide), ofDForm, hw.ofCode?_dForm]
      simp only [compareWords, l_dForm, hl, crfd_dForm]
      simp only [DForm.decode, reg_setWidth]
      rfl
  | _ => cases hop

theorem ofWord_of_compareRegisters {op : Fixed} {signed : Bool} (hw : op.Selects w)
    (hop : op.comparison? = some signed) (hl : Field.l w = false) : ofWord w =
      .ok (.fixed (.compare signed (Field.crfd w) (Field.ra w) (.reg (Field.rb w)))) := by
  cases op with
  | cmp | cmpl =>
      cases hop
      rw [ofWord_of_fixed hw (by decide), ofXForm31, hw.ofCode?_xForm]
      simp only [compareWords, l_xForm, hl, crfd_xForm]
      simp only [XForm.decode, reg_setWidth]
      rfl
  | _ => cases hop

/-- What records a result has field zero as its target. -/
theorem ReadsResult.crTarget {t : Reg} {x : Bool → Except Invalid Instr} (h : ReadsResult t x) :
    ∃ i, x true = .ok i ∧ i.crTarget = .field 0 := by
  cases h with
  | fixed h => exact ⟨_, rfl, by cases h <;> rfl⟩

/-- What records the status has field one as its target. -/
theorem ReadsStatus.crTarget {x : Bool → Except Invalid Instr} (h : ReadsStatus x) :
    ∃ i, x true = .ok i ∧ i.crTarget = .field 1 := by
  cases h with
  | float h => exact ⟨_, rfl, by cases h <;> rfl⟩
  | paired h => exact ⟨_, rfl, by cases h <;> rfl⟩

end Instr

namespace Word

open Instr

variable {w : Word} {t : CrTarget}

/-- A word that is listed stands for an instruction with its target. -/
theorem WritesCondition.crTarget (h : w.WritesCondition t) :
    ∃ i, ofWord w = .ok i ∧ i.crTarget = t := by
  cases h with
  | combine hw hop => exact ⟨_, ofWord_of_logic hw hop, rfl⟩
  | moveField hw => exact ⟨_, ofWord_of_mcrf hw, rfl⟩
  | fromXer hw => exact ⟨_, ofWord_of_mcrxr hw, rfl⟩
  | fromStatus hw => exact ⟨_, ofWord_of_mcrfs hw, rfl⟩
  | fromRegister hw => exact ⟨_, ofWord_of_mtcrf hw, rfl⟩
  | compareImmediate hw hop hl => exact ⟨_, ofWord_of_compareImmediate hw hop hl, rfl⟩
  | compareRegisters hw hop hl => exact ⟨_, ofWord_of_compareRegisters hw hop hl, rfl⟩
  | compareFloats hw =>
      cases hw with
      | scalar hw hop => exact ⟨_, ofWord_of_scalarComparison hw hop, rfl⟩
      | paired hw hop => exact ⟨_, ofWord_of_pairedComparison hw hop, rfl⟩
  | result hw hrc =>
      have hreads := hw.reads.crTarget
      rwa [← hrc, withRc_bit31] at hreads
  | status hw hrc =>
      have hreads := hw.reads.crTarget
      rwa [← hrc, withRc_bit31] at hreads
  | @resultImmediate op hw hop =>
      cases op with
      | addicRc | andiRc | andisRc =>
          rw [ofWord_of_primary hw (by decide), ofDForm, hw.ofCode?_dForm]
          exact ⟨_, rfl, rfl⟩
      | _ => exact absurd hop (by decide)
  | storeConditional hw =>
      rw [ofWord_of_fixed hw (by decide), ofXForm31, hw.ofCode?_xForm]
      exact ⟨_, rfl, rfl⟩

/-- The table is exact. -/
theorem writesCondition_iff (w : Word) (t : CrTarget) :
    w.WritesCondition t ↔ t ≠ .nothing ∧ ∃ i, ofWord w = .ok i ∧ i.crTarget = t := by
  constructor
  · intro h
    refine ⟨?_, h.crTarget⟩
    intro hnothing
    cases h <;> contradiction
  · rintro ⟨hne, i, hi, rfl⟩
    exact crTarget_of_reads (reads_ofWord w) i hi hne

end Word

namespace Machine

variable {m : Machine} {w : Word}

/-- A word that is listed changes what it is listed for at most. -/
theorem keeps_execute {t : CrTarget} (hw : w.WritesCondition t) (m : Machine) :
    t.Keeps m.regs.cr (m.execute w).machine.regs.cr := by
  obtain ⟨i, hi, rfl⟩ := hw.crTarget
  rw [execute_of_ofWord hi]
  exact i.keeps_exec m

/-- A word that changes a bit of the condition register is listed for it. -/
theorem listed_of_changed {n : BitVec 3} {k : BitVec 2}
    (h : (m.execute w).machine.regs.cr.getMsbD (n ++ k).toNat ≠
      m.regs.cr.getMsbD (n ++ k).toNat) : ∃ t, w.WritesCondition t ∧ t.Holds n k := by
  cases hi : Instr.ofWord w with
  | error e =>
      rw [execute_of_error hi] at h
      exact absurd rfl h
  | ok i =>
      rw [execute_of_ofWord hi] at h
      have hholds : i.crTarget.Holds n k :=
        Classical.byContradiction fun hnot => h ((i.keeps_exec m).outside n k hnot)
      have hne : i.crTarget ≠ .nothing := by
        intro hnothing
        rw [hnothing] at hholds
        exact hholds
      exact ⟨_, (Word.writesCondition_iff w _).2 ⟨hne, i, hi, rfl⟩, hholds⟩

end Machine

end Broadway
