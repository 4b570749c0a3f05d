import Broadway.Proofs.Instr.Reads

/-!
# Words of rotations, special moves and the floating point groups

The tables of groups 4, 59 and 63 select words as those of the other groups do; rotations and moves
of special registers have forms of their own. A word that one of these tables selects is read in the
form that goes with its opcode: a table of fewer bits goes before a wider one, but they have no word
in common.
-/

namespace Broadway

namespace Opcode

/-- Whether a word is of group 4 and has an extended opcode of arithmetic. -/
def PairedArith.Selects (op : PairedArith) (w : Word) : Prop :=
  Primary.table4.Selects w ∧ (Field.xo5 w).toNat = op.code

/-- Whether a word is of group 4 and has an extended opcode of a move or a comparison. -/
def PairedMove.Selects (op : PairedMove) (w : Word) : Prop :=
  Primary.table4.Selects w ∧ (Field.xo10 w).toNat = op.code

/-- Whether a word is of group 59 and has an extended opcode of that group. -/
def SingleArith.Selects (op : SingleArith) (w : Word) : Prop :=
  Primary.table59.Selects w ∧ (Field.xo5 w).toNat = op.code

/-- Whether a word is of group 63 and has an extended opcode of arithmetic. -/
def DoubleArith.Selects (op : DoubleArith) (w : Word) : Prop :=
  Primary.table63.Selects w ∧ (Field.xo5 w).toNat = op.code

instance (op : PairedArith) (w : Word) : Decidable (op.Selects w) :=
  inferInstanceAs (Decidable (_ ∧ _))

instance (op : PairedMove) (w : Word) : Decidable (op.Selects w) :=
  inferInstanceAs (Decidable (_ ∧ _))

instance (op : SingleArith) (w : Word) : Decidable (op.Selects w) :=
  inferInstanceAs (Decidable (_ ∧ _))

instance (op : DoubleArith) (w : Word) : Decidable (op.Selects w) :=
  inferInstanceAs (Decidable (_ ∧ _))

variable {w : Word}

theorem PairedArith.Selects.found {op : PairedArith} (h : op.Selects w) :
    ofCode? (Field.xo5 w).toNat = some op :=
  ofCode?_eq_some_iff.2 h.2.symm

theorem PairedMove.Selects.found {op : PairedMove} (h : op.Selects w) :
    ofCode? (Field.xo10 w).toNat = some op :=
  ofCode?_eq_some_iff.2 h.2.symm

theorem SingleArith.Selects.found {op : SingleArith} (h : op.Selects w) :
    ofCode? (Field.xo5 w).toNat = some op :=
  ofCode?_eq_some_iff.2 h.2.symm

theorem DoubleArith.Selects.found {op : DoubleArith} (h : op.Selects w) :
    ofCode? (Field.xo5 w).toNat = some op :=
  ofCode?_eq_some_iff.2 h.2.symm

theorem PairedArith.Selects.ofCode?_aForm {op : PairedArith} (h : op.Selects w) :
    ofCode? (AForm.decode w).xo.toNat = some op := by
  rw [Instr.toNat_xo_aForm]
  exact h.found

theorem SingleArith.Selects.ofCode?_aForm {op : SingleArith} (h : op.Selects w) :
    ofCode? (AForm.decode w).xo.toNat = some op := by
  rw [Instr.toNat_xo_aForm]
  exact h.found

theorem DoubleArith.Selects.ofCode?_aForm {op : DoubleArith} (h : op.Selects w) :
    ofCode? (AForm.decode w).xo.toNat = some op := by
  rw [Instr.toNat_xo_aForm]
  exact h.found

theorem Primary.Selects.ofCode?_mForm {op : Primary} (h : op.Selects w) :
    ofCode? (MForm.decode w).opcd.toNat = some op := by
  have hopcd : (MForm.decode w).opcd.toNat = (Field.opcd w).toNat :=
    BitVec.toNat_setWidth_of_le (by decide)
  rw [hopcd]
  exact h.found

theorem PairedMove.Selects.ofCode?_xForm {op : PairedMove} (h : op.Selects w) :
    ofCode? (XForm.decode w).xo.toNat = some op := by
  rw [Instr.toNat_xo_xForm]
  exact h.found

end Opcode

open Opcode

namespace Instr

variable {w : Word}

theorem ofWord_of_pairedArith {op : PairedArith} (hw : op.Selects w) :
    ofWord w = ofAForm4 (.decode w) := by
  have hkind : FormKind.ofTables? w = some .a := by
    rw [FormKind.ofTables?_group4 hw.1, FormKind.ofGroup4?, hw.found]
    rfl
  rw [ofWord_of_tables hkind]
  exact ofAForm_decode hw.1

/-- No arithmetic and no indexed access of group 4 has the extended opcode of a move. -/
theorem ofWord_of_pairedMove {op : PairedMove} (hw : op.Selects w) :
    ofWord w = ofXForm4 (.decode w) := by
  have hxo5 : (Field.xo5 w).toNat = op.code % 32 := by
    rw [← hw.2]
    simp [Field.xo5, Field.xo10, BitVec.extractLsb'_toNat]
  have hxo6 : (Field.xo6 w).toNat = op.code % 64 := by
    rw [← hw.2]
    simp [Field.xo6, Field.xo10, BitVec.extractLsb'_toNat]
  have harith : PairedArith.ofCode? (op.code % 32) = none := by
    cases op <;> rfl
  have hindexed : PairedIndexed.ofCode? (op.code % 64) = none := by
    cases op <;> rfl
  have hkind : FormKind.ofTables? w = some .x := by
    rw [FormKind.ofTables?_group4 hw.1, FormKind.ofGroup4?, hxo5, hxo6, harith, hindexed, hw.found]
    rfl
  rw [ofWord_of_tables hkind]
  exact ofXForm_decode hw.1

theorem ofWord_of_singleArith {op : SingleArith} (hw : op.Selects w) :
    ofWord w = ofAForm59 (.decode w) := by
  have hkind : FormKind.ofTables? w = some .a := by
    rw [FormKind.ofTables?_group59 hw.1, hw.found]
    rfl
  rw [ofWord_of_tables hkind]
  exact ofAForm_decode hw.1

theorem ofWord_of_doubleArith {op : DoubleArith} (hw : op.Selects w) :
    ofWord w = ofAForm63 (.decode w) := by
  have hkind : FormKind.ofTables? w = some .a := by
    rw [FormKind.ofTables?_group63 hw.1, FormKind.ofGroup63?, hw.found]
    rfl
  rw [ofWord_of_tables hkind]
  exact ofAForm_decode hw.1

/-- The one move of group 63 that has a form of its own. -/
theorem ofWord_of_statusFields (hw : DoubleMove.mtfsf.Selects w) :
    ofWord w = .ok (.float (.setStatusFields (Field.fm w) (Field.rb w) (Field.bit31 w))) := by
  have hxo5 : (Field.xo5 w).toNat = DoubleMove.mtfsf.code % 32 := by
    rw [← hw.2]
    simp [Field.xo5, Field.xo10, BitVec.extractLsb'_toNat]
  have hkind : FormKind.ofTables? w = some .xfl := by
    rw [FormKind.ofTables?_group63 hw.1, FormKind.ofGroup63?, hxo5, hw.found]
    rfl
  rw [ofWord_of_tables hkind, Form.decode, ofForm]
  simp only [XflForm.decode, reg_setWidth]

/-- A rotation has two bounds of a mask among its operands. -/
theorem ofWord_of_rotate {op : Primary} (hw : op.Selects w)
    (hop : op ∈ [Primary.rlwimi, .rlwinm, .rlwnm]) : ofWord w = ofMForm (.decode w) := by
  have hkind : FormKind.ofTables? w = some .m := by
    rw [FormKind.ofTables?, hw.found]
    cases op <;> first | rfl | exact absurd hop (by decide)
  rw [ofWord_of_tables hkind, Form.decode, ofForm]

/-- A word that names a special register or fields of the condition register. -/
theorem ofWord_of_special {op : Fixed} (hw : op.Selects w)
    (hop : op ∈ [Fixed.mtcrf, .mfspr, .mtspr, .mftb]) : ofWord w = ofXfxForm (.decode w) := by
  have hxo9 : (Field.xo9 w).toNat = op.code % 512 := by
    rw [← hw.2]
    simp [Field.xo9, Field.xo10, BitVec.extractLsb'_toNat]
  have harith : FixedArith.ofCode? (op.code % 512) = none := by
    cases op <;> rfl
  have hkind : FormKind.ofTables? w = some .xfx := by
    rw [FormKind.ofTables?_group31 hw.1, FormKind.ofGroup31?, hxo9, harith, hw.found]
    cases op <;> first | rfl | exact absurd hop (by decide)
  rw [ofWord_of_tables hkind, Form.decode, ofForm]

end Instr

end Broadway
