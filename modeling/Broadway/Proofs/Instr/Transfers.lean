import Broadway.Proofs.Instr.Reads

/-!
# Words of multiple, string and quantized transfers

Which register, address and count the words of these transfers name is read off their opcodes and
operand fields (`Word.MultipleAccess`, `Word.StringAccess`, `Word.QuantizedAccess`); the instruction
that such a word stands for has just these operands.
-/

namespace Broadway

open Opcode

/-- Whether a word is of group 4 and has an extended opcode of an indexed quantized access. -/
def Opcode.PairedIndexed.Selects (op : PairedIndexed) (w : Word) : Prop :=
  Primary.table4.Selects w ∧ (Field.xo6 w).toNat = op.code

instance (op : PairedIndexed) (w : Word) : Decidable (op.Selects w) :=
  inferInstanceAs (Decidable (_ ∧ _))

theorem Opcode.PairedIndexed.Selects.found {op : PairedIndexed} {w : Word} (h : op.Selects w) :
    ofCode? (Field.xo6 w).toNat = some op :=
  ofCode?_eq_some_iff.2 h.2.symm

namespace Word

/-- The registers from which on a word transfers words, and the address. -/
def MultipleAccess (op : Primary) (w : Word) (first : Reg) (a : Address) : Prop :=
  op.Selects w ∧ first = Field.rt w ∧
    a = .displaced (Field.ra w) ((Field.immediate w).signExtend 32)

/-- The first register, the address and the count of a word that transfers a string, with an
immediate count or with the count in XER. -/
inductive StringAccess (immediate indexed : Fixed) (w : Word) : Reg → Address → ByteCount → Prop
  | immediate (hw : immediate.Selects w) :
      StringAccess immediate indexed w (Field.rt w) (.displaced (Field.ra w) 0)
        (.immediate (Field.rb w))
  | indexed (hw : indexed.Selects w) :
      StringAccess immediate indexed w (Field.rt w) (.indexed (Field.ra w) (Field.rb w)) .fromXer

/-- The register, the address, the width and the quantization register of a word that transfers
quantized lanes, with a displacement or with an index. -/
inductive QuantizedAccess (displaced : Primary) (indexed : PairedIndexed) (w : Word) :
    Reg → Address → Bool → BitVec 3 → Prop
  | displaced (hw : displaced.Selects w) :
      QuantizedAccess displaced indexed w (Field.rt w)
        (.displaced (Field.ra w) ((Field.psqD w).signExtend 32)) (Field.psqW w) (Field.psqI w)
  | indexed (hw : indexed.Selects w) :
      QuantizedAccess displaced indexed w (Field.rt w) (.indexed (Field.ra w) (Field.rb w))
        (Field.psqWx w) (Field.psqIx w)

end Word

namespace Instr

variable {w : Word}

/-- A word of group 31 that is no arithmetic and names no special register is read from three
registers. -/
theorem ofWord_of_fixed {op : Fixed} (hw : op.Selects w)
    (hop : op ∉ [Fixed.mtcrf, .mfspr, .mtspr, .mftb]) : ofWord w = ofXForm31 (.decode w) := by
  have harith : FixedArith.ofCode? (Field.xo9 w).toNat = none := by
    cases hfound : FixedArith.ofCode? (Field.xo9 w).toNat with
    | none => rfl
    | some op' => exact absurd ⟨hw.1, (FixedArith.code_of_ofCode? hfound).symm⟩ hw.not_arith
  have hkind : FormKind.ofTables? w = some .x := by
    rw [FormKind.ofTables?_group31 hw.1, FormKind.ofGroup31?, harith, hw.found]
    cases op <;> first | rfl | exact absurd (by decide) hop
  rw [ofWord_of_tables hkind]
  exact ofXForm_decode hw.1

theorem ofWord_of_psq {op : Primary} (hw : op.Selects w)
    (hop : op ∈ [Primary.psqL, .psqLu, .psqSt, .psqStu]) : ofWord w = ofPsqForm (.decode w) := by
  have hkind : FormKind.ofTables? w = some .psq := by
    rw [FormKind.ofTables?, hw.found]
    cases op <;> first | rfl | exact absurd hop (by decide)
  rw [ofWord_of_tables hkind, Form.decode, ofForm]

/-- No arithmetic of group 4 has the extended opcode of an indexed access. -/
theorem ofWord_of_pairedIndexed {op : PairedIndexed} (hw : op.Selects w) :
    ofWord w = ofPsqxForm (.decode w) := by
  have hxo5 : (Field.xo5 w).toNat = op.code % 32 := by
    rw [← hw.2]
    simp [Field.xo5, Field.xo6, BitVec.extractLsb'_toNat]
  have harith : PairedArith.ofCode? (op.code % 32) = none := by
    cases op <;> rfl
  have hkind : FormKind.ofTables? w = some .psqx := by
    rw [FormKind.ofTables?_group4 hw.1, FormKind.ofGroup4?, hxo5, harith, hw.found]
    rfl
  rw [ofWord_of_tables hkind, Form.decode, ofForm]

theorem gqr_setWidth (b : BitVec 3) : (b.setWidth 8).setWidth 3 = b := by
  simp

section Multiple

variable {first : Reg} {a : Address}

/-- A multiple load is an instruction unless it would overwrite its base. -/
theorem ofWord_of_lmw (hw : w.MultipleAccess .lmw first a) (hbase : a.base < first) :
    ofWord w = .ok (.memory (.loadMultiple first a)) := by
  obtain ⟨hselects, rfl, rfl⟩ := hw
  have hlt : ¬ Field.rt w ≤ Field.ra w := BitVec.not_le.2 hbase
  rw [ofWord_of_primary hselects (by decide), ofDForm, hselects.ofCode?_dForm]
  simp only [DForm.decode, displaced, reg_setWidth, if_neg hlt]

theorem ofWord_of_stmw (hw : w.MultipleAccess .stmw first a) :
    ofWord w = .ok (.memory (.storeMultiple first a)) := by
  obtain ⟨hselects, rfl, rfl⟩ := hw
  rw [ofWord_of_primary hselects (by decide), ofDForm, hselects.ofCode?_dForm]
  simp only [DForm.decode, displaced, reg_setWidth]

end Multiple

section String

variable {first : Reg} {a : Address} {count : ByteCount}

theorem ofWord_of_loadString (hw : w.StringAccess .lswi .lswx first a count) :
    ofWord w = .ok (.memory (.loadString first a count)) := by
  cases hw with
  | immediate hselects =>
      rw [ofWord_of_fixed hselects (by decide), ofXForm31, hselects.ofCode?_xForm]
      simp only [XForm.decode, reg_setWidth]
  | indexed hselects =>
      rw [ofWord_of_fixed hselects (by decide), ofXForm31, hselects.ofCode?_xForm]
      simp only [XForm.decode, indexed, reg_setWidth]

theorem ofWord_of_storeString (hw : w.StringAccess .stswi .stswx first a count) :
    ofWord w = .ok (.memory (.storeString first a count)) := by
  cases hw with
  | immediate hselects =>
      rw [ofWord_of_fixed hselects (by decide), ofXForm31, hselects.ofCode?_xForm]
      simp only [XForm.decode, reg_setWidth]
  | indexed hselects =>
      rw [ofWord_of_fixed hselects (by decide), ofXForm31, hselects.ofCode?_xForm]
      simp only [XForm.decode, indexed, reg_setWidth]

end String

section Quantized

variable {frt : Reg} {a : Address} {one : Bool} {gqr : BitVec 3}

theorem ofCode?_psqxForm {op : PairedIndexed} (hw : op.Selects w) :
    PairedIndexed.ofCode? (PsqxForm.decode w).xo.toNat = some op := by
  have hxo : (PsqxForm.decode w).xo.toNat = (Field.xo6 w).toNat :=
    BitVec.toNat_setWidth_of_le (by decide)
  rw [hxo]
  exact hw.found

theorem ofWord_of_loadQuantized (hw : w.QuantizedAccess .psqL .psqLx frt a one gqr) :
    ofWord w = .ok (.memory (.loadQuantized frt a one gqr false)) := by
  cases hw with
  | displaced hselects =>
      rw [ofWord_of_psq hselects (by decide), ofPsqForm, hselects.ofCode?_psqForm]
      simp only [PsqForm.decode, plain, reg_setWidth, gqr_setWidth]
  | indexed hselects =>
      rw [ofWord_of_pairedIndexed hselects, ofPsqxForm, ofCode?_psqxForm hselects]
      simp only [PsqxForm.decode, plain, reg_setWidth, gqr_setWidth]

theorem ofWord_of_storeQuantized (hw : w.QuantizedAccess .psqSt .psqStx frt a one gqr) :
    ofWord w = .ok (.memory (.storeQuantized frt a one gqr false)) := by
  cases hw with
  | displaced hselects =>
      rw [ofWord_of_psq hselects (by decide), ofPsqForm, hselects.ofCode?_psqForm]
      simp only [PsqForm.decode, plain, reg_setWidth, gqr_setWidth]
  | indexed hselects =>
      rw [ofWord_of_pairedIndexed hselects, ofPsqxForm, ofCode?_psqxForm hselects]
      simp only [PsqxForm.decode, plain, reg_setWidth, gqr_setWidth]

end Quantized

end Instr

end Broadway
