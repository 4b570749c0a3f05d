import Broadway.Proofs.Instr.Dispatch

/-!
# From words to instructions

A word comes to its instruction through the opcode tables: a primary opcode, in a group an extended
one as well, and then the form in which the operands of that opcode are read. `Instr.Reads` lists
the ways that there are, each with the opcode that selects it, and every word goes one of them
(`Instr.reads_ofWord`). A table that says which words an instruction can come from is proved by a
case for each way, and there by a case for each opcode.
-/

namespace Broadway

namespace Opcode

/-- Whether a word has a primary opcode. -/
def Primary.Selects (op : Primary) (w : Word) : Prop := (Field.opcd w).toNat = op.code

/-- Whether a word is of group 19 and has an extended opcode. -/
def Control.Selects (op : Control) (w : Word) : Prop :=
  Primary.table19.Selects w ∧ (Field.xo10 w).toNat = op.code

/-- Whether a word is of group 31 and has an extended opcode. -/
def Fixed.Selects (op : Fixed) (w : Word) : Prop :=
  Primary.table31.Selects w ∧ (Field.xo10 w).toNat = op.code

/-- Whether a word is of group 31 and has an extended opcode of register arithmetic. -/
def FixedArith.Selects (op : FixedArith) (w : Word) : Prop :=
  Primary.table31.Selects w ∧ (Field.xo9 w).toNat = op.code

/-- Whether a word is of group 63 and has an extended opcode of a move. -/
def DoubleMove.Selects (op : DoubleMove) (w : Word) : Prop :=
  Primary.table63.Selects w ∧ (Field.xo10 w).toNat = op.code

instance (op : Primary) (w : Word) : Decidable (op.Selects w) :=
  inferInstanceAs (Decidable (_ = _))

instance (op : Control) (w : Word) : Decidable (op.Selects w) :=
  inferInstanceAs (Decidable (_ ∧ _))

instance (op : Fixed) (w : Word) : Decidable (op.Selects w) :=
  inferInstanceAs (Decidable (_ ∧ _))

instance (op : FixedArith) (w : Word) : Decidable (op.Selects w) :=
  inferInstanceAs (Decidable (_ ∧ _))

instance (op : DoubleMove) (w : Word) : Decidable (op.Selects w) :=
  inferInstanceAs (Decidable (_ ∧ _))

variable {w : Word}

/-! ## The tables find the opcode of a word -/

theorem Primary.Selects.found {op : Primary} (h : op.Selects w) :
    ofCode? (Field.opcd w).toNat = some op :=
  ofCode?_eq_some_iff.2 h.symm

theorem Control.Selects.found {op : Control} (h : op.Selects w) :
    ofCode? (Field.xo10 w).toNat = some op :=
  ofCode?_eq_some_iff.2 h.2.symm

theorem Fixed.Selects.found {op : Fixed} (h : op.Selects w) :
    ofCode? (Field.xo10 w).toNat = some op :=
  ofCode?_eq_some_iff.2 h.2.symm

theorem FixedArith.Selects.found {op : FixedArith} (h : op.Selects w) :
    ofCode? (Field.xo9 w).toNat = some op :=
  ofCode?_eq_some_iff.2 h.2.symm

theorem DoubleMove.Selects.found {op : DoubleMove} (h : op.Selects w) :
    ofCode? (Field.xo10 w).toNat = some op :=
  ofCode?_eq_some_iff.2 h.2.symm

/-! So a word has one opcode of a kind. -/

theorem Primary.Selects.unique {op op' : Primary} (h : op.Selects w) (h' : op'.Selects w) :
    op = op' :=
  Option.some.inj (h.found.symm.trans h'.found)

theorem Fixed.Selects.unique {op op' : Fixed} (h : op.Selects w) (h' : op'.Selects w) :
    op = op' :=
  Option.some.inj (h.found.symm.trans h'.found)

theorem FixedArith.Selects.unique {op op' : FixedArith} (h : op.Selects w) (h' : op'.Selects w) :
    op = op' :=
  Option.some.inj (h.found.symm.trans h'.found)

theorem DoubleMove.Selects.unique {op op' : DoubleMove} (h : op.Selects w)
    (h' : op'.Selects w) : op = op' :=
  Option.some.inj (h.found.symm.trans h'.found)

/-- The two tables of group 31 have no word in common. -/
theorem Fixed.Selects.not_arith {op : Fixed} {op' : FixedArith} (h : op.Selects w) :
    ¬ op'.Selects w := by
  intro h'
  have hxo9 : (Field.xo9 w).toNat = (Field.xo10 w).toNat % 512 := by
    simp [Field.xo9, Field.xo10, BitVec.extractLsb'_toNat]
  have hfound : FixedArith.ofCode? (op.code % 512) = some op' := by
    rw [← h.2, ← hxo9]
    exact h'.found
  have hnone : FixedArith.ofCode? (op.code % 512) = none := by
    cases op <;> rfl
  rw [hnone] at hfound
  contradiction

/-! ## The opcodes of a form that was read from a word -/

theorem Primary.Selects.ofCode?_dForm {op : Primary} (h : op.Selects w) :
    ofCode? (DForm.decode w).opcd.toNat = some op := by
  rw [Instr.toNat_opcd_dForm]
  exact h.found

theorem Fixed.Selects.ofCode?_xForm {op : Fixed} (h : op.Selects w) :
    ofCode? (XForm.decode w).xo.toNat = some op := by
  rw [Instr.toNat_xo_xForm]
  exact h.found

theorem Fixed.Selects.ofCode?_xfxForm {op : Fixed} (h : op.Selects w) :
    ofCode? (XfxForm.decode w).xo.toNat = some op := by
  have hxo : (XfxForm.decode w).xo.toNat = (Field.xo10 w).toNat :=
    BitVec.toNat_setWidth_of_le (by decide)
  rw [hxo]
  exact h.found

theorem FixedArith.Selects.ofCode?_xoForm {op : FixedArith} (h : op.Selects w) :
    ofCode? (XoForm.decode w).xo.toNat = some op := by
  have hxo : (XoForm.decode w).xo.toNat = (Field.xo9 w).toNat :=
    BitVec.toNat_setWidth_of_le (by decide)
  rw [hxo]
  exact h.found

theorem DoubleMove.Selects.ofCode?_xForm {op : DoubleMove} (h : op.Selects w) :
    ofCode? (XForm.decode w).xo.toNat = some op := by
  rw [Instr.toNat_xo_xForm]
  exact h.found

theorem Control.Selects.ofCode?_xlForm {op : Control} (h : op.Selects w) :
    ofCode? (XlForm.decode w).xo.toNat = some op := by
  have hxo : (XlForm.decode w).xo.toNat = (Field.xo10 w).toNat :=
    BitVec.toNat_setWidth_of_le (by decide)
  rw [hxo]
  exact h.found

theorem Primary.Selects.ofCode?_psqForm {op : Primary} (h : op.Selects w) :
    ofCode? (PsqForm.decode w).opcd.toNat = some op := by
  have hopcd : (PsqForm.decode w).opcd.toNat = (Field.opcd w).toNat :=
    BitVec.toNat_setWidth_of_le (by decide)
  rw [hopcd]
  exact h.found

end Opcode

open Opcode

/-! ## The form of a word that a group holds -/

namespace FormKind

variable {w : Word}

theorem ofTables?_group4 (hw : Primary.table4.Selects w) : ofTables? w = ofGroup4? w := by
  rw [ofTables?, hw.found]
  rfl

theorem ofTables?_group19 (hw : Primary.table19.Selects w) :
    ofTables? w = (Control.ofCode? (Field.xo10 w).toNat).map fun _ => .xl := by
  rw [ofTables?, hw.found]
  rfl

theorem ofTables?_group31 (hw : Primary.table31.Selects w) : ofTables? w = ofGroup31? w := by
  rw [ofTables?, hw.found]
  rfl

theorem ofTables?_group59 (hw : Primary.table59.Selects w) :
    ofTables? w = (SingleArith.ofCode? (Field.xo5 w).toNat).map fun _ => .a := by
  rw [ofTables?, hw.found]
  rfl

theorem ofTables?_group63 (hw : Primary.table63.Selects w) : ofTables? w = ofGroup63? w := by
  rw [ofTables?, hw.found]
  rfl

end FormKind

namespace Instr

/-- How a word is read: either no table lists it, or it has an opcode and its operands are those of
the form that goes with the opcode. -/
inductive Reads (w : Word) : Except Invalid Instr → Prop
  | unlisted : Reads w (.error (.unknown w))
  | branch (hw : Primary.b.Selects w) : Reads w (.ok (ofIForm (.decode w)))
  | conditional (hw : Primary.bc.Selects w) : Reads w (.ok (ofBForm (.decode w)))
  | call (hw : Primary.sc.Selects w) : Reads w (.ok (.system .call))
  | immediate {op : Primary} (hw : op.Selects w) (hop : op ≠ .table31 ∧ op ≠ .table63) :
      Reads w (ofDForm (.decode w))
  | rotate {op : Primary} (hw : op.Selects w) (hop : op ∈ [Primary.rlwimi, .rlwinm, .rlwnm]) :
      Reads w (ofMForm (.decode w))
  | quantized {op : Primary} (hw : op.Selects w)
      (hop : op ∈ [Primary.psqL, .psqLu, .psqSt, .psqStu]) : Reads w (ofPsqForm (.decode w))
  | control {op : Control} (hw : op.Selects w) : Reads w (ofXlForm (.decode w))
  | arith {op : FixedArith} (hw : op.Selects w) : Reads w (ofXoForm (.decode w))
  | special {op : Fixed} (hw : op.Selects w) (hop : op ∈ [Fixed.mtcrf, .mfspr, .mtspr, .mftb]) :
      Reads w (ofXfxForm (.decode w))
  | fixed {op : Fixed} (hw : op.Selects w) : Reads w (ofXForm31 (.decode w))
  | pairedArith (hw : Primary.table4.Selects w) : Reads w (ofAForm4 (.decode w))
  | pairedIndexed (hw : Primary.table4.Selects w) : Reads w (ofPsqxForm (.decode w))
  | pairedMove (hw : Primary.table4.Selects w) : Reads w (ofXForm4 (.decode w))
  | single (hw : Primary.table59.Selects w) : Reads w (ofAForm59 (.decode w))
  | double (hw : Primary.table63.Selects w) : Reads w (ofAForm63 (.decode w))
  | doubleMove {op : DoubleMove} (hw : op.Selects w) : Reads w (ofXForm63 (.decode w))
  | statusFields (hw : DoubleMove.mtfsf.Selects w) : Reads w (ofForm (.decode .xfl w))

variable {w : Word}

/-- A register number is read from its component as it stands in the word. -/
theorem reg_setWidth (b : BitVec 5) : reg (b.setWidth 8) = b := by
  simp [reg]

/-- A condition register field is the high part of its component. -/
theorem crField_extractLsb' (w : Word) (start : Nat) :
    crField ((w.extractLsb' start 5).setWidth 8) = w.extractLsb' (start + 2) 3 := by
  apply BitVec.eq_of_getLsbD_eq
  intro i hi
  have hbyte : 2 + i < 8 := by omega
  have hfield : 2 + i < 5 := by omega
  simp [crField, hi, hbyte, hfield, Nat.add_assoc]

/-- The number of a special register is read with its halves in order. -/
theorem spr_decode (w : Word) : (XfxForm.decode w).spr = Field.spr w := by
  simp [XfxForm.spr, XfxForm.decode, Field.spr]

/-- In a group the forms of three registers and of arithmetic belong to that group. -/
theorem ofXForm_decode {op : Primary} (hw : op.Selects w) :
    ofForm (.decode .x w) =
      match op with
      | .table4 => ofXForm4 (.decode w)
      | .table31 => ofXForm31 (.decode w)
      | .table63 => ofXForm63 (.decode w)
      | _ => .error (.unknown w) := by
  have hopcd : Primary.ofCode? (XForm.decode w).opcd.toNat = some op := by
    rw [toNat_opcd_xForm]
    exact hw.found
  rw [Form.decode, ofForm, ofXForm, hopcd]
  cases op <;> simp only [XForm.encode_decode]

theorem ofAForm_decode {op : Primary} (hw : op.Selects w) :
    ofForm (.decode .a w) =
      match op with
      | .table4 => ofAForm4 (.decode w)
      | .table59 => ofAForm59 (.decode w)
      | .table63 => ofAForm63 (.decode w)
      | _ => .error (.unknown w) := by
  have hopcd : Primary.ofCode? (AForm.decode w).opcd.toNat = some op := by
    rw [toNat_opcd_aForm]
    exact hw.found
  rw [Form.decode, ofForm, ofAForm, hopcd]
  cases op <;> simp only [AForm.encode_decode]

theorem reads_group4 (hw : Primary.table4.Selects w) {k : FormKind}
    (hk : FormKind.ofGroup4? w = some k) : Reads w (ofForm (.decode k w)) := by
  unfold FormKind.ofGroup4? at hk
  split at hk
  · cases hk
    rw [ofAForm_decode hw]
    exact .pairedArith hw
  · split at hk
    · cases hk
      exact .pairedIndexed hw
    · obtain ⟨op, -, rfl⟩ := Option.map_eq_some_iff.1 hk
      rw [ofXForm_decode hw]
      exact .pairedMove hw

theorem reads_group31 (hw : Primary.table31.Selects w) {k : FormKind}
    (hk : FormKind.ofGroup31? w = some k) : Reads w (ofForm (.decode k w)) := by
  unfold FormKind.ofGroup31? at hk
  split at hk
  · next harith =>
    cases hk
    obtain ⟨op, hop⟩ := Option.isSome_iff_exists.1 harith
    exact .arith ⟨hw, (FixedArith.code_of_ofCode? hop).symm⟩
  · obtain ⟨op, hop, hkind⟩ := Option.map_eq_some_iff.1 hk
    have hselects : op.Selects w := ⟨hw, (Fixed.code_of_ofCode? hop).symm⟩
    cases op with
    | mtcrf | mfspr | mtspr | mftb =>
        cases hkind
        exact .special hselects (by decide)
    | _ =>
        cases hkind
        rw [ofXForm_decode hw]
        exact .fixed hselects

theorem reads_group63 (hw : Primary.table63.Selects w) {k : FormKind}
    (hk : FormKind.ofGroup63? w = some k) : Reads w (ofForm (.decode k w)) := by
  unfold FormKind.ofGroup63? at hk
  split at hk
  · cases hk
    rw [ofAForm_decode hw]
    exact .double hw
  · obtain ⟨op, hop, hkind⟩ := Option.map_eq_some_iff.1 hk
    have hselects : op.Selects w := ⟨hw, (DoubleMove.code_of_ofCode? hop).symm⟩
    cases op with
    | mtfsf =>
        cases hkind
        exact .statusFields hselects
    | _ =>
        cases hkind
        rw [ofXForm_decode hw]
        exact .doubleMove hselects

theorem reads_ofTables {k : FormKind} (hk : FormKind.ofTables? w = some k) :
    Reads w (ofForm (.decode k w)) := by
  obtain ⟨op, hprimary, hkind⟩ := Option.bind_eq_some_iff.1 hk
  have hw : op.Selects w := (Primary.code_of_ofCode? hprimary).symm
  cases op with
  | table4 => exact reads_group4 hw hkind
  | table31 => exact reads_group31 hw hkind
  | table63 => exact reads_group63 hw hkind
  | table19 =>
      obtain ⟨op, hop, rfl⟩ := Option.map_eq_some_iff.1 hkind
      exact .control ⟨hw, (Control.code_of_ofCode? hop).symm⟩
  | table59 =>
      obtain ⟨op, -, rfl⟩ := Option.map_eq_some_iff.1 hkind
      rw [ofAForm_decode hw]
      exact .single hw
  | b =>
      cases hkind
      exact .branch hw
  | bc =>
      cases hkind
      exact .conditional hw
  | sc =>
      cases hkind
      exact .call hw
  | rlwimi | rlwinm | rlwnm =>
      cases hkind
      exact .rotate hw (by decide)
  | psqL | psqLu | psqSt | psqStu =>
      cases hkind
      exact .quantized hw (by decide)
  | _ =>
      cases hkind
      exact .immediate hw (by decide)

/-- Every word is read in one of these ways. -/
theorem reads_ofWord (w : Word) : Reads w (ofWord w) := by
  rw [← dispatch_eq_ofWord]
  unfold dispatch
  cases hk : FormKind.ofTables? w with
  | none => exact .unlisted
  | some k => exact reads_ofTables hk

/-- A word that the tables list is read in the form that goes with its opcode. -/
theorem ofWord_of_tables {k : FormKind} (hk : FormKind.ofTables? w = some k) :
    ofWord w = ofForm (.decode k w) := by
  rw [← dispatch_eq_ofWord, dispatch, hk]

/-- A word whose primary opcode has no form of its own is read with an immediate. -/
theorem ofWord_of_primary {op : Primary} (hw : op.Selects w)
    (hop : op ∉ [Primary.table4, .table19, .table31, .table59, .table63, .b, .bc, .sc, .rlwimi,
      .rlwinm, .rlwnm, .psqL, .psqLu, .psqSt, .psqStu]) : ofWord w = ofDForm (.decode w) := by
  have hkind : FormKind.ofTables? w = some .d := by
    rw [FormKind.ofTables?, hw.found]
    cases op <;> first | rfl | exact absurd (by decide) hop
  rw [ofWord_of_tables hkind, Form.decode, ofForm]

/-- A word of register arithmetic. -/
theorem ofWord_of_arith {op : FixedArith} (hw : op.Selects w) :
    ofWord w = .ok (.fixed (.arith op (Field.rt w) (Field.ra w) (Field.rb w) (Field.oe w)
      (Field.bit31 w))) := by
  have hkind : FormKind.ofTables? w = some .xo := by
    rw [FormKind.ofTables?_group31 hw.1, FormKind.ofGroup31?, hw.found]
    rfl
  rw [ofWord_of_tables hkind, Form.decode, ofForm, ofXoForm, hw.ofCode?_xoForm]
  simp only [XoForm.decode, reg_setWidth]

/-- A move of group 63 is read from three registers; no arithmetic has its opcode. -/
theorem ofWord_of_doubleMove {op : DoubleMove} (hw : op.Selects w) (hop : op ≠ .mtfsf) :
    ofWord w = ofXForm63 (.decode w) := by
  have hxo5 : (Field.xo5 w).toNat = op.code % 32 := by
    rw [← hw.2]
    simp [Field.xo5, Field.xo10, BitVec.extractLsb'_toNat]
  have hkind : FormKind.ofTables? w = some .x := by
    rw [FormKind.ofTables?_group63 hw.1, FormKind.ofGroup63?, hxo5, hw.found]
    cases op <;> first | rfl | contradiction
  rw [ofWord_of_tables hkind]
  exact ofXForm_decode hw.1

/-! ## What a reading stands for -/

/-- A reading stands for an instruction with some property, if for any. -/
def Yields (x : Except Invalid Instr) (P : Instr → Prop) : Prop := ∀ i, x = .ok i → P i

variable {P : Instr → Prop}

theorem yields_error (e : Invalid) : Yields (.error e) P := by
  intro i h
  contradiction

theorem yields_ok {i : Instr} (h : P i) : Yields (.ok i) P := by
  intro j hj
  cases hj
  exact h

theorem yields_withBase {mnemonic : String} {base : Reg} {i : MemoryInstr} (h : P (.memory i)) :
    Yields (withBase mnemonic base i) P := by
  unfold withBase
  split
  · exact yields_error _
  · exact yields_ok h

theorem yields_loadWithBase {mnemonic : String} {kind : Load} {rd : Reg} {address : Address}
    (h : P (.memory (.load kind rd address true))) :
    Yields (loadWithBase mnemonic kind rd address) P := by
  unfold loadWithBase
  split
  · exact yields_error _
  · exact yields_ok h

theorem yields_compareWords {mnemonic : String} {doubleword signed : Bool} {field : BitVec 3}
    {ra : Reg} {b : Operand} (h : P (.fixed (.compare signed field ra b))) :
    Yields (compareWords mnemonic doubleword signed field ra b) P := by
  unfold compareWords
  split
  · exact yields_error _
  · exact yields_ok h

/-! Forms that stand for instructions of few kinds. -/

theorem yields_ofDForm (f : DForm) (hfixed : ∀ i, P (.fixed i))
    (htrap : ∀ options ra b, P (.trap options ra b)) (hmemory : ∀ i, P (.memory i)) :
    Yields (ofDForm f) P := by
  unfold ofDForm
  cases Primary.ofCode? f.opcd.toNat with
  | none => exact yields_error _
  | some op =>
      cases op with
      | lmw =>
          show Yields (if _ then _ else _) P
          split
          · exact yields_error _
          · exact yields_ok (hmemory _)
      | _ =>
          first
          | exact yields_error _
          | exact yields_ok (hfixed _)
          | exact yields_ok (htrap ..)
          | exact yields_ok (hmemory _)
          | exact yields_withBase (hmemory _)
          | exact yields_loadWithBase (hmemory _)
          | exact yields_compareWords (hfixed _)

theorem yields_ofXForm31 (f : XForm) (hfixed : ∀ i, P (.fixed i))
    (htrap : ∀ options ra b, P (.trap options ra b)) (hcondition : ∀ i, P (.condition i))
    (hsystem : ∀ i, P (.system i)) (hmemory : ∀ i, P (.memory i)) : Yields (ofXForm31 f) P := by
  unfold ofXForm31
  split
  all_goals
    first
    | exact yields_error _
    | exact yields_ok (hfixed _)
    | exact yields_ok (htrap ..)
    | exact yields_ok (hcondition _)
    | exact yields_ok (hsystem _)
    | exact yields_ok (hmemory _)
    | exact yields_withBase (hmemory _)
    | exact yields_loadWithBase (hmemory _)
    | exact yields_compareWords (hfixed _)

theorem yields_ofMForm (f : MForm)
    (hand : ∀ ra rs amount first last rc, P (.fixed (.rotateAnd ra rs amount first last rc)))
    (hinsert : ∀ ra rs amount first last rc,
      P (.fixed (.rotateInsert ra rs amount first last rc))) : Yields (ofMForm f) P := by
  unfold ofMForm
  split
  · exact yields_ok (hinsert ..)
  · exact yields_ok (hand ..)
  · exact yields_ok (hand ..)
  · exact yields_error _

theorem yields_ofXoForm (f : XoForm)
    (h : ∀ op, FixedArith.ofCode? f.xo.toNat = some op → ∀ rd ra rb oe rc,
      P (.fixed (.arith op rd ra rb oe rc))) : Yields (ofXoForm f) P := by
  unfold ofXoForm
  split
  · next op hop => exact yields_ok (h op hop ..)
  · exact yields_error _

theorem yields_ofXlForm (f : XlForm) (hbranch : ∀ i, P (.branch i))
    (hmove : ∀ target source, P (.condition (.moveField target source)))
    (hcombine : ∀ op target a b, P (.condition (.combine op target a b)))
    (hreturn : P (.system .returnFromInterrupt)) (hnothing : P (.system .nothing)) :
    Yields (ofXlForm f) P := by
  unfold ofXlForm
  cases Control.ofCode? f.xo.toNat with
  | none => exact yields_error _
  | some op =>
      cases op with
      | mcrf => exact yields_ok (hmove ..)
      | bclr => exact yields_ok (hbranch _)
      | bcctr =>
          show Yields (if _ then _ else _) P
          split
          · exact yields_ok (hbranch _)
          · exact yields_error _
      | rfi => exact yields_ok hreturn
      | isync => exact yields_ok hnothing
      | _ => exact yields_ok (hcombine ..)

theorem yields_ofXfxForm (f : XfxForm)
    (hcondition : ∀ mask rs, P (.condition (.fromRegister mask rs)))
    (hfrom : ∀ rd number, P (.system (.fromSpecial rd number)))
    (hto : Fixed.ofCode? f.xo.toNat = some .mtspr → ∀ rs, P (.system (.toSpecial f.spr rs)))
    (htime : ∀ rd upper, P (.system (.fromTimeBase rd upper))) : Yields (ofXfxForm f) P := by
  unfold ofXfxForm
  split
  · exact yields_ok (hcondition ..)
  · exact yields_ok (hfrom ..)
  · next hop => exact yields_ok (hto hop _)
  · simp only
    split
    · exact yields_ok (htime ..)
    · split
      · exact yields_ok (htime ..)
      · exact yields_error _
  · exact yields_error _

theorem yields_ofPsqForm (f : PsqForm)
    (hload : ∀ frt address one gqr update, P (.memory (.loadQuantized frt address one gqr update)))
    (hstore : ∀ frs address one gqr update,
      P (.memory (.storeQuantized frs address one gqr update))) : Yields (ofPsqForm f) P := by
  unfold ofPsqForm
  split
  · exact yields_ok (hload ..)
  · exact yields_withBase (hload ..)
  · exact yields_ok (hstore ..)
  · exact yields_withBase (hstore ..)
  · exact yields_error _

theorem yields_ofPsqxForm (f : PsqxForm)
    (hload : ∀ frt address one gqr update, P (.memory (.loadQuantized frt address one gqr update)))
    (hstore : ∀ frs address one gqr update,
      P (.memory (.storeQuantized frs address one gqr update))) : Yields (ofPsqxForm f) P := by
  unfold ofPsqxForm
  split
  · exact yields_ok (hload ..)
  · exact yields_withBase (hload ..)
  · exact yields_ok (hstore ..)
  · exact yields_withBase (hstore ..)
  · exact yields_error _

theorem yields_ofAForm4 (f : AForm) (h : ∀ i, P (.paired i)) : Yields (ofAForm4 f) P := by
  unfold ofAForm4
  split
  all_goals first | exact yields_ok (h _) | exact yields_error _

theorem yields_ofXForm4 (f : XForm) (h : ∀ i, P (.paired i)) (hnothing : P (.system .nothing)) :
    Yields (ofXForm4 f) P := by
  unfold ofXForm4
  split
  all_goals first | exact yields_ok (h _) | exact yields_ok hnothing | exact yields_error _

theorem yields_ofAForm59 (f : AForm)
    (h : ∀ op precision frt fra frb frc rc, P (.float (.arith op precision frt fra frb frc rc))) :
    Yields (ofAForm59 f) P := by
  unfold ofAForm59
  split
  all_goals first | exact yields_ok (h ..) | exact yields_error _

theorem yields_ofAForm63 (f : AForm)
    (h : ∀ op precision frt fra frb frc rc, P (.float (.arith op precision frt fra frb frc rc)))
    (hselect : ∀ frt fra frb frc rc, P (.float (.select frt fra frb frc rc))) :
    Yields (ofAForm63 f) P := by
  unfold ofAForm63
  split
  all_goals
    first
    | exact yields_ok (h ..)
    | exact yields_ok (hselect ..)
    | exact yields_error _

theorem yields_ofXForm63 (f : XForm) (h : ∀ i, P (.float i)) : Yields (ofXForm63 f) P := by
  unfold ofXForm63
  split
  all_goals first | exact yields_ok (h _) | exact yields_error _

end Instr

end Broadway
