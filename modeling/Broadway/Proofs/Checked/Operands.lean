import Broadway.Proofs.Checked.Decode

/-!
# Operands with checked arithmetic

A form hands its operands over as bytes. Every byte that is used as the number of a register or of
a condition bit has to name one, a byte that holds the number of a field in its high bits is shifted
down first, and the immediates of the shifted instructions are shifted up. What is left of a form
after that is its instruction.

* The operands of a word that was taken apart all fit (`Checked.ofForm_eq`).
* A component that is wider than its field does not (`Checked.number_of_wide`).
-/

namespace Broadway.Checked

open Opcode

/-! ## Numbers -/

/-- The register or condition bit that a component names. -/
def number (b : Byte) : Checked Reg := index 5 b.toNat

/-- The condition register field that a component of five bits names with its high bits. -/
def fieldNumber (b : Byte) : Checked (BitVec 3) := do
  let n ← shr b 2
  index 3 n.toNat

theorem number_setWidth (r : Reg) : number (r.setWidth 8) = .ok (Instr.reg (r.setWidth 8)) := by
  rw [number, BitVec.toNat_setWidth_of_le (by decide), index_toNat, Instr.reg_setWidth]

/-- A component that is too wide names nothing. -/
theorem number_of_wide {b : Byte} (h : 32 ≤ b.toNat) : number b = .error .index :=
  if_neg (Nat.not_lt.2 h)

theorem fieldNumber_setWidth (r : Reg) :
    fieldNumber (r.setWidth 8) = .ok (Instr.crField (r.setWidth 8)) := by
  have hr : r.toNat < 32 := r.isLt
  have hshift : (r.setWidth 8 >>> 2).toNat = r.toNat / 4 := by
    rw [BitVec.toNat_ushiftRight, BitVec.toNat_setWidth_of_le (by decide),
      Nat.shiftRight_eq_div_pow]
  have hfield : (Instr.crField (r.setWidth 8)).toNat = r.toNat / 4 := by
    rw [Instr.crField, BitVec.extractLsb'_toNat, BitVec.toNat_setWidth_of_le (by decide),
      Nat.shiftRight_eq_div_pow]
    exact Nat.mod_eq_of_lt (by omega)
  rw [fieldNumber, shr_eq (by decide), ok_bind, hshift, ← hfield, index_toNat]

/-! ## Forms -/

def ofBForm (f : BForm) : Checked Instr := do
  let _ ← number f.bo
  let _ ← number f.bi
  return Instr.ofBForm f

def ofDForm (f : DForm) : Checked (Except Invalid Instr) := do
  let rt ← number f.rt
  let ra ← number f.ra
  let signed := f.d.signExtend 32
  let unsigned := f.d.setWidth 32
  let logic (op : Logic) (rc : Bool) : Checked (Except Invalid Instr) := do
    let value ← shl unsigned 16
    return .ok (.fixed (.logic op ra rt (.imm value) rc))
  match Primary.ofCode? f.opcd.toNat with
  | some .cmpli =>
    return Instr.compareWords "cmpli" f.l false (← fieldNumber f.rt) ra (.imm unsigned)
  | some .cmpi => return Instr.compareWords "cmpi" f.l true (← fieldNumber f.rt) ra (.imm signed)
  | some .addis => return .ok (.fixed (.addImmediate rt ra (← shl signed 16)))
  | some .oris => logic .or false
  | some .xoris => logic .xor false
  | some .andisRc => logic .and true
  | _ => return Instr.ofDForm f

def ofXForm31 (f : XForm) : Checked (Except Invalid Instr) := do
  let rt ← number f.rt
  let ra ← number f.ra
  let rb ← number f.rb
  match Fixed.ofCode? f.xo.toNat with
  | some .cmp => return Instr.compareWords "cmp" f.l true (← fieldNumber f.rt) ra (.reg rb)
  | some .cmpl => return Instr.compareWords "cmpl" f.l false (← fieldNumber f.rt) ra (.reg rb)
  | some .mcrxr => return .ok (.condition (.fromXer (← fieldNumber f.rt)))
  | some .mfsr => return .ok (.system (.fromSegment rt (.direct (← index 4 f.sr.toNat))))
  | some .mtsr => return .ok (.system (.toSegment (.direct (← index 4 f.sr.toNat)) rt))
  | _ => return Instr.ofXForm31 f

def ofXForm63 (f : XForm) : Checked (Except Invalid Instr) := do
  let _ ← number f.rt
  let ra ← number f.ra
  let rb ← number f.rb
  match DoubleMove.ofCode? f.xo.toNat with
  | some .fcmpu => return .ok (.float (.compare false (← fieldNumber f.rt) ra rb))
  | some .fcmpo => return .ok (.float (.compare true (← fieldNumber f.rt) ra rb))
  | some .mtfsfi =>
    let value ← shr f.rb 1
    return .ok (.float (.setStatusField (← fieldNumber f.rt) (value.setWidth 4) f.rc))
  | some .mcrfs =>
    return .ok (.float (.statusToCondition (← fieldNumber f.rt) (← fieldNumber f.ra)))
  | _ => return Instr.ofXForm63 f

def ofXForm4 (f : XForm) : Checked (Except Invalid Instr) := do
  let _ ← number f.rt
  let ra ← number f.ra
  let rb ← number f.rb
  let compare (lane : Lane) (ordered : Bool) : Checked (Except Invalid Instr) := do
    return .ok (.paired (.compare lane ordered (← fieldNumber f.rt) ra rb))
  match PairedMove.ofCode? f.xo.toNat with
  | some .cmpu0 => compare .ps0 false
  | some .cmpo0 => compare .ps0 true
  | some .cmpu1 => compare .ps1 false
  | some .cmpo1 => compare .ps1 true
  | _ => return Instr.ofXForm4 f

def ofXForm (f : XForm) : Checked (Except Invalid Instr) :=
  match Primary.ofCode? f.opcd.toNat with
  | some .table4 => ofXForm4 f
  | some .table31 => ofXForm31 f
  | some .table63 => ofXForm63 f
  | _ => .ok (.error (.unknown f.encode))

def ofXlForm (f : XlForm) : Checked (Except Invalid Instr) := do
  let _ ← number f.bt
  let _ ← number f.ba
  let _ ← number f.bb
  match Control.ofCode? f.xo.toNat with
  | some .mcrf =>
    return .ok (.condition (.moveField (← fieldNumber f.bt) (← fieldNumber f.ba)))
  | _ => return Instr.ofXlForm f

/-- The number of a special register, with its halves put in order. -/
def specialNumber (f : XfxForm) : Checked (BitVec 10) := do
  let high ← shl (f.field &&& 0x1F#16) 5
  let low ← shr f.field 5
  index 10 (high ||| low).toNat

def ofXfxForm (f : XfxForm) : Checked (Except Invalid Instr) := do
  let rt ← number f.rt
  match Fixed.ofCode? f.xo.toNat with
  | some .mtcrf =>
    let mask ← shr f.field 1
    return .ok (.condition (.fromRegister (mask.setWidth 8) rt))
  | some .mfspr => return .ok (.system (.fromSpecial rt (← specialNumber f)))
  | some .mtspr => return .ok (.system (.toSpecial (← specialNumber f) rt))
  | some .mftb =>
    let n ← specialNumber f
    if n = 268 then return .ok (.system (.fromTimeBase rt false))
    else if n = 269 then return .ok (.system (.fromTimeBase rt true))
    else return .error (.timeBase n)
  | _ => return Instr.ofXfxForm f

/-- Every component of these forms that is no opcode is a register or a number below 32. -/
def ofNumbers (components : List Byte) (i : Except Invalid Instr) :
    Checked (Except Invalid Instr) := do
  let _ ← components.mapM number
  return i

/-- The instruction that a form stands for. -/
def ofForm : Form → Checked (Except Invalid Instr)
  | .b f => do return .ok (← ofBForm f)
  | .d f => ofDForm f
  | .x f => ofXForm f
  | .xl f => ofXlForm f
  | .xfx f => ofXfxForm f
  | .xfl f => ofNumbers [f.frb] (Instr.ofForm (.xfl f))
  | .xo f => ofNumbers [f.rt, f.ra, f.rb] (Instr.ofXoForm f)
  | .a f => ofNumbers [f.frt, f.fra, f.frb, f.frc] (Instr.ofAForm f)
  | .m f => ofNumbers [f.rs, f.ra, f.rb, f.mb, f.me] (Instr.ofMForm f)
  | .psq f => do
    let _ ← index 3 f.i.toNat
    ofNumbers [f.frt, f.ra] (Instr.ofPsqForm f)
  | .psqx f => do
    let _ ← index 3 f.i.toNat
    ofNumbers [f.frt, f.ra, f.rb] (Instr.ofPsqxForm f)
  | f => return Instr.ofForm f

/-! ## Parts of a component -/

/-- The number of a segment register is the low part of its component. -/
theorem index_sr (f : XForm) : index 4 f.sr.toNat = .ok (f.ra.setWidth 4) := by
  have hsegment : f.sr = (f.ra.setWidth 4).setWidth 8 := by
    apply BitVec.eq_of_getLsbD_eq
    intro i hi
    rw [XForm.sr, BitVec.getLsbD_and, BitVec.getLsbD_ofNat, BitVec.getLsbD_setWidth,
      BitVec.getLsbD_setWidth, Nat.testBit_two_pow_sub_one 4 i]
    simp [hi, Bool.and_comm]
  rw [hsegment, BitVec.toNat_setWidth_of_le (by decide), index_toNat]

/-- Two halves that are moved past each other. -/
theorem swapHalves_eq (n : BitVec 10) :
    (n.setWidth 16 &&& 0x1F#16) <<< 5 ||| n.setWidth 16 >>> 5
      = (Broadway.Field.swapHalves n).setWidth 16 := by
  apply BitVec.eq_of_getLsbD_eq
  intro i hi
  unfold Broadway.Field.swapHalves
  simp only [BitVec.getLsbD_or, BitVec.getLsbD_shiftLeft, BitVec.getLsbD_and,
    BitVec.getLsbD_setWidth, BitVec.getLsbD_ushiftRight, BitVec.getLsbD_append,
    BitVec.getLsbD_extractLsb', BitVec.getLsbD_ofNat, Nat.testBit_two_pow_sub_one 5]
  by_cases hlow : i < 5
  · have hfrom : 5 + i < 16 := by omega
    simp [hi, hlow, hfrom]
  · have hout : n.getLsbD (5 + i) = false := BitVec.getLsbD_of_ge n _ (by omega)
    by_cases hhigh : i < 10
    · have hfrom : i - 5 < 5 := by omega
      have hword : i - 5 < 16 := by omega
      simp [hi, hlow, hfrom, hword, hout]
    · have hfrom : ¬i - 5 < 5 := by omega
      simp [hlow, hfrom, hout]

theorem specialNumber_setWidth {n : BitVec 10} {f : XfxForm} (h : f.field = n.setWidth 16) :
    specialNumber f = .ok f.spr := by
  have hspr : f.spr = Broadway.Field.swapHalves n := by
    rw [XfxForm.spr, h, BitVec.setWidth_setWidth_of_le _ (by decide), BitVec.setWidth_eq]
  rw [specialNumber, shl_eq (by decide), ok_bind, shr_eq (by decide), ok_bind, h, swapHalves_eq,
    BitVec.toNat_setWidth_of_le (by decide), index_toNat, hspr]

/-! ## The operands of a word -/

variable (w : Word)

theorem ofDForm_decode : ofDForm (.decode w) = .ok (Instr.ofDForm (.decode w)) := by
  simp (disch := decide) only [ofDForm, Instr.ofDForm, DForm.decode, number_setWidth,
    fieldNumber_setWidth, shl_eq, ok_bind, pure_eq]
  cases Primary.ofCode? ((Broadway.Field.opcd w).setWidth 8).toNat with
  | none => rfl
  | some op => cases op <;> rfl

theorem ofXForm31_decode : ofXForm31 (.decode w) = .ok (Instr.ofXForm31 (.decode w)) := by
  simp only [ofXForm31, Instr.ofXForm31, XForm.decode, number_setWidth, fieldNumber_setWidth,
    index_sr, ok_bind, pure_eq]
  cases Fixed.ofCode? ((Broadway.Field.xo10 w).setWidth 16).toNat with
  | none => rfl
  | some op => cases op <;> rfl

theorem ofXForm63_decode : ofXForm63 (.decode w) = .ok (Instr.ofXForm63 (.decode w)) := by
  simp (disch := decide) only [ofXForm63, Instr.ofXForm63, XForm.decode, number_setWidth,
    fieldNumber_setWidth, shr_eq, ok_bind, pure_eq]
  cases DoubleMove.ofCode? ((Broadway.Field.xo10 w).setWidth 16).toNat with
  | none => rfl
  | some op => cases op <;> rfl

theorem ofXForm4_decode : ofXForm4 (.decode w) = .ok (Instr.ofXForm4 (.decode w)) := by
  simp only [ofXForm4, Instr.ofXForm4, XForm.decode, number_setWidth, fieldNumber_setWidth,
    ok_bind, pure_eq]
  cases PairedMove.ofCode? ((Broadway.Field.xo10 w).setWidth 16).toNat with
  | none => rfl
  | some op => cases op <;> rfl

theorem ofXForm_decode : ofXForm (.decode w) = .ok (Instr.ofXForm (.decode w)) := by
  unfold ofXForm Instr.ofXForm
  cases Primary.ofCode? (XForm.decode w).opcd.toNat with
  | none => rfl
  | some op =>
      cases op with
      | table4 => exact ofXForm4_decode w
      | table31 => exact ofXForm31_decode w
      | table63 => exact ofXForm63_decode w
      | _ => rfl

theorem ofXlForm_decode : ofXlForm (.decode w) = .ok (Instr.ofXlForm (.decode w)) := by
  simp only [ofXlForm, Instr.ofXlForm, XlForm.decode, number_setWidth, fieldNumber_setWidth,
    ok_bind, pure_eq]
  cases Control.ofCode? ((Broadway.Field.xo10 w).setWidth 16).toNat with
  | none => rfl
  | some op => cases op <;> rfl

theorem ofXfxForm_decode : ofXfxForm (.decode w) = .ok (Instr.ofXfxForm (.decode w)) := by
  have hrt : number (XfxForm.decode w).rt = .ok (Instr.reg (XfxForm.decode w).rt) :=
    number_setWidth _
  have hspr : specialNumber (.decode w) = .ok (XfxForm.decode w).spr :=
    specialNumber_setWidth (n := Broadway.Field.sprField w) rfl
  have hcrm : ((XfxForm.decode w).field >>> 1).setWidth 8 = (XfxForm.decode w).crm := by
    apply BitVec.eq_of_getLsbD_eq
    intro i hi
    simp [XfxForm.crm, hi]
  simp (disch := decide) only [ofXfxForm, Instr.ofXfxForm, hrt, hspr, shr_eq, hcrm, ok_bind,
    pure_eq]
  cases Fixed.ofCode? (XfxForm.decode w).xo.toNat with
  | none => rfl
  | some op =>
      cases op with
      | mftb =>
          dsimp only
          split
          · rfl
          · split <;> rfl
      | _ => rfl

theorem ofNumbers_setWidth {components : List Byte} (numbers : List Reg)
    (h : components = numbers.map (BitVec.setWidth 8)) (i : Except Invalid Instr) :
    ofNumbers components i = .ok i := by
  have hnumbers : components.mapM number = .ok (components.map Instr.reg) := by
    refine mapM_ok fun b hb => ?_
    rw [h] at hb
    obtain ⟨r, -, rfl⟩ := List.mem_map.1 hb
    exact number_setWidth r
  rw [ofNumbers, hnumbers, ok_bind, pure_eq]

/-- **The operands of a word that was taken apart fit.** -/
theorem ofForm_eq (k : FormKind) : ofForm (.decode k w) = .ok (Instr.ofForm (.decode k w)) := by
  cases k with
  | b =>
    simp only [Form.decode, ofForm, ofBForm, BForm.decode, number_setWidth, ok_bind, pure_eq]
    rfl
  | d => exact ofDForm_decode w
  | x => exact ofXForm_decode w
  | xl => exact ofXlForm_decode w
  | xfx => exact ofXfxForm_decode w
  | xfl => exact ofNumbers_setWidth [_] rfl _
  | xo => exact ofNumbers_setWidth [_, _, _] rfl _
  | a => exact ofNumbers_setWidth [_, _, _, _] rfl _
  | m => exact ofNumbers_setWidth [_, _, _, _, _] rfl _
  | psq =>
    have hgqr : index 3 (PsqForm.decode w).i.toNat = .ok (Broadway.Field.psqI w) := by
      rw [PsqForm.decode, BitVec.toNat_setWidth_of_le (by decide), index_toNat]
    rw [Form.decode, ofForm, hgqr, ok_bind]
    exact ofNumbers_setWidth [_, _] rfl _
  | psqx =>
    have hgqr : index 3 (PsqxForm.decode w).i.toNat = .ok (Broadway.Field.psqIx w) := by
      rw [PsqxForm.decode, BitVec.toNat_setWidth_of_le (by decide), index_toNat]
    rw [Form.decode, ofForm, hgqr, ok_bind]
    exact ofNumbers_setWidth [_, _, _] rfl _
  | _ => rfl

end Broadway.Checked
