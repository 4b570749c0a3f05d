import Broadway.Proofs.Instr.Groups
import Broadway.Proofs.Instr.Transfers

/-!
# The record bit and the overflow bit of a word

The last bit of a word asks for a record of the result, and in register arithmetic another bit asks
for a record of the overflow. `Word.withRc` and `Word.withOe` give a word that has the bit or has it
not, and is the same elsewhere.

* Words are sorted by what the record bit means to them: those that record an integer result
  (`Word.RecordsResult`), those that record the floating point status (`Word.RecordsStatus`) and
  those that do not read the bit (`Word.IgnoresRecord`). In groups 4, 31 and 63 there are no others
  (`Word.hasRecordKind`).
* The two words that differ in the bit stand for one instruction, asked to record or not
  (`Word.RecordsResult.reads`, `Word.RecordsStatus.reads`), or for the same instruction
  (`Word.IgnoresRecord.ofWord_eq`). The overflow bit is read by register arithmetic only
  (`Instr.ofWord_withOe`).
-/

namespace Broadway

open Opcode

namespace Word

/-- A word with one bit set or cleared. -/
def withBit (w : Word) (k : Nat) (v : Bool) : Word :=
  if v then w ||| 1#32 <<< k else w &&& ~~~(1#32 <<< k)

/-- A word with the record bit set or cleared. -/
def withRc (w : Word) (rc : Bool) : Word := w.withBit 0 rc

/-- A word of register arithmetic that records its overflow or does not. -/
def withOe (w : Word) (oe : Bool) : Word := w.withBit 10 oe

theorem getLsbD_withBit (w : Word) {k : Nat} (v : Bool) (hk : k < 32) (i : Nat) :
    (w.withBit k v).getLsbD i = if i = k then v else w.getLsbD i := by
  have hbit : (1#32 <<< k).getLsbD i = decide (i = k) := by
    show (BitVec.twoPow 32 k).getLsbD i = _
    rw [BitVec.getLsbD_twoPow]
    by_cases h : i = k
    · simp [h, hk]
    · simp [h, Ne.symm h]
  cases v with
  | true =>
      show (w ||| 1#32 <<< k).getLsbD i = _
      rw [BitVec.getLsbD_or, hbit]
      by_cases h : i = k <;> simp [h]
  | false =>
      show (w &&& ~~~(1#32 <<< k)).getLsbD i = _
      rw [BitVec.getLsbD_and, BitVec.getLsbD_not, hbit]
      by_cases h : i = k
      · simp [h]
      · by_cases hi : i < 32
        · simp [h, hi]
        · simp [h, hi, BitVec.getLsbD_of_ge w i (by omega)]

/-- A field that does not hold the bit is what it was. -/
theorem extractLsb'_withBit (w : Word) {k lo n : Nat} (v : Bool) (hk : k < 32)
    (h : k < lo ∨ lo + n ≤ k) : (w.withBit k v).extractLsb' lo n = w.extractLsb' lo n := by
  apply BitVec.eq_of_getLsbD_eq
  intro i hi
  have hne : lo + i ≠ k := by omega
  rw [BitVec.getLsbD_extractLsb', BitVec.getLsbD_extractLsb', getLsbD_withBit w v hk, if_neg hne]

theorem extractLsb'_withRc (w : Word) (rc : Bool) {lo n : Nat} (h : 0 < lo) :
    (w.withRc rc).extractLsb' lo n = w.extractLsb' lo n :=
  w.extractLsb'_withBit rc (by decide) (.inl h)

theorem getLsbD_withRc (w : Word) (rc : Bool) {i : Nat} (h : 0 < i) :
    (w.withRc rc).getLsbD i = w.getLsbD i := by
  rw [withRc, getLsbD_withBit w rc (by decide), if_neg (by omega)]

theorem extractLsb'_withOe (w : Word) (oe : Bool) {lo n : Nat} (h : 10 < lo ∨ lo + n ≤ 10) :
    (w.withOe oe).extractLsb' lo n = w.extractLsb' lo n :=
  w.extractLsb'_withBit oe (by decide) h

theorem oe_withOe (w : Word) (oe : Bool) : Field.oe (w.withOe oe) = oe := by
  rw [Field.oe, withOe, getLsbD_withBit w oe (by decide), if_pos rfl]

theorem bit31_withOe (w : Word) (oe : Bool) : Field.bit31 (w.withOe oe) = Field.bit31 w := by
  rw [Field.bit31, withOe, getLsbD_withBit w oe (by decide), if_neg (by decide)]
  rfl

theorem bit31_withRc (w : Word) (rc : Bool) : Field.bit31 (w.withRc rc) = rc := by
  rw [Field.bit31, withRc, getLsbD_withBit w rc (by decide), if_pos rfl]

theorem withRc_bit31 (w : Word) : w.withRc (Field.bit31 w) = w := by
  apply BitVec.eq_of_getLsbD_eq
  intro i hi
  rw [withRc, getLsbD_withBit w _ (by decide)]
  split
  · next h => rw [h, Field.bit31]
  · rfl

end Word

/-! ## The same word elsewhere -/

theorem Opcode.Primary.Selects.withRc {op : Primary} {w : Word} (h : op.Selects w) (rc : Bool) :
    op.Selects (w.withRc rc) :=
  (congrArg BitVec.toNat (w.extractLsb'_withRc rc (by decide))).trans h

/-- No table of extended opcodes looks at the record bit. -/
theorem Word.selects_withRc {op : Primary} {w : Word} {n code : Nat}
    (h : op.Selects w ∧ (w.extractLsb' 1 n).toNat = code) (rc : Bool) :
    op.Selects (w.withRc rc) ∧ ((w.withRc rc).extractLsb' 1 n).toNat = code :=
  ⟨h.1.withRc rc, (congrArg BitVec.toNat (w.extractLsb'_withRc rc (by decide))).trans h.2⟩

/-! A form that has the record bit differs in it only, and one that has it not does not differ. -/

theorem XForm.decode_withRc (w : Word) (rc : Bool) :
    XForm.decode (w.withRc rc) = { XForm.decode w with rc := rc } := by
  simp (disch := decide) only [XForm.decode, Field.opcd, Field.rt, Field.ra, Field.rb, Field.xo10,
    Word.extractLsb'_withRc, Word.bit31_withRc]

theorem AForm.decode_withRc (w : Word) (rc : Bool) :
    AForm.decode (w.withRc rc) = { AForm.decode w with rc := rc } := by
  simp (disch := decide) only [AForm.decode, Field.opcd, Field.rt, Field.ra, Field.rb, Field.rc,
    Field.xo5, Word.extractLsb'_withRc, Word.bit31_withRc]

theorem MForm.decode_withRc (w : Word) (rc : Bool) :
    MForm.decode (w.withRc rc) = { MForm.decode w with rc := rc } := by
  simp (disch := decide) only [MForm.decode, Field.opcd, Field.rt, Field.ra, Field.rb, Field.rc,
    Field.me, Word.extractLsb'_withRc, Word.bit31_withRc]

theorem XfxForm.decode_withRc (w : Word) (rc : Bool) :
    XfxForm.decode (w.withRc rc) = XfxForm.decode w := by
  simp (disch := decide) only [XfxForm.decode, Field.opcd, Field.rt, Field.sprField, Field.xo10,
    Word.extractLsb'_withRc]

theorem PsqxForm.decode_withRc (w : Word) (rc : Bool) :
    PsqxForm.decode (w.withRc rc) = PsqxForm.decode w := by
  simp (disch := decide) only [PsqxForm.decode, Field.opcd, Field.rt, Field.ra, Field.rb,
    Field.psqWx, Field.psqIx, Field.xo6, Word.extractLsb'_withRc, Word.getLsbD_withRc]

/-! ## What the bit asks for -/

namespace Opcode

/-- Whether an instruction of group 31 that is no arithmetic can record its result. -/
def Fixed.records : Fixed → Bool
  | .and | .andc | .or | .orc | .xor | .nand | .nor | .eqv | .cntlzw | .extsb | .extsh | .slw
  | .srw | .sraw | .srawi => true
  | _ => false

/-- Whether a move of group 63 can record the status. -/
def DoubleMove.records : DoubleMove → Bool
  | .fcmpu | .fcmpo | .mcrfs => false
  | _ => true

/-- Whether a move of group 4 can record the status. -/
def PairedMove.records : PairedMove → Bool
  | .cmpu0 | .cmpo0 | .cmpu1 | .cmpo1 | .dcbzL => false
  | _ => true

end Opcode

namespace Word

/-- Words that can record an integer result, and the register that it goes to. -/
inductive RecordsResult (w : Word) : Reg → Prop
  | arith {op : FixedArith} (hw : op.Selects w) : RecordsResult w (Field.rt w)
  | fixed {op : Fixed} (hw : op.Selects w) (hop : op.records = true) :
      RecordsResult w (Field.ra w)
  | rotate {op : Primary} (hw : op.Selects w) (hop : op ∈ [Primary.rlwimi, .rlwinm, .rlwnm]) :
      RecordsResult w (Field.ra w)

/-- Words that can record the floating point status. -/
inductive RecordsStatus (w : Word) : Prop
  | single {op : SingleArith} (hw : op.Selects w)
  | double {op : DoubleArith} (hw : op.Selects w)
  | doubleMove {op : DoubleMove} (hw : op.Selects w) (hop : op.records = true)
  | paired {op : PairedArith} (hw : op.Selects w)
  | pairedMove {op : PairedMove} (hw : op.Selects w) (hop : op.records = true)

/-- Words of groups 4, 31 and 63 to which the record bit means nothing. -/
inductive IgnoresRecord (w : Word) : Prop
  | fixed {op : Fixed} (hw : op.Selects w) (hop : op.records = false)
  | doubleMove {op : DoubleMove} (hw : op.Selects w) (hop : op.records = false)
  | pairedMove {op : PairedMove} (hw : op.Selects w) (hop : op.records = false)
  | pairedIndexed {op : PairedIndexed} (hw : op.Selects w)

end Word

/-- Fixed point instructions that can record their result, and the register that it goes to. -/
inductive FixedInstr.Recording (t : Reg) : (Bool → FixedInstr) → Prop
  | arith (op : FixedArith) (ra rb : Reg) (oe : Bool) : Recording t (.arith op t ra rb oe)
  | logic (op : Logic) (rs : Reg) (b : Operand) : Recording t (.logic op t rs b)
  | unary (op : Unary) (rs : Reg) : Recording t (.unary op t rs)
  | shift (op : Shift) (rs : Reg) (amount : Operand) : Recording t (.shift op t rs amount)
  | rotateAnd (rs : Reg) (amount : Operand) (first last : BitVec 5) :
      Recording t (.rotateAnd t rs amount first last)
  | rotateInsert (rs : Reg) (amount : Operand) (first last : BitVec 5) :
      Recording t (.rotateInsert t rs amount first last)

/-- Floating point instructions that can record the status. -/
inductive FloatInstr.Recording : (Bool → FloatInstr) → Prop
  | arith (op : FloatOp) (precision : Precision) (frt fra frb frc : Reg) :
      Recording (.arith op precision frt fra frb frc)
  | select (frt fra frb frc : Reg) : Recording (.select frt fra frb frc)
  | move (op : FloatMove) (frt frb : Reg) : Recording (.move op frt frb)
  | roundToSingle (frt frb : Reg) : Recording (.roundToSingle frt frb)
  | toInteger (truncate : Bool) (frt frb : Reg) : Recording (.toInteger truncate frt frb)
  | fromStatus (frt : Reg) : Recording (.fromStatus frt)
  | clearStatusBit (b : BitVec 5) : Recording (.clearStatusBit b)
  | setStatusBit (b : BitVec 5) : Recording (.setStatusBit b)
  | setStatusField (n : BitVec 3) (v : BitVec 4) : Recording (.setStatusField n v)
  | setStatusFields (mask : BitVec 8) (frb : Reg) : Recording (.setStatusFields mask frb)

/-- Paired single instructions that can record the status. -/
inductive PairedInstr.Recording : (Bool → PairedInstr) → Prop
  | arith (op : FloatOp) (broadcast : Option Lane) (frt fra frb frc : Reg) :
      Recording (.arith op broadcast frt fra frb frc)
  | sum (lane : Lane) (frt fra frb frc : Reg) : Recording (.sum lane frt fra frb frc)
  | select (frt fra frb frc : Reg) : Recording (.select frt fra frb frc)
  | move (op : FloatMove) (frt frb : Reg) : Recording (.move op frt frb)
  | merge (fromA fromB : Lane) (frt fra frb : Reg) : Recording (.merge fromA fromB frt fra frb)

namespace Instr

/-- How the two words that differ in the record bit are read, if they can record a result. -/
inductive ReadsResult (t : Reg) : (Bool → Except Invalid Instr) → Prop
  | fixed {i : Bool → FixedInstr} (h : FixedInstr.Recording t i) :
      ReadsResult t fun rc => .ok (.fixed (i rc))

/-- How they are read if they can record the status. -/
inductive ReadsStatus : (Bool → Except Invalid Instr) → Prop
  | float {i : Bool → FloatInstr} (h : FloatInstr.Recording i) :
      ReadsStatus fun rc => .ok (.float (i rc))
  | paired {i : Bool → PairedInstr} (h : PairedInstr.Recording i) :
      ReadsStatus fun rc => .ok (.paired (i rc))

/-! Each form with the record bit, opcode by opcode. -/

theorem readsResult_ofXForm31 {f : XForm} {op : Fixed} (hf : Fixed.ofCode? f.xo.toNat = some op)
    (hop : op.records = true) :
    ReadsResult (reg f.ra) fun rc => ofXForm31 { f with rc := rc } := by
  unfold ofXForm31
  simp only [hf]
  cases op <;>
    first
    | contradiction
    | exact .fixed (.logic ..)
    | exact .fixed (.unary ..)
    | exact .fixed (.shift ..)

theorem ofXForm31_of_not_records {f : XForm} {op : Fixed}
    (hf : Fixed.ofCode? f.xo.toNat = some op) (hop : op.records = false)
    (hx : op ∉ [Fixed.mtcrf, .mfspr, .mtspr, .mftb]) (rc : Bool) :
    ofXForm31 { f with rc := rc } = ofXForm31 f := by
  unfold ofXForm31
  simp only [hf]
  cases op <;> first | rfl | contradiction

theorem readsResult_ofMForm {f : MForm} {op : Primary} (hf : Primary.ofCode? f.opcd.toNat = some op)
    (hop : op ∈ [Primary.rlwimi, .rlwinm, .rlwnm]) :
    ReadsResult (reg f.ra) fun rc => ofMForm { f with rc := rc } := by
  unfold ofMForm
  simp only [hf]
  cases op <;>
    first
    | exact .fixed (.rotateInsert ..)
    | exact .fixed (.rotateAnd ..)
    | exact absurd hop (by decide)

theorem readsStatus_ofAForm59 {f : AForm} {op : SingleArith}
    (hf : SingleArith.ofCode? f.xo.toNat = some op) :
    ReadsStatus fun rc => ofAForm59 { f with rc := rc } := by
  unfold ofAForm59
  simp only [hf]
  cases op <;> exact .float (.arith ..)

theorem readsStatus_ofAForm63 {f : AForm} {op : DoubleArith}
    (hf : DoubleArith.ofCode? f.xo.toNat = some op) :
    ReadsStatus fun rc => ofAForm63 { f with rc := rc } := by
  unfold ofAForm63
  simp only [hf]
  cases op <;> first | exact .float (.arith ..) | exact .float (.select ..)

theorem readsStatus_ofAForm4 {f : AForm} {op : PairedArith}
    (hf : PairedArith.ofCode? f.xo.toNat = some op) :
    ReadsStatus fun rc => ofAForm4 { f with rc := rc } := by
  unfold ofAForm4
  simp only [hf]
  cases op <;>
    first
    | exact .paired (.arith ..)
    | exact .paired (.sum ..)
    | exact .paired (.select ..)

theorem readsStatus_ofXForm63 {f : XForm} {op : DoubleMove}
    (hf : DoubleMove.ofCode? f.xo.toNat = some op) (hop : op.records = true) (hx : op ≠ .mtfsf) :
    ReadsStatus fun rc => ofXForm63 { f with rc := rc } := by
  unfold ofXForm63
  simp only [hf]
  cases op <;>
    first
    | contradiction
    | exact .float (.roundToSingle ..)
    | exact .float (.toInteger ..)
    | exact .float (.move ..)
    | exact .float (.fromStatus ..)
    | exact .float (.clearStatusBit ..)
    | exact .float (.setStatusBit ..)
    | exact .float (.setStatusField ..)

theorem ofXForm63_of_not_records {f : XForm} {op : DoubleMove}
    (hf : DoubleMove.ofCode? f.xo.toNat = some op) (hop : op.records = false) (rc : Bool) :
    ofXForm63 { f with rc := rc } = ofXForm63 f := by
  unfold ofXForm63
  simp only [hf]
  cases op <;> first | rfl | contradiction

theorem readsStatus_ofXForm4 {f : XForm} {op : PairedMove}
    (hf : PairedMove.ofCode? f.xo.toNat = some op) (hop : op.records = true) :
    ReadsStatus fun rc => ofXForm4 { f with rc := rc } := by
  unfold ofXForm4
  simp only [hf]
  cases op <;>
    first
    | contradiction
    | exact .paired (.move ..)
    | exact .paired (.merge ..)

theorem ofXForm4_of_not_records {f : XForm} {op : PairedMove}
    (hf : PairedMove.ofCode? f.xo.toNat = some op) (hop : op.records = false) (rc : Bool) :
    ofXForm4 { f with rc := rc } = ofXForm4 f := by
  unfold ofXForm4
  simp only [hf]
  cases op <;> first | rfl | contradiction

end Instr

/-! ## Every listed word has its place -/

namespace Word

variable {w : Word}

/-- Whether the record bit of a word has one of the three meanings. -/
def HasRecordKind (w : Word) : Prop :=
  (∃ t, w.RecordsResult t) ∨ w.RecordsStatus ∨ w.IgnoresRecord

theorem hasRecordKind_group4 (hw : Primary.table4.Selects w) {k : FormKind}
    (hk : FormKind.ofGroup4? w = some k) : w.HasRecordKind := by
  unfold FormKind.ofGroup4? at hk
  split at hk
  · next harith =>
    obtain ⟨op, hop⟩ := Option.isSome_iff_exists.1 harith
    exact .inr (.inl (.paired ⟨hw, (PairedArith.code_of_ofCode? hop).symm⟩))
  · split at hk
    · next hindexed =>
      obtain ⟨op, hop⟩ := Option.isSome_iff_exists.1 hindexed
      exact .inr (.inr (.pairedIndexed ⟨hw, (PairedIndexed.code_of_ofCode? hop).symm⟩))
    · obtain ⟨op, hop, -⟩ := Option.map_eq_some_iff.1 hk
      have hselects : op.Selects w := ⟨hw, (PairedMove.code_of_ofCode? hop).symm⟩
      cases hrecords : op.records with
      | true => exact .inr (.inl (.pairedMove hselects hrecords))
      | false => exact .inr (.inr (.pairedMove hselects hrecords))

theorem hasRecordKind_group31 (hw : Primary.table31.Selects w) {k : FormKind}
    (hk : FormKind.ofGroup31? w = some k) : w.HasRecordKind := by
  unfold FormKind.ofGroup31? at hk
  split at hk
  · next harith =>
    obtain ⟨op, hop⟩ := Option.isSome_iff_exists.1 harith
    exact .inl ⟨_, .arith ⟨hw, (FixedArith.code_of_ofCode? hop).symm⟩⟩
  · obtain ⟨op, hop, -⟩ := Option.map_eq_some_iff.1 hk
    have hselects : op.Selects w := ⟨hw, (Fixed.code_of_ofCode? hop).symm⟩
    cases hrecords : op.records with
    | true => exact .inl ⟨_, .fixed hselects hrecords⟩
    | false => exact .inr (.inr (.fixed hselects hrecords))

theorem hasRecordKind_group63 (hw : Primary.table63.Selects w) {k : FormKind}
    (hk : FormKind.ofGroup63? w = some k) : w.HasRecordKind := by
  unfold FormKind.ofGroup63? at hk
  split at hk
  · next harith =>
    obtain ⟨op, hop⟩ := Option.isSome_iff_exists.1 harith
    exact .inr (.inl (.double ⟨hw, (DoubleArith.code_of_ofCode? hop).symm⟩))
  · obtain ⟨op, hop, -⟩ := Option.map_eq_some_iff.1 hk
    have hselects : op.Selects w := ⟨hw, (DoubleMove.code_of_ofCode? hop).symm⟩
    cases hrecords : op.records with
    | true => exact .inr (.inl (.doubleMove hselects hrecords))
    | false => exact .inr (.inr (.doubleMove hselects hrecords))

/-- A word of groups 4, 31 and 63 that is not unknown has a place in one of the three sorts. -/
theorem hasRecordKind {op : Primary} (hop : op ∈ [Primary.table4, .table31, .table63])
    (hw : op.Selects w) (hknown : Instr.Known (Instr.ofWord w)) : w.HasRecordKind := by
  cases hk : FormKind.ofTables? w with
  | none =>
      rw [← Instr.dispatch_eq_ofWord, Instr.dispatch, hk] at hknown
      exact absurd rfl (hknown w)
  | some k =>
      rw [FormKind.ofTables?, hw.found] at hk
      cases op with
      | table4 => exact hasRecordKind_group4 hw hk
      | table31 => exact hasRecordKind_group31 hw hk
      | table63 => exact hasRecordKind_group63 hw hk
      | _ => exact absurd hop (by decide)

end Word

/-! ## Words that differ in the bit -/

/-- Words of register arithmetic that differ in the overflow bit. -/
theorem Instr.ofWord_withOe {op : FixedArith} {w : Word} (hw : op.Selects w) (oe : Bool) :
    ofWord (w.withOe oe) = .ok (.fixed (.arith op (Field.rt w) (Field.ra w) (Field.rb w) oe
      (Field.bit31 w))) := by
  have hopcd : Field.opcd (w.withOe oe) = Field.opcd w := w.extractLsb'_withOe oe (by decide)
  have hxo : Field.xo9 (w.withOe oe) = Field.xo9 w := w.extractLsb'_withOe oe (by decide)
  have hselects : op.Selects (w.withOe oe) :=
    ⟨(congrArg BitVec.toNat hopcd).trans hw.1, (congrArg BitVec.toNat hxo).trans hw.2⟩
  rw [ofWord_of_arith hselects, w.oe_withOe, w.bit31_withOe]
  simp (disch := decide) only [Field.rt, Field.ra, Field.rb, Word.extractLsb'_withOe]

namespace Word

open Instr

variable {w : Word}

theorem RecordsResult.reads {t : Reg} (h : w.RecordsResult t) :
    ReadsResult t fun rc => ofWord (w.withRc rc) := by
  cases h with
  | @arith op hw =>
      have hword (rc : Bool) : ofWord (w.withRc rc) = .ok (.fixed (.arith op (Field.rt w)
          (Field.ra w) (Field.rb w) (Field.oe w) rc)) := by
        rw [ofWord_of_arith (selects_withRc hw rc), bit31_withRc]
        simp (disch := decide) only [Field.rt, Field.ra, Field.rb, Field.oe, extractLsb'_withRc,
          getLsbD_withRc]
      simp only [hword]
      exact .fixed (.arith ..)
  | fixed hw hop =>
      have hspecial : ∀ op ∈ [Fixed.mtcrf, .mfspr, .mtspr, .mftb], op.records = false := by decide
      have hx : _ ∉ [Fixed.mtcrf, .mfspr, .mtspr, .mftb] := fun hmem => by
        rw [hspecial _ hmem] at hop
        contradiction
      simp only [fun rc => ofWord_of_fixed (selects_withRc hw rc) hx, XForm.decode_withRc]
      have hread := readsResult_ofXForm31 hw.ofCode?_xForm hop
      rwa [XForm.decode, reg_setWidth] at hread
  | rotate hw hop =>
      simp only [fun rc => ofWord_of_rotate (hw.withRc rc) hop, MForm.decode_withRc]
      have hread := readsResult_ofMForm hw.ofCode?_mForm hop
      rwa [MForm.decode, reg_setWidth] at hread

theorem RecordsStatus.reads (h : w.RecordsStatus) :
    ReadsStatus fun rc => ofWord (w.withRc rc) := by
  cases h with
  | single hw =>
      simp only [fun rc => ofWord_of_singleArith (selects_withRc hw rc), AForm.decode_withRc]
      exact readsStatus_ofAForm59 hw.ofCode?_aForm
  | double hw =>
      simp only [fun rc => ofWord_of_doubleArith (selects_withRc hw rc), AForm.decode_withRc]
      exact readsStatus_ofAForm63 hw.ofCode?_aForm
  | paired hw =>
      simp only [fun rc => ofWord_of_pairedArith (selects_withRc hw rc), AForm.decode_withRc]
      exact readsStatus_ofAForm4 hw.ofCode?_aForm
  | pairedMove hw hop =>
      simp only [fun rc => ofWord_of_pairedMove (selects_withRc hw rc), XForm.decode_withRc]
      exact readsStatus_ofXForm4 hw.ofCode?_xForm hop
  | @doubleMove op hw hop =>
      by_cases hx : op = .mtfsf
      · subst hx
        have hword (rc : Bool) : ofWord (w.withRc rc) =
            .ok (.float (.setStatusFields (Field.fm w) (Field.rb w) rc)) := by
          rw [ofWord_of_statusFields (selects_withRc hw rc), bit31_withRc]
          simp (disch := decide) only [Field.fm, Field.rb, extractLsb'_withRc]
        simp only [hword]
        exact .float (.setStatusFields ..)
      · simp only [fun rc => ofWord_of_doubleMove (selects_withRc hw rc) hx, XForm.decode_withRc]
        exact readsStatus_ofXForm63 hw.ofCode?_xForm hop hx

theorem IgnoresRecord.ofWord_eq (h : w.IgnoresRecord) (rc : Bool) :
    ofWord (w.withRc rc) = ofWord w := by
  cases h with
  | @fixed op hw hop =>
      by_cases hx : op ∈ [Fixed.mtcrf, .mfspr, .mtspr, .mftb]
      · rw [ofWord_of_special (selects_withRc hw rc) hx, ofWord_of_special hw hx,
          XfxForm.decode_withRc]
      · rw [ofWord_of_fixed (selects_withRc hw rc) hx, ofWord_of_fixed hw hx, XForm.decode_withRc]
        exact ofXForm31_of_not_records hw.ofCode?_xForm hop hx rc
  | @doubleMove op hw hop =>
      have hx : op ≠ .mtfsf := by
        rintro rfl
        contradiction
      rw [ofWord_of_doubleMove (selects_withRc hw rc) hx, ofWord_of_doubleMove hw hx,
        XForm.decode_withRc]
      exact ofXForm63_of_not_records hw.ofCode?_xForm hop rc
  | pairedMove hw hop =>
      rw [ofWord_of_pairedMove (selects_withRc hw rc), ofWord_of_pairedMove hw, XForm.decode_withRc]
      exact ofXForm4_of_not_records hw.ofCode?_xForm hop rc
  | pairedIndexed hw =>
      rw [ofWord_of_pairedIndexed (selects_withRc hw rc), ofWord_of_pairedIndexed hw,
        PsqxForm.decode_withRc]

end Word

end Broadway
