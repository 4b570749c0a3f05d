import Broadway.Exec
import Broadway.Proofs.Encoding.RoundTrip

/-!
# Dispatch and layout

A word is classified twice. The layout of a word (`FormKind.ofWord`) is judged from its opcode
fields and decides how the word is taken apart; dispatch (`FormKind.ofTables?`) looks the word up in
the opcode tables, the primary table first and in a group the table of the narrower extended opcode
before the table of the wider one, and then reads the operands in the form of the instruction found.

* The two agree (`Instr.agrees_ofTables?`): a word that the tables list is laid out in the form in
  which its operands are read and is an instruction, unless its operands are forbidden; a word that
  they do not list is no instruction, and its form still tells which word it was.
* A word and its form laid out again have the same form (`Form.ofWord_encode`).
* Execution depends on a word only through its form (`Machine.execute_form`).
-/

namespace Broadway

open Opcode

namespace FormKind

/-! ## The opcode tables -/

/-- Group 4: the five-bit table shadows the wider ones. -/
def ofGroup4? (w : Word) : Option FormKind :=
  if (PairedArith.ofCode? (Field.xo5 w).toNat).isSome then some .a
  else if (PairedIndexed.ofCode? (Field.xo6 w).toNat).isSome then some .psqx
  else (PairedMove.ofCode? (Field.xo10 w).toNat).map fun _ => .x

/-- Group 31: arithmetic first. -/
def ofGroup31? (w : Word) : Option FormKind :=
  if (FixedArith.ofCode? (Field.xo9 w).toNat).isSome then some .xo
  else (Fixed.ofCode? (Field.xo10 w).toNat).map fun
    | .mtcrf | .mfspr | .mtspr | .mftb => .xfx
    | _ => .x

/-- Group 63: arithmetic first. -/
def ofGroup63? (w : Word) : Option FormKind :=
  if (DoubleArith.ofCode? (Field.xo5 w).toNat).isSome then some .a
  else (DoubleMove.ofCode? (Field.xo10 w).toNat).map fun
    | .mtfsf => .xfl
    | _ => .x

/-- The form in which the operands of a word are read, if the opcode tables list the word. -/
def ofTables? (w : Word) : Option FormKind :=
  (Primary.ofCode? (Field.opcd w).toNat).bind fun
    | .table4 => ofGroup4? w
    | .table19 => (Control.ofCode? (Field.xo10 w).toNat).map fun _ => .xl
    | .table31 => ofGroup31? w
    | .table59 => (SingleArith.ofCode? (Field.xo5 w).toNat).map fun _ => .a
    | .table63 => ofGroup63? w
    | .b => some .i
    | .bc => some .b
    | .sc => some .sc
    | .rlwimi | .rlwinm | .rlwnm => some .m
    | .psqL | .psqLu | .psqSt | .psqStu => some .psq
    | _ => some .d

/-! ## Layouts by group -/

theorem ofWord_group4 {w : Word} (hop : (Field.opcd w).toNat = 4) :
    ofWord w = if (PairedArith.ofCode? (Field.xo5 w).toNat).isSome then .a
      else if (PairedIndexed.ofCode? (Field.xo6 w).toNat).isSome then .psqx
      else .x := by
  unfold ofWord
  rw [hop]
  rfl

theorem ofWord_group63 {w : Word} (hop : (Field.opcd w).toNat = 63) :
    ofWord w = if (DoubleArith.ofCode? (Field.xo5 w).toNat).isSome then .a
      else if (Field.xo10 w).toNat = 711 then .xfl
      else .x := by
  unfold ofWord
  rw [hop]
  rfl

/-- A word whose primary opcode has no member is laid out with an immediate, or as one of the
doubleword instructions. -/
theorem ofWord_of_no_primary {w : Word} (h : Primary.ofCode? (Field.opcd w).toNat = none) :
    ofWord w = .d ∨ ofWord w = .ds ∨ ofWord w = .md ∨ ofWord w = .mds := by
  unfold ofWord
  split
  case h_9 =>
    split
    · exact .inr (.inr (.inr rfl))
    · exact .inr (.inr (.inl rfl))
  case h_15 | h_16 => exact .inr (.inl rfl)
  case h_19 => exact .inl rfl
  all_goals
    rename_i hop
    rw [hop] at h
    contradiction

/-- The extended opcode of the doubleword shift overlaps the one of ten bits. -/
theorem xo10_of_shift {w : Word} (h : w.extractLsb' 2 9 = 413#9) :
    (Field.xo10 w).toNat / 2 = 413 := by
  have hfield : (w.extractLsb' 2 9).toNat = (Field.xo10 w).toNat / 2 := by
    simp [Field.xo10, BitVec.extractLsb'_toNat, Nat.shiftRight_eq_div_pow]
    omega
  rw [← hfield, h]
  rfl

theorem ofWord_group31 {w : Word} (hop : (Field.opcd w).toNat = 31) :
    ofWord w = match (Field.xo10 w).toNat with
      | 144 | 339 | 371 | 467 => .xfx
      | _ =>
        if w.extractLsb' 2 9 = 413#9 then .xs
        else if (FixedArith.ofCode? (Field.xo9 w).toNat).isSome then .xo
        else .x := by
  unfold ofWord
  rw [hop]
  rfl

/-- Neither a move of a special register nor the doubleword shift is register arithmetic: the
extended opcodes overlap. -/
theorem fixedArith_apart {w : Word} {op : FixedArith}
    (h : FixedArith.ofCode? (Field.xo9 w).toNat = some op) :
    (Field.xo10 w).toNat ≠ 144 ∧ (Field.xo10 w).toNat ≠ 339 ∧ (Field.xo10 w).toNat ≠ 371
      ∧ (Field.xo10 w).toNat ≠ 467 ∧ w.extractLsb' 2 9 ≠ 413#9 := by
  have hxo9 : (Field.xo9 w).toNat = (Field.xo10 w).toNat % 512 := by
    simp [Field.xo9, Field.xo10, BitVec.extractLsb'_toNat]
  have hcode := FixedArith.code_of_ofCode? h
  have hshift : (Field.xo10 w).toNat / 2 ≠ 413 := by
    cases op <;> simp only [FixedArith.code] at hcode <;> omega
  refine ⟨?_, ?_, ?_, ?_, mt xo10_of_shift hshift⟩ <;>
    cases op <;> simp only [FixedArith.code] at hcode <;> omega

/-- The table of ten bits does not hold the doubleword shift either. -/
theorem fixed_apart {w : Word} {op : Fixed} (h : Fixed.ofCode? (Field.xo10 w).toNat = some op) :
    w.extractLsb' 2 9 ≠ 413#9 := by
  intro h413
  have hshift := xo10_of_shift h413
  rw [← Fixed.code_of_ofCode? h] at hshift
  cases op <;> contradiction

end FormKind

namespace Instr

/-! ## Listed words are instructions -/

/-- The operands may be forbidden, but there is such an instruction. -/
def Known (r : Except Invalid Instr) : Prop := ∀ w, r ≠ .error (.unknown w)

theorem known_ok (i : Instr) : Known (.ok i) := nofun

theorem known_compareWords (mnemonic : String) (doubleword signed : Bool) (field : BitVec 3)
    (ra : Reg) (b : Operand) : Known (compareWords mnemonic doubleword signed field ra b) := by
  unfold compareWords
  split <;> nofun

theorem known_updating (mnemonic : String) (address : Address)
    (i : Address → Bool → MemoryInstr) : Known (updating mnemonic address i) := by
  unfold updating withBase
  split <;> nofun

theorem known_loadWithBase (mnemonic : String) (kind : Load) (rd : Reg) (address : Address) :
    Known (loadWithBase mnemonic kind rd address) := by
  unfold loadWithBase
  split <;> nofun

theorem known_ofDForm {f : DForm} {op : Primary} (h : Primary.ofCode? f.opcd.toNat = some op)
    (hop : op ∉ [Primary.table4, .table19, .table31, .table59, .table63, .b, .bc, .sc, .rlwimi,
      .rlwinm, .rlwnm, .psqL, .psqLu, .psqSt, .psqStu]) : Known (ofDForm f) := by
  unfold ofDForm
  rw [h]
  cases op with
  | lmw =>
      unfold Known
      dsimp only
      split <;> nofun
  | _ =>
      first
      | exact known_ok _
      | exact known_compareWords _ _ _ _ _ _
      | exact known_updating _ _ _
      | exact known_loadWithBase _ _ _ _
      | exact absurd (by decide) hop

theorem known_ofXForm31 {f : XForm} {op : Fixed} (h : Fixed.ofCode? f.xo.toNat = some op)
    (hop : op ∉ [Fixed.mtcrf, .mfspr, .mtspr, .mftb]) : Known (ofXForm31 f) := by
  unfold ofXForm31
  rw [h]
  cases op <;>
    first
    | exact known_ok _
    | exact known_compareWords _ _ _ _ _ _
    | exact known_updating _ _ _
    | exact known_loadWithBase _ _ _ _
    | exact absurd (by decide) hop

theorem known_ofXfxForm {f : XfxForm} {op : Fixed} (h : Fixed.ofCode? f.xo.toNat = some op)
    (hop : op ∈ [Fixed.mtcrf, .mfspr, .mtspr, .mftb]) : Known (ofXfxForm f) := by
  unfold ofXfxForm
  rw [h]
  cases op with
  | mtcrf | mfspr | mtspr => exact known_ok _
  | mftb =>
      unfold Known
      dsimp only
      split
      · nofun
      · split <;> nofun
  | _ => exact absurd hop (by decide)

theorem known_ofXlForm {f : XlForm} {op : Control} (h : Control.ofCode? f.xo.toNat = some op) :
    Known (ofXlForm f) := by
  unfold ofXlForm
  rw [h]
  cases op with
  | bcctr =>
      unfold Known
      dsimp only
      split <;> nofun
  | _ => exact known_ok _

theorem known_ofXForm63 {f : XForm} {op : DoubleMove} (h : DoubleMove.ofCode? f.xo.toNat = some op)
    (hop : op ≠ .mtfsf) : Known (ofXForm63 f) := by
  unfold ofXForm63
  rw [h]
  cases op with
  | mtfsf => contradiction
  | _ => exact known_ok _

theorem known_ofXForm4 {f : XForm} {op : PairedMove} (h : PairedMove.ofCode? f.xo.toNat = some op) :
    Known (ofXForm4 f) := by
  unfold ofXForm4
  rw [h]
  cases op <;> exact known_ok _

theorem known_ofXoForm {f : XoForm} {op : FixedArith}
    (h : FixedArith.ofCode? f.xo.toNat = some op) : Known (ofXoForm f) := by
  unfold ofXoForm
  rw [h]
  exact known_ok _

theorem known_ofMForm {f : MForm} {op : Primary} (h : Primary.ofCode? f.opcd.toNat = some op)
    (hop : op ∈ [Primary.rlwimi, .rlwinm, .rlwnm]) : Known (ofMForm f) := by
  unfold ofMForm
  rw [h]
  cases op with
  | rlwimi | rlwinm | rlwnm => exact known_ok _
  | _ => exact absurd hop (by decide)

theorem known_ofAForm59 {f : AForm} {op : SingleArith}
    (h : SingleArith.ofCode? f.xo.toNat = some op) : Known (ofAForm59 f) := by
  unfold ofAForm59
  rw [h]
  cases op <;> exact known_ok _

theorem known_ofAForm63 {f : AForm} {op : DoubleArith}
    (h : DoubleArith.ofCode? f.xo.toNat = some op) : Known (ofAForm63 f) := by
  unfold ofAForm63
  rw [h]
  cases op <;> exact known_ok _

theorem known_ofAForm4 {f : AForm} {op : PairedArith}
    (h : PairedArith.ofCode? f.xo.toNat = some op) : Known (ofAForm4 f) := by
  unfold ofAForm4
  rw [h]
  cases op <;> exact known_ok _

theorem known_ofPsqForm {f : PsqForm} {op : Primary} (h : Primary.ofCode? f.opcd.toNat = some op)
    (hop : op ∈ [Primary.psqL, .psqLu, .psqSt, .psqStu]) : Known (ofPsqForm f) := by
  unfold ofPsqForm
  rw [h]
  cases op with
  | psqL | psqSt => exact known_ok _
  | psqLu | psqStu => exact known_updating _ _ _
  | _ => exact absurd hop (by decide)

theorem known_ofPsqxForm {f : PsqxForm} {op : PairedIndexed}
    (h : PairedIndexed.ofCode? f.xo.toNat = some op) : Known (ofPsqxForm f) := by
  unfold ofPsqxForm
  rw [h]
  cases op with
  | psqLx | psqStx => exact known_ok _
  | psqLux | psqStux => exact known_updating _ _ _

/-! ## Agreement -/

/-- The layout of a word agrees with what the opcode tables say of it. -/
def Agrees (w : Word) : Option FormKind → Prop
  | some k => FormKind.ofWord w = k ∧ Known (ofForm (.decode k w))
  | none => ofWord w = .error (.unknown w)

theorem ofWord_of_layout {w : Word} {k : FormKind} (h : FormKind.ofWord w = k) :
    ofWord w = ofForm (.decode k w) := by
  rw [ofWord, Form.ofWord, h]

theorem toNat_opcd_dForm (w : Word) : (DForm.decode w).opcd.toNat = (Field.opcd w).toNat :=
  BitVec.toNat_setWidth_of_le (by decide)

theorem toNat_opcd_xForm (w : Word) : (XForm.decode w).opcd.toNat = (Field.opcd w).toNat :=
  BitVec.toNat_setWidth_of_le (by decide)

theorem toNat_xo_xForm (w : Word) : (XForm.decode w).xo.toNat = (Field.xo10 w).toNat :=
  BitVec.toNat_setWidth_of_le (by decide)

theorem toNat_opcd_aForm (w : Word) : (AForm.decode w).opcd.toNat = (Field.opcd w).toNat :=
  BitVec.toNat_setWidth_of_le (by decide)

theorem toNat_xo_aForm (w : Word) : (AForm.decode w).xo.toNat = (Field.xo5 w).toNat :=
  BitVec.toNat_setWidth_of_le (by decide)

theorem ofWord_of_no_primary {w : Word} (h : Primary.ofCode? (Field.opcd w).toNat = none) :
    ofWord w = .error (.unknown w) := by
  obtain hd | hds | hmd | hmds := FormKind.ofWord_of_no_primary h
  · rw [ofWord_of_layout hd]
    simp only [Form.decode, ofForm, ofDForm, toNat_opcd_dForm, h, DForm.encode_decode]
  · rw [ofWord_of_layout hds]
    simp only [Form.decode, ofForm, DsForm.encode_decode]
  · rw [ofWord_of_layout hmd]
    simp only [Form.decode, ofForm, MdForm.encode_decode]
  · rw [ofWord_of_layout hmds]
    simp only [Form.decode, ofForm, MdsForm.encode_decode]

theorem agrees_group4 {w : Word} (hop : (Field.opcd w).toNat = 4) :
    Agrees w (FormKind.ofGroup4? w) := by
  have hlayout := FormKind.ofWord_group4 hop
  have hx : ofForm (.decode .x w) = ofXForm4 (.decode w) := by
    simp only [Form.decode, ofForm, ofXForm, toNat_opcd_xForm, hop, Primary.ofCode?]
  have ha : ofForm (.decode .a w) = ofAForm4 (.decode w) := by
    simp only [Form.decode, ofForm, ofAForm, toNat_opcd_aForm, hop, Primary.ofCode?]
  unfold FormKind.ofGroup4?
  cases harith : PairedArith.ofCode? (Field.xo5 w).toNat with
  | some op =>
      rw [harith] at hlayout
      refine ⟨hlayout, ?_⟩
      rw [ha]
      exact known_ofAForm4 ((congrArg _ (toNat_xo_aForm w)).trans harith)
  | none =>
      rw [harith] at hlayout
      cases hindexed : PairedIndexed.ofCode? (Field.xo6 w).toNat with
      | some op =>
          have hxo : (PsqxForm.decode w).xo.toNat = (Field.xo6 w).toNat :=
            BitVec.toNat_setWidth_of_le (by decide)
          rw [hindexed] at hlayout
          exact ⟨hlayout, known_ofPsqxForm ((congrArg _ hxo).trans hindexed)⟩
      | none =>
          rw [hindexed] at hlayout
          cases hmove : PairedMove.ofCode? (Field.xo10 w).toNat with
          | some op =>
              refine ⟨hlayout, ?_⟩
              rw [hx]
              exact known_ofXForm4 ((congrArg _ (toNat_xo_xForm w)).trans hmove)
          | none =>
              show ofWord w = _
              rw [ofWord_of_layout (k := .x) hlayout, hx]
              simp only [ofXForm4, toNat_xo_xForm, hmove, XForm.encode_decode]

theorem agrees_group19 {w : Word} (hop : (Field.opcd w).toNat = 19) :
    Agrees w ((Control.ofCode? (Field.xo10 w).toNat).map fun _ => .xl) := by
  have hlayout : FormKind.ofWord w = .xl := by
    unfold FormKind.ofWord
    rw [hop]
    rfl
  have hxo : (XlForm.decode w).xo.toNat = (Field.xo10 w).toNat :=
    BitVec.toNat_setWidth_of_le (by decide)
  cases hcontrol : Control.ofCode? (Field.xo10 w).toNat with
  | some op => exact ⟨hlayout, known_ofXlForm ((congrArg _ hxo).trans hcontrol)⟩
  | none =>
      show ofWord w = _
      rw [ofWord_of_layout hlayout]
      simp only [Form.decode, ofForm, ofXlForm, hxo, hcontrol, XlForm.encode_decode]

theorem agrees_group31 {w : Word} (hop : (Field.opcd w).toNat = 31) :
    Agrees w (FormKind.ofGroup31? w) := by
  have hlayout := FormKind.ofWord_group31 hop
  have hx : ofForm (.decode .x w) = ofXForm31 (.decode w) := by
    simp only [Form.decode, ofForm, ofXForm, toNat_opcd_xForm, hop, Primary.ofCode?]
  unfold FormKind.ofGroup31?
  cases harith : FixedArith.ofCode? (Field.xo9 w).toNat with
  | some op =>
      -- the tables try arithmetic first and the layout tries it last
      have hxo : (XoForm.decode w).xo.toNat = (Field.xo9 w).toNat :=
        BitVec.toNat_setWidth_of_le (by decide)
      refine ⟨?_, known_ofXoForm ((congrArg _ hxo).trans harith)⟩
      obtain ⟨h144, h339, h371, h467, h413⟩ := FormKind.fixedArith_apart harith
      rw [hlayout]
      split
      · contradiction
      · contradiction
      · contradiction
      · contradiction
      · rw [if_neg h413, harith]
        rfl
  | none =>
      rw [harith] at hlayout
      cases hfixed : Fixed.ofCode? (Field.xo10 w).toNat with
      | some op =>
          rw [← Fixed.code_of_ofCode? hfixed, if_neg (FormKind.fixed_apart hfixed)] at hlayout
          have hxo : (XfxForm.decode w).xo.toNat = (Field.xo10 w).toNat :=
            BitVec.toNat_setWidth_of_le (by decide)
          cases op with
          | mtcrf | mfspr | mtspr | mftb =>
              exact ⟨hlayout, known_ofXfxForm ((congrArg _ hxo).trans hfixed) (by decide)⟩
          | _ =>
              refine ⟨hlayout, ?_⟩
              rw [hx]
              exact known_ofXForm31 ((congrArg _ (toNat_xo_xForm w)).trans hfixed) (by decide)
      | none =>
          show ofWord w = _
          split at hlayout
          case h_5 =>
            split at hlayout
            · rw [ofWord_of_layout hlayout]
              simp only [Form.decode, ofForm, XsForm.encode_decode]
            · rw [ofWord_of_layout (k := .x) hlayout, hx]
              simp only [ofXForm31, toNat_xo_xForm, hfixed, XForm.encode_decode]
          all_goals
            rename_i hxo
            rw [hxo] at hfixed
            contradiction

theorem agrees_group59 {w : Word} (hop : (Field.opcd w).toNat = 59) :
    Agrees w ((SingleArith.ofCode? (Field.xo5 w).toNat).map fun _ => .a) := by
  have hlayout : FormKind.ofWord w = .a := by
    unfold FormKind.ofWord
    rw [hop]
    rfl
  have ha : ofForm (.decode .a w) = ofAForm59 (.decode w) := by
    simp only [Form.decode, ofForm, ofAForm, toNat_opcd_aForm, hop, Primary.ofCode?]
  cases harith : SingleArith.ofCode? (Field.xo5 w).toNat with
  | some op =>
      refine ⟨hlayout, ?_⟩
      rw [ha]
      exact known_ofAForm59 ((congrArg _ (toNat_xo_aForm w)).trans harith)
  | none =>
      show ofWord w = _
      rw [ofWord_of_layout hlayout, ha]
      simp only [ofAForm59, toNat_xo_aForm, harith, AForm.encode_decode]

theorem agrees_group63 {w : Word} (hop : (Field.opcd w).toNat = 63) :
    Agrees w (FormKind.ofGroup63? w) := by
  have hlayout := FormKind.ofWord_group63 hop
  have hx : ofForm (.decode .x w) = ofXForm63 (.decode w) := by
    simp only [Form.decode, ofForm, ofXForm, toNat_opcd_xForm, hop, Primary.ofCode?]
  have ha : ofForm (.decode .a w) = ofAForm63 (.decode w) := by
    simp only [Form.decode, ofForm, ofAForm, toNat_opcd_aForm, hop, Primary.ofCode?]
  unfold FormKind.ofGroup63?
  cases harith : DoubleArith.ofCode? (Field.xo5 w).toNat with
  | some op =>
      rw [harith] at hlayout
      refine ⟨hlayout, ?_⟩
      rw [ha]
      exact known_ofAForm63 ((congrArg _ (toNat_xo_aForm w)).trans harith)
  | none =>
      rw [harith] at hlayout
      cases hmove : DoubleMove.ofCode? (Field.xo10 w).toNat with
      | some op =>
          rw [← DoubleMove.code_of_ofCode? hmove] at hlayout
          cases op with
          | mtfsf => exact ⟨hlayout, known_ok _⟩
          | _ =>
              refine ⟨hlayout, ?_⟩
              rw [hx]
              exact known_ofXForm63 ((congrArg _ (toNat_xo_xForm w)).trans hmove) nofun
      | none =>
          have hxfl : (Field.xo10 w).toNat ≠ 711 := by
            intro hxo
            rw [hxo] at hmove
            contradiction
          rw [if_neg nofun, if_neg hxfl] at hlayout
          show ofWord w = _
          rw [ofWord_of_layout hlayout, hx]
          simp only [ofXForm63, toNat_xo_xForm, hmove, XForm.encode_decode]

/-- **Layout and dispatch classify every word alike.** -/
theorem agrees_ofTables? (w : Word) : Agrees w (FormKind.ofTables? w) := by
  unfold FormKind.ofTables?
  cases hprimary : Primary.ofCode? (Field.opcd w).toNat with
  | none => exact ofWord_of_no_primary hprimary
  | some op =>
      have hop := (Primary.code_of_ofCode? hprimary).symm
      cases op with
      | table4 => exact agrees_group4 hop
      | table19 => exact agrees_group19 hop
      | table31 => exact agrees_group31 hop
      | table59 => exact agrees_group59 hop
      | table63 => exact agrees_group63 hop
      -- outside the groups the primary opcode alone decides
      | b | bc | sc =>
          refine ⟨?_, known_ok _⟩
          unfold FormKind.ofWord
          rw [hop]
          rfl
      | rlwimi | rlwinm | rlwnm =>
          have hm : (MForm.decode w).opcd.toNat = (Field.opcd w).toNat :=
            BitVec.toNat_setWidth_of_le (by decide)
          refine ⟨?_, known_ofMForm ((congrArg _ hm).trans hprimary) (by decide)⟩
          unfold FormKind.ofWord
          rw [hop]
          rfl
      | psqL | psqLu | psqSt | psqStu =>
          have hpsq : (PsqForm.decode w).opcd.toNat = (Field.opcd w).toNat :=
            BitVec.toNat_setWidth_of_le (by decide)
          refine ⟨?_, known_ofPsqForm ((congrArg _ hpsq).trans hprimary) (by decide)⟩
          unfold FormKind.ofWord
          rw [hop]
          rfl
      | _ =>
          have hd : Primary.ofCode? (DForm.decode w).opcd.toNat = some _ :=
            (congrArg _ (toNat_opcd_dForm w)).trans hprimary
          refine ⟨?_, known_ofDForm hd (by decide)⟩
          unfold FormKind.ofWord
          rw [hop]
          rfl

/-- The instruction of a word, found through the opcode tables. -/
def dispatch (w : Word) : Except Invalid Instr :=
  match FormKind.ofTables? w with
  | some k => ofForm (.decode k w)
  | none => .error (.unknown w)

theorem dispatch_eq_ofWord (w : Word) : dispatch w = ofWord w := by
  have hagrees := agrees_ofTables? w
  unfold dispatch
  cases h : FormKind.ofTables? w with
  | some k =>
      rw [h] at hagrees
      exact (ofWord_of_layout hagrees.1).symm
  | none =>
      rw [h] at hagrees
      exact hagrees.symm

/-- The processor reports a word as unknown exactly if no table lists it. -/
theorem ofWord_eq_unknown_iff {v w : Word} :
    ofWord w = .error (.unknown v) ↔ FormKind.ofTables? w = none ∧ v = w := by
  have hagrees := agrees_ofTables? w
  cases h : FormKind.ofTables? w with
  | some k =>
      rw [h] at hagrees
      have hknown := hagrees.2 v
      rw [← ofWord_of_layout hagrees.1] at hknown
      simp [hknown]
  | none =>
      rw [h] at hagrees
      have hunknown : ofWord w = .error (.unknown w) := hagrees
      rw [hunknown]
      simp [eq_comm]

end Instr

/-! ## The bits that a form leaves out -/

theorem extractLsb'_and_of_ones {w m : Word} {lo n : Nat}
    (h : m.extractLsb' lo n = BitVec.allOnes n) :
    (w &&& m).extractLsb' lo n = w.extractLsb' lo n := by
  rw [BitVec.extractLsb'_and, h, BitVec.and_allOnes]

theorem extractLsb'_or_of_zeros {w m : Word} {lo n : Nat} (h : m.extractLsb' lo n = 0#n) :
    (w ||| m).extractLsb' lo n = w.extractLsb' lo n := by
  rw [BitVec.extractLsb'_or, h, BitVec.or_zero]

theorem getLsbD_and_of_one {w m : Word} {i : Nat} (h : m.getLsbD i = true) :
    (w &&& m).getLsbD i = w.getLsbD i := by
  rw [BitVec.getLsbD_and, h, Bool.and_true]

namespace FormKind

/-- Every other extended opcode is part of the widest one. -/
theorem extractLsb'_xo10 (w : Word) {lo n : Nat} (h : lo + n ≤ 10) :
    w.extractLsb' (1 + lo) n = (Field.xo10 w).extractLsb' lo n := by
  apply BitVec.eq_of_getLsbD_eq
  intro i hi
  have hin : lo + i < 10 := by omega
  rw [Field.xo10, BitVec.getLsbD_extractLsb', BitVec.getLsbD_extractLsb',
    BitVec.getLsbD_extractLsb']
  simp [hi, hin, Nat.add_assoc]

/-- The layout of a word is judged from the primary opcode and the widest extended one. -/
theorem ofWord_congr {v w : Word} (hopcd : Field.opcd v = Field.opcd w)
    (hxo : Field.xo10 v = Field.xo10 w) : ofWord v = ofWord w := by
  have hpart (lo n : Nat) (h : lo + n ≤ 10) :
      v.extractLsb' (1 + lo) n = w.extractLsb' (1 + lo) n := by
    rw [extractLsb'_xo10 v h, extractLsb'_xo10 w h, hxo]
  have hxo5 : Field.xo5 v = Field.xo5 w := hpart 0 5 (by decide)
  have hxo6 : Field.xo6 v = Field.xo6 w := hpart 0 6 (by decide)
  have hxo9 : Field.xo9 v = Field.xo9 w := hpart 0 9 (by decide)
  have hrotate : v.extractLsb' 2 3 = w.extractLsb' 2 3 := hpart 1 3 (by decide)
  have hshift : v.extractLsb' 2 9 = w.extractLsb' 2 9 := hpart 1 9 (by decide)
  unfold ofWord
  rw [hopcd, hxo, hxo5, hxo6, hxo9, hrotate, hshift]

theorem opcd_of_ofWord_eq_sc {w : Word} (h : ofWord w = .sc) : (Field.opcd w).toNat = 17 := by
  unfold ofWord at h
  split at h
  case h_3 hop => exact hop
  all_goals
    repeat' split at h
    all_goals contradiction

/-- The layout of a word is judged from bits that its form keeps. -/
theorem ofWord_relaid (w : Word) : ofWord ((ofWord w).relaid w) = ofWord w := by
  cases h : ofWord w with
  | xfx | psqx =>
      have hopcd : Field.opcd (w &&& ~~~1#32) = Field.opcd w := extractLsb'_and_of_ones (by decide)
      have hxo : Field.xo10 (w &&& ~~~1#32) = Field.xo10 w := extractLsb'_and_of_ones (by decide)
      exact (ofWord_congr hopcd hxo).trans h
  | xfl =>
      have hopcd : Field.opcd (w &&& ~~~(1#32 <<< 25 ||| 1#32 <<< 16)) = Field.opcd w :=
        extractLsb'_and_of_ones (by decide)
      have hxo : Field.xo10 (w &&& ~~~(1#32 <<< 25 ||| 1#32 <<< 16)) = Field.xo10 w :=
        extractLsb'_and_of_ones (by decide)
      exact (ofWord_congr hopcd hxo).trans h
  | sc =>
      have hopcd : Field.opcd ((w &&& 0xFC000FE0#32) ||| 2#32) = Field.opcd w := by
        rw [Field.opcd, extractLsb'_or_of_zeros (by decide), extractLsb'_and_of_ones (by decide)]
        rfl
      unfold relaid ofWord
      rw [hopcd, opcd_of_ofWord_eq_sc h]
      rfl
  | _ => exact h

end FormKind

namespace Form

/-- The bits that are lost in laying out a form were not read. -/
theorem decode_relaid (k : FormKind) (w : Word) : decode k (k.relaid w) = decode k w := by
  cases k with
  | xfx =>
      simp (disch := decide) only [decode, FormKind.relaid, XfxForm.decode, Field.opcd, Field.rt,
        Field.sprField, Field.xo10, extractLsb'_and_of_ones]
  | psqx =>
      simp (disch := decide) only [decode, FormKind.relaid, PsqxForm.decode, Field.opcd, Field.rt,
        Field.ra, Field.rb, Field.psqWx, Field.psqIx, Field.xo6, extractLsb'_and_of_ones,
        getLsbD_and_of_one]
  | xfl =>
      simp (disch := decide) only [decode, FormKind.relaid, XflForm.decode, Field.opcd, Field.fm,
        Field.rb, Field.xo10, Field.bit31, extractLsb'_and_of_ones, getLsbD_and_of_one]
  | sc =>
      simp (disch := decide) only [decode, FormKind.relaid, ScForm.decode, Field.opcd, Field.lev,
        extractLsb'_or_of_zeros, extractLsb'_and_of_ones]
  | _ => rfl

/-- A word and its form laid out again have the same form. -/
theorem ofWord_encode (w : Word) : ofWord (ofWord w).encode = ofWord w := by
  have hword : (ofWord w).encode = (FormKind.ofWord w).relaid w := encode_decode _ w
  rw [hword, ofWord, FormKind.ofWord_relaid, decode_relaid]
  rfl

end Form

namespace Machine

theorem execute_congr {v w : Word} (h : Form.ofWord v = Form.ofWord w) (m : Machine) :
    m.execute v = m.execute w := by
  unfold execute Instr.ofWord
  rw [h]

/-- **Execution depends on a word only through its form.** Looking a word up in the opcode tables
gives the instruction of its form; words of one form do the same to every machine, with the same
failure; and so does the word that the form is laid out in. -/
theorem execute_form :
    (∀ w, Instr.dispatch w = Instr.ofWord w) ∧
      (∀ v w, Form.ofWord v = Form.ofWord w → ∀ m : Machine, m.execute v = m.execute w) ∧
      ∀ (w : Word) (m : Machine), m.execute (Form.ofWord w).encode = m.execute w := by
  refine ⟨Instr.dispatch_eq_ofWord, ?_, ?_⟩
  · intro v w h m
    exact execute_congr h m
  · intro w m
    exact execute_congr (Form.ofWord_encode w) m

/-- The last bit of a move from a special register is in no field. -/
theorem execute_form_moveFromLink :
    Form.ofWord 0x7C0802A6#32 = Form.ofWord 0x7C0802A7#32 ∧
      ∀ m : Machine, m.execute 0x7C0802A6#32 = m.execute 0x7C0802A7#32 := by
  have hform : Form.ofWord 0x7C0802A6#32 = Form.ofWord 0x7C0802A7#32 := by decide
  exact ⟨hform, execute_form.2.1 _ _ hform⟩

end Machine

end Broadway
