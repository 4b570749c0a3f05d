import Broadway.Proofs.Instr.Aligned
import Broadway.Proofs.Instr.Transfers
import Broadway.Proofs.Memory.Transfer

/-!
# Accesses that update their base

Each load and store with update has a plain form with the same operands (`Word.UpdateForm` pairs the
words). The update form is refused if there is no base to update, or if the base is the target of an
integer load; otherwise it is the plain form with one thing added, that the base register gets the
effective address if the access completes (`update_form_exact`).
-/

namespace Broadway

open Opcode

/-! ## Pairs of forms -/

/-- The plain form of an access with update, and whether it is an integer load. -/
def Opcode.Primary.plain? : Primary → Option (Primary × Bool)
  | .lwzu => some (.lwz, true)
  | .lbzu => some (.lbz, true)
  | .lhzu => some (.lhz, true)
  | .lhau => some (.lha, true)
  | .stwu => some (.stw, false)
  | .stbu => some (.stb, false)
  | .sthu => some (.sth, false)
  | .lfsu => some (.lfs, false)
  | .lfdu => some (.lfd, false)
  | .stfsu => some (.stfs, false)
  | .stfdu => some (.stfd, false)
  | _ => none

/-- The same for indexed accesses. -/
def Opcode.Fixed.plain? : Fixed → Option (Fixed × Bool)
  | .lwzux => some (.lwzx, true)
  | .lbzux => some (.lbzx, true)
  | .lhzux => some (.lhzx, true)
  | .lhaux => some (.lhax, true)
  | .stwux => some (.stwx, false)
  | .stbux => some (.stbx, false)
  | .sthux => some (.sthx, false)
  | .lfsux => some (.lfsx, false)
  | .lfdux => some (.lfdx, false)
  | .stfsux => some (.stfsx, false)
  | .stfdux => some (.stfdx, false)
  | _ => none

namespace Word

/-- The word `w` is an access with update to an address, and `v` is the plain form with the same
operands; `load` tells whether they are integer loads. -/
inductive UpdateForm (w v : Word) : (load : Bool) → Address → Prop
  | displaced {op op' : Primary} {load : Bool} (hplain : op.plain? = some (op', load))
      (hw : op.Selects w) (hv : op'.Selects v) (hrt : Field.rt v = Field.rt w)
      (hra : Field.ra v = Field.ra w) (hd : Field.immediate v = Field.immediate w) :
      UpdateForm w v load (.displaced (Field.ra w) ((Field.immediate w).signExtend 32))
  | indexed {op op' : Fixed} {load : Bool} (hplain : op.plain? = some (op', load))
      (hw : op.Selects w) (hv : op'.Selects v) (hrt : Field.rt v = Field.rt w)
      (hra : Field.ra v = Field.ra w) (hrb : Field.rb v = Field.rb w) :
      UpdateForm w v load (.indexed (Field.ra w) (Field.rb w))
  | loadQuantized {frt : Reg} {a : Address} {one : Bool} {gqr : BitVec 3}
      (hw : w.QuantizedAccess .psqLu .psqLux frt a one gqr)
      (hv : v.QuantizedAccess .psqL .psqLx frt a one gqr) : UpdateForm w v false a
  | storeQuantized {frs : Reg} {a : Address} {one : Bool} {gqr : BitVec 3}
      (hw : w.QuantizedAccess .psqStu .psqStux frs a one gqr)
      (hv : v.QuantizedAccess .psqSt .psqStx frs a one gqr) : UpdateForm w v false a

/-- Whether an access with update is refused: without a base there is nothing to update, and an
integer load cannot leave both the value and the address in one register. -/
def RefusesUpdate (w : Word) (load : Bool) (a : Address) : Prop :=
  a.base = 0 ∨ load = true ∧ a.base = Field.rt w

instance (w : Word) (load : Bool) (a : Address) : Decidable (w.RefusesUpdate load a) :=
  inferInstanceAs (Decidable (_ ∨ _))

end Word

/-- The outcome of an access that leaves the effective address in its base register if it
completes. -/
def Outcome.updateBase (o : Outcome) (base : Reg) (effective : Word) : Outcome :=
  match o.failure with
  | none => ⟨{ o.machine with regs := o.machine.regs.setGpr base effective }, none⟩
  | some _ => o

/-! ## Instructions -/

/-- An update adds to a storing instruction the register that it changes. -/
theorem Storing.exec_setGpr (s : Storing) (base : Reg) (effective : Word) (m : Machine) :
    (⟨s.elements, s.regs.setGpr base effective⟩ : Storing).exec m =
      (s.exec m).updateBase base effective := by
  rcases hw : writeAll m.ram s.elements with ⟨_ | err, ram⟩
  · rw [exec_of_written (s := s) hw]
    exact exec_of_written hw
  · rw [exec_of_refused (s := s) hw]
    exact exec_of_refused hw

namespace MemoryInstr

/-- Transfers that have a form with update. -/
inductive HasUpdate : (Address → Bool → MemoryInstr) → Prop
  | load (kind : Load) (rt : Reg) : HasUpdate (.load kind rt)
  | store (kind : Store) (rs : Reg) : HasUpdate (.store kind rs)
  | loadQuantized (frt : Reg) (one : Bool) (gqr : BitVec 3) :
      HasUpdate (.loadQuantized frt · one gqr)
  | storeQuantized (frs : Reg) (one : Bool) (gqr : BitVec 3) :
      HasUpdate (.storeQuantized frs · one gqr)

/-- With update or without, a transfer goes to the same address and fails alike. -/
theorem HasUpdate.exec {i : Address → Bool → MemoryInstr} (h : HasUpdate i) (a : Address)
    (m : Machine) :
    (i a true).exec m = ((i a false).exec m).updateBase a.base (m.regs.effective a) := by
  -- a transfer can fail at three places, all of them before it looks at the update
  cases h with
  | load kind rt =>
      show Loading.single kind rt a true m = (Loading.single kind rt a false m).updateBase _ _
      simp only [Loading.single]
      cases alignmentFault kind.aligned (m.regs.effective a) with
      | some f => rfl
      | none =>
          cases Loading.element m.ram (m.regs.effective a) kind.size with
          | error f => rfl
          | ok bytes => rfl
  | store kind rs =>
      show Storing.exec? (Storing.single kind rs a true m.regs) m =
        (Storing.exec? (Storing.single kind rs a false m.regs) m).updateBase _ _
      simp only [Storing.single]
      cases alignmentFault kind.aligned (m.regs.effective a) with
      | some f => rfl
      | none => exact Storing.exec_setGpr ⟨[(m.regs.effective a, kind.bytes m.regs rs)], m.regs⟩ ..
  | loadQuantized frt one gqr =>
      show Loading.quantized frt a one gqr true m =
        (Loading.quantized frt a one gqr false m).updateBase _ _
      simp only [Loading.quantized]
      cases Quantizer.forLoad (m.regs.gqr.read gqr) with
      | error e => rfl
      | ok q =>
          simp only
          cases Loading.quantizedLanes m.ram q (m.regs.effective a) one with
          | error f => rfl
          | ok lanes => rfl
  | storeQuantized frs one gqr =>
      show Storing.exec? (Storing.quantized frs a one gqr true m.regs) m =
        (Storing.exec? (Storing.quantized frs a one gqr false m.regs) m).updateBase _ _
      simp only [Storing.quantized]
      cases Quantizer.forStore (m.regs.gqr.read gqr) with
      | error e => rfl
      | ok q => exact Storing.exec_setGpr ⟨_, m.regs⟩ ..

end MemoryInstr

/-! ## Words -/

namespace Instr

/-- How the words of an access with update and of its plain form are read: as one transfer, with the
checks that go with the update. -/
inductive ReadsUpdate (rt : Reg) (a : Address) :
    (load : Bool) → Except Invalid Instr → Except Invalid Instr → Prop
  | load (mnemonic : String) (kind : Load) :
      ReadsUpdate rt a true (loadWithBase mnemonic kind rt a) (plain a (.load kind rt))
  | other (mnemonic : String) {i : Address → Bool → MemoryInstr} (h : MemoryInstr.HasUpdate i) :
      ReadsUpdate rt a false (updating mnemonic a i) (plain a i)

theorem readsUpdate_ofDForm {f g : DForm} {op op' : Primary} {load : Bool}
    (hplain : op.plain? = some (op', load)) (hf : Primary.ofCode? f.opcd.toNat = some op)
    (hg : Primary.ofCode? g.opcd.toNat = some op') (hrt : g.rt = f.rt)
    (ha : displaced g = displaced f) :
    ReadsUpdate (reg f.rt) (displaced f) load (ofDForm f) (ofDForm g) := by
  unfold ofDForm
  rw [hf, hg, hrt, ha]
  cases op <;> cases hplain <;>
    first
    | exact .load ..
    | exact .other _ (.load ..)
    | exact .other _ (.store ..)

theorem readsUpdate_ofXForm31 {f g : XForm} {op op' : Fixed} {load : Bool}
    (hplain : op.plain? = some (op', load)) (hf : Fixed.ofCode? f.xo.toNat = some op)
    (hg : Fixed.ofCode? g.xo.toNat = some op') (hrt : g.rt = f.rt)
    (ha : indexed g = indexed f) :
    ReadsUpdate (reg f.rt) (indexed f) load (ofXForm31 f) (ofXForm31 g) := by
  unfold ofXForm31
  rw [hf, hg, hrt, ha]
  cases op <;> cases hplain <;>
    first
    | exact .load ..
    | exact .other _ (.load ..)
    | exact .other _ (.store ..)

variable {w v : Word}

theorem ofWord_of_plain? {op op' : Primary} {load : Bool} (hplain : op.plain? = some (op', load))
    (hw : op.Selects w) (hv : op'.Selects v) :
    ofWord w = ofDForm (.decode w) ∧ ofWord v = ofDForm (.decode v) := by
  constructor
  · refine ofWord_of_primary hw ?_
    cases op <;> cases hplain <;> decide
  · refine ofWord_of_primary hv ?_
    cases op <;> cases hplain <;> decide

theorem ofWord_of_indexedPlain? {op op' : Fixed} {load : Bool}
    (hplain : op.plain? = some (op', load)) (hw : op.Selects w) (hv : op'.Selects v) :
    ofWord w = ofXForm31 (.decode w) ∧ ofWord v = ofXForm31 (.decode v) := by
  constructor
  · refine ofWord_of_fixed hw ?_
    cases op <;> cases hplain <;> decide
  · refine ofWord_of_fixed hv ?_
    cases op <;> cases hplain <;> decide

section Quantized

variable {frt : Reg} {a : Address} {one : Bool} {gqr : BitVec 3}

theorem ofWord_of_loadQuantizedUpdate (hw : w.QuantizedAccess .psqLu .psqLux frt a one gqr) :
    ∃ mnemonic, ofWord w = updating mnemonic a (.loadQuantized frt · one gqr) := by
  cases hw with
  | displaced hselects =>
      refine ⟨"psq_lu", ?_⟩
      rw [ofWord_of_psq hselects (by decide), ofPsqForm, hselects.ofCode?_psqForm]
      simp only [PsqForm.decode, reg_setWidth, gqr_setWidth]
  | indexed hselects =>
      refine ⟨"psq_lux", ?_⟩
      rw [ofWord_of_pairedIndexed hselects, ofPsqxForm, ofCode?_psqxForm hselects]
      simp only [PsqxForm.decode, reg_setWidth, gqr_setWidth]

theorem ofWord_of_storeQuantizedUpdate (hw : w.QuantizedAccess .psqStu .psqStux frt a one gqr) :
    ∃ mnemonic, ofWord w = updating mnemonic a (.storeQuantized frt · one gqr) := by
  cases hw with
  | displaced hselects =>
      refine ⟨"psq_stu", ?_⟩
      rw [ofWord_of_psq hselects (by decide), ofPsqForm, hselects.ofCode?_psqForm]
      simp only [PsqForm.decode, reg_setWidth, gqr_setWidth]
  | indexed hselects =>
      refine ⟨"psq_stux", ?_⟩
      rw [ofWord_of_pairedIndexed hselects, ofPsqxForm, ofCode?_psqxForm hselects]
      simp only [PsqxForm.decode, reg_setWidth, gqr_setWidth]

end Quantized

variable {load : Bool} {a : Address}

theorem readsUpdate_ofWord (h : w.UpdateForm v load a) :
    ReadsUpdate (Field.rt w) a load (ofWord w) (ofWord v) := by
  have hreg : reg ((Field.rt w).setWidth 8) = Field.rt w := reg_setWidth _
  cases h with
  | displaced hplain hw hv hrt hra hd =>
      obtain ⟨hupdate, hbare⟩ := ofWord_of_plain? hplain hw hv
      have ha : displaced (.decode v) = displaced (.decode w) := by
        rw [displaced_decode, displaced_decode, hra, hd]
      have hread := readsUpdate_ofDForm hplain hw.ofCode?_dForm hv.ofCode?_dForm
        (congrArg (BitVec.setWidth 8) hrt) ha
      rw [hupdate, hbare, ← hreg, ← displaced_decode]
      exact hread
  | indexed hplain hw hv hrt hra hrb =>
      obtain ⟨hupdate, hbare⟩ := ofWord_of_indexedPlain? hplain hw hv
      have ha : indexed (.decode v) = indexed (.decode w) := by
        rw [indexed_decode, indexed_decode, hra, hrb]
      have hread := readsUpdate_ofXForm31 hplain hw.ofCode?_xForm hv.ofCode?_xForm
        (congrArg (BitVec.setWidth 8) hrt) ha
      rw [hupdate, hbare, ← hreg, ← indexed_decode]
      exact hread
  | loadQuantized hw hv =>
      obtain ⟨mnemonic, hupdate⟩ := ofWord_of_loadQuantizedUpdate hw
      rw [hupdate, ofWord_of_loadQuantized hv]
      exact .other mnemonic (.loadQuantized ..)
  | storeQuantized hw hv =>
      obtain ⟨mnemonic, hupdate⟩ := ofWord_of_storeQuantizedUpdate hw
      rw [hupdate, ofWord_of_storeQuantized hv]
      exact .other mnemonic (.storeQuantized ..)

/-- The checks refuse just the updates that cannot be made; the plain form is never refused. -/
theorem ReadsUpdate.transfer {x y : Except Invalid Instr}
    (h : ReadsUpdate (Field.rt w) a load x y) :
    ∃ i, MemoryInstr.HasUpdate i ∧ y = .ok (.memory (i a false)) ∧
      (w.RefusesUpdate load a → ∃ e, x = .error e) ∧
      (¬ w.RefusesUpdate load a → x = .ok (.memory (i a true))) := by
  cases h with
  | load mnemonic kind =>
      refine ⟨.load kind (Field.rt w), .load .., rfl, ?_, ?_⟩
      · rintro (hzero | ⟨-, hsame⟩)
        · exact ⟨_, if_pos (.inl hzero)⟩
        · exact ⟨_, if_pos (.inr hsame)⟩
      · intro hnot
        exact if_neg fun h => hnot (h.imp_right fun hsame => ⟨rfl, hsame⟩)
  | @other mnemonic i hi =>
      refine ⟨i, hi, rfl, ?_, ?_⟩
      · rintro (hzero | ⟨hload, -⟩)
        · exact ⟨_, if_pos hzero⟩
        · contradiction
      · intro hnot
        exact if_neg fun h => hnot (.inl h)

end Instr

/-- **An access with update is the plain access and an update of the base**, for every state. It is
refused, with nothing changed, if the base cannot be updated. Otherwise it fails as the plain access
fails, or leaves what the plain access leaves with the effective address in the base register; the
address is worked out from the registers as they were before. -/
theorem update_form_exact (m : Machine) {w v : Word} {load : Bool} {a : Address}
    (h : w.UpdateForm v load a) :
    (w.RefusesUpdate load a → ∃ e, m.execute w = m.fail (.invalid e)) ∧
    (¬ w.RefusesUpdate load a →
      (∀ f, (m.execute v).failure = some f → m.execute w = m.execute v) ∧
      ((m.execute v).failure = none →
        m.execute w = ⟨{ (m.execute v).machine with
          regs := (m.execute v).machine.regs.setGpr a.base (m.regs.effective a) }, none⟩)) := by
  obtain ⟨i, hi, hplain, hrefused, hread⟩ := (Instr.readsUpdate_ofWord h).transfer
  constructor
  · intro hrefuses
    obtain ⟨e, he⟩ := hrefused hrefuses
    exact ⟨e, Machine.execute_of_error he m⟩
  · intro hnot
    have hupdate : m.execute w = (m.execute v).updateBase a.base (m.regs.effective a) := by
      rw [Machine.execute_of_ofWord (hread hnot), Machine.execute_of_ofWord hplain]
      exact hi.exec a m
    rw [hupdate, Outcome.updateBase]
    refine ⟨fun f hf => ?_, fun hdone => ?_⟩
    · rw [hf]
    · rw [hdone]

/-- `stwu r1, -16(r1)` opens a stack frame: the old base is stored at the address that the base
becomes. `lwzu r1, 0(r1)` is refused. -/
theorem update_form_exact_frame :
    let m : Machine := ⟨Registers.initial.setGpr 1 0x10#32, .zeroed 8⟩
    (m.execute 0x9421FFF0#32).failure = none ∧
      (m.execute 0x9421FFF0#32).machine.regs.gpr.read 1 = 0#32 ∧
      (m.execute 0x9421FFF0#32).machine.ram.slice 0 4 = Bytes.ofWord 4 0x10#32 ∧
      ∃ e, m.execute 0x84210000#32 = m.fail (.invalid e) := by
  intro m
  have hstore : Word.UpdateForm 0x9421FFF0#32 0x9021FFF0#32 false (.displaced 1 0xFFFFFFF0#32) :=
    .displaced (show Primary.stwu.plain? = some (.stw, false) from rfl) (by decide) (by decide)
      (by decide) (by decide) (by decide)
  have hload : Word.UpdateForm 0x84210000#32 0x80210000#32 true (.displaced 1 0) :=
    .displaced (show Primary.lwzu.plain? = some (.lwz, true) from rfl) (by decide) (by decide)
      (by decide) (by decide) (by decide)
  have hdone : (m.execute 0x9021FFF0#32).failure = none := by decide +kernel
  have hstored : (m.execute 0x9021FFF0#32).machine.ram.slice 0 4 = Bytes.ofWord 4 0x10#32 := by
    decide +kernel
  have haddress : m.regs.effective (.displaced 1 0xFFFFFFF0#32) = 0#32 := by decide +kernel
  have hupdated := ((update_form_exact m hstore).2 (by decide)).2 hdone
  rw [hupdated]
  exact ⟨rfl, (Bank.read_write_self ..).trans haddress, hstored,
    (update_form_exact m hload).1 (by decide)⟩

end Broadway
