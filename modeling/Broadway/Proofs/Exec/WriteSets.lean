import Broadway.Proofs.Exec.Frame
import Broadway.Proofs.Instr.Reads

/-!
# Write sets of instruction words

Which words can change which part of the registers. `Part.WrittenBy` is the table, written with the
opcodes and operand fields of the word itself. Together with the frame law of instructions it rests
on one fact about decoding: an instruction that may write a part only comes from a word that the
table lists for that part (`Instr.onlyWrites_ofWord`), shown for each way in which a word is read.

* What a word changes, it is listed for, whether it completes or fails
  (`Machine.writtenBy_of_changed`).
-/

namespace Broadway

open Opcode

namespace Part

/-- Whether a word moves to a special register with one of some numbers. -/
def Moves (w : Word) (numbers : List Nat) : Prop :=
  Fixed.mtspr.Selects w ∧ (Field.spr w).toNat ∈ numbers

/-- Whether a word is one of the four branches. -/
def Branches (w : Word) : Prop :=
  Primary.b.Selects w ∨ Primary.bc.Selects w ∨ Control.bclr.Selects w ∨ Control.bcctr.Selects w

/-- Whether a word is one of those that can change a part. -/
def WrittenBy (p : Part) (w : Word) : Prop :=
  match p with
  | .pc => False
  | .npc => Branches w ∨ Primary.sc.Selects w ∨ Control.rfi.Selects w
  | .lr => Branches w ∧ Field.bit31 w = true ∨ Moves w [8]
  | .ctr =>
    (Primary.bc.Selects w ∨ Control.bclr.Selects w) ∧ Field.rt w &&& 0b00100#5 = 0 ∨ Moves w [9]
  | .timeBase => Moves w [268, 269, 284, 285]
  | .msr => Primary.sc.Selects w ∨ Control.rfi.Selects w ∨ Fixed.mtmsr.Selects w
  | .srr0 => Primary.sc.Selects w ∨ Moves w [26]
  | .srr1 => Primary.sc.Selects w ∨ Moves w [27]
  | .dar => Moves w [19]
  | .dsisr => Moves w [18]
  | .segments => Fixed.mtsr.Selects w ∨ Fixed.mtsrin.Selects w
  | .quantizers => Moves w [912, 913, 914, 915, 916, 917, 918, 919]
  | .specials => Fixed.mtspr.Selects w
  | .reservation => Fixed.lwarx.Selects w ∨ Fixed.stwcx.Selects w ∨ Control.rfi.Selects w
  | .floats | .status =>
    (Field.opcd w).toNat ∈ [4, 48, 49, 50, 51, 56, 57, 59, 63] ∨
      Fixed.lfsx.Selects w ∨ Fixed.lfsux.Selects w ∨ Fixed.lfdx.Selects w ∨ Fixed.lfdux.Selects w

end Part

namespace Instr

/-! ## From instructions back to words -/

/-- What stands for an instruction stands for one whose parts a word is listed for. -/
def OnlyWrites (w : Word) (x : Except Invalid Instr) : Prop :=
  ∀ i, x = .ok i → ∀ p, i.Writes p → p.WrittenBy w

variable {w : Word}

@[simp]
theorem onlyWrites_error (e : Invalid) : OnlyWrites w (.error e) := yields_error e

@[simp]
theorem onlyWrites_ok (i : Instr) :
    OnlyWrites w (.ok i) ↔ ∀ p, i.Writes p → p.WrittenBy w :=
  ⟨fun h => h i rfl, fun h => yields_ok (P := fun i => ∀ p, i.Writes p → p.WrittenBy w) h⟩

@[simp]
theorem onlyWrites_compareWords (mnemonic : String) (doubleword signed : Bool) (field : BitVec 3)
    (ra : Reg) (b : Operand) :
    OnlyWrites w (compareWords mnemonic doubleword signed field ra b) :=
  yields_compareWords fun _ hp => hp.elim

theorem onlyWrites_withBase {mnemonic : String} {base : Reg} {i : MemoryInstr}
    (h : ∀ p, i.Writes p → p.WrittenBy w) : OnlyWrites w (withBase mnemonic base i) :=
  yields_withBase h

theorem onlyWrites_of_none {i : Instr} (h : ∀ p, ¬ i.Writes p) : OnlyWrites w (.ok i) :=
  (onlyWrites_ok i).2 fun p hp => absurd hp (h p)

/-- A transfer without floating point registers and reservations may write no part. -/
theorem not_writes_of_transfer {i : MemoryInstr} (hfloat : i.fillsFloat = false)
    (hreservation : i.concernsReservation = false) (p : Part) : ¬ i.Writes p := by
  simp [MemoryInstr.Writes, hfloat, hreservation]

theorem onlyWrites_transfer {i : MemoryInstr} (hfloat : i.fillsFloat = false)
    (hreservation : i.concernsReservation = false) : OnlyWrites w (.ok (.memory i)) :=
  onlyWrites_of_none (not_writes_of_transfer hfloat hreservation)

theorem onlyWrites_updating (mnemonic : String) (address : Address)
    {i : Address → Bool → MemoryInstr} (hfloat : (i address true).fillsFloat = false)
    (hreservation : (i address true).concernsReservation = false) :
    OnlyWrites w (updating mnemonic address i) :=
  onlyWrites_withBase fun p hp => absurd hp (not_writes_of_transfer hfloat hreservation p)

theorem onlyWrites_loadWithBase (mnemonic : String) {kind : Load} (rd : Reg) (address : Address)
    (h : kind.isFloat = false) : OnlyWrites w (loadWithBase mnemonic kind rd address) :=
  yields_loadWithBase fun p hp =>
    absurd hp (not_writes_of_transfer (i := .load kind rd address true) h rfl p)

/-- A load of floating point registers writes these only. -/
theorem writtenBy_of_fillsFloat {i : MemoryInstr} (hreservation : i.concernsReservation = false)
    (h : Part.floats.WrittenBy w) {p : Part} (hp : i.Writes p) : p.WrittenBy w := by
  rcases hp with ⟨rfl, -⟩ | ⟨-, hconcerns⟩
  · exact h
  · rw [hreservation] at hconcerns
    contradiction

theorem onlyWrites_plain_float {address : Address} {i : Address → Bool → MemoryInstr}
    (hreservation : (i address false).concernsReservation = false)
    (h : Part.floats.WrittenBy w) : OnlyWrites w (plain address i) :=
  (onlyWrites_ok _).2 fun _ => writtenBy_of_fillsFloat hreservation h

theorem onlyWrites_updating_float {mnemonic : String} {address : Address}
    {i : Address → Bool → MemoryInstr}
    (hreservation : (i address true).concernsReservation = false)
    (h : Part.floats.WrittenBy w) : OnlyWrites w (updating mnemonic address i) :=
  onlyWrites_withBase fun _ => writtenBy_of_fillsFloat hreservation h

/-! ## Form by form -/

/-- All words with some primary opcodes are listed for the floating point parts. -/
theorem writtenBy_of_primary {op : Primary} (hw : op.Selects w)
    (hop : op.code ∈ [4, 48, 49, 50, 51, 56, 57, 59, 63]) :
    Part.floats.WrittenBy w ∧ Part.status.WrittenBy w := by
  rw [← show (Field.opcd w).toNat = op.code from hw] at hop
  exact ⟨.inl hop, .inl hop⟩

/-- What writes the floating point parts only may stand behind these opcodes. -/
theorem writtenBy_of_floating {op : Primary} (hw : op.Selects w)
    (hop : op.code ∈ [4, 48, 49, 50, 51, 56, 57, 59, 63]) {i : Instr}
    (hi : ∀ p, i.Writes p → p = .floats ∨ p = .status) (p : Part) (hp : i.Writes p) :
    p.WrittenBy w := by
  obtain ⟨hfloats, hstatus⟩ := writtenBy_of_primary hw hop
  rcases hi p hp with rfl | rfl
  · exact hfloats
  · exact hstatus

theorem onlyWrites_ofDForm {f : DForm} {op : Primary} (hf : Primary.ofCode? f.opcd.toNat = some op)
    (hw : op.Selects w) : OnlyWrites w (ofDForm f) := by
  unfold ofDForm
  rw [hf]
  cases op with
  | lmw =>
      simp only
      split
      · exact onlyWrites_error _
      · exact onlyWrites_transfer rfl rfl
  | lfs | lfd => exact onlyWrites_plain_float rfl (writtenBy_of_primary hw (by decide)).1
  | lfsu | lfdu => exact onlyWrites_updating_float rfl (writtenBy_of_primary hw (by decide)).1
  | _ =>
      first
      | exact onlyWrites_error _
      | exact onlyWrites_of_none fun _ => id
      | exact onlyWrites_transfer rfl rfl
      | exact onlyWrites_compareWords _ _ _ _ _ _
      | exact onlyWrites_updating _ _ rfl rfl
      | exact onlyWrites_loadWithBase _ _ _ rfl

theorem onlyWrites_ofXForm31 {f : XForm} {op : Fixed} (hf : Fixed.ofCode? f.xo.toNat = some op)
    (hw : op.Selects w) : OnlyWrites w (ofXForm31 f) := by
  unfold ofXForm31
  rw [hf]
  cases op with
  | lfsx => exact onlyWrites_plain_float rfl (.inr (.inl hw))
  | lfsux => exact onlyWrites_updating_float rfl (.inr (.inr (.inl hw)))
  | lfdx => exact onlyWrites_plain_float rfl (.inr (.inr (.inr (.inl hw))))
  | lfdux => exact onlyWrites_updating_float rfl (.inr (.inr (.inr (.inr hw))))
  | mtmsr =>
      refine (onlyWrites_ok _).2 fun p hp => ?_
      obtain rfl : p = .msr := hp
      exact .inr (.inr hw)
  | mtsr =>
      refine (onlyWrites_ok _).2 fun p hp => ?_
      obtain rfl : p = .segments := hp
      exact .inl hw
  | mtsrin =>
      refine (onlyWrites_ok _).2 fun p hp => ?_
      obtain rfl : p = .segments := hp
      exact .inr hw
  | lwarx =>
      refine (onlyWrites_ok _).2 fun p hp => ?_
      rcases hp with ⟨-, hfills⟩ | ⟨rfl, -⟩
      · contradiction
      · exact .inl hw
  | stwcx =>
      refine (onlyWrites_ok _).2 fun p hp => ?_
      rcases hp with ⟨-, hfills⟩ | ⟨rfl, -⟩
      · contradiction
      · exact .inr (.inl hw)
  | _ =>
      first
      | exact onlyWrites_error _
      | exact onlyWrites_of_none fun _ => id
      | exact onlyWrites_transfer rfl rfl
      | exact onlyWrites_compareWords _ _ _ _ _ _
      | exact onlyWrites_updating _ _ rfl rfl
      | exact onlyWrites_loadWithBase _ _ _ rfl

/-- A move to a special register writes the part that the number in the word names. -/
theorem writtenBy_of_namedBy {p : Part} (hw : Fixed.mtspr.Selects w)
    (hp : p.NamedBy (Field.spr w).toNat) : p.WrittenBy w := by
  cases p with
  | lr => exact .inr ⟨hw, by rw [hp]; decide⟩
  | ctr => exact .inr ⟨hw, by rw [hp]; decide⟩
  | srr0 => exact .inr ⟨hw, by rw [hp]; decide⟩
  | srr1 => exact .inr ⟨hw, by rw [hp]; decide⟩
  | dar => exact ⟨hw, by rw [hp]; decide⟩
  | dsisr => exact ⟨hw, by rw [hp]; decide⟩
  | timeBase => exact ⟨hw, hp⟩
  | quantizers =>
      refine ⟨hw, ?_⟩
      simp only [Part.NamedBy, Spr.gqr0, Spr.gqr7, List.mem_cons, List.not_mem_nil] at hp ⊢
      omega
  | specials => exact hw
  | _ => exact hp.elim

theorem onlyWrites_ofXfxForm {op : Fixed} (hf : Fixed.ofCode? (XfxForm.decode w).xo.toNat = some op)
    (hw : op.Selects w) : OnlyWrites w (ofXfxForm (.decode w)) := by
  unfold ofXfxForm
  rw [hf]
  cases op with
  | mtspr =>
      refine (onlyWrites_ok _).2 fun p hp => writtenBy_of_namedBy hw ?_
      rw [← spr_decode]
      exact hp
  | mftb =>
      simp only
      split
      · exact onlyWrites_of_none fun _ => id
      · split
        · exact onlyWrites_of_none fun _ => id
        · exact onlyWrites_error _
  | mtcrf | mfspr => exact onlyWrites_of_none fun _ => id
  | _ => exact onlyWrites_error _

/-- A branch decrements the count if its BO field does not ignore it. -/
theorem decrements_ofBo (bo : BitVec 5) :
    (BranchPolicy.ofBo bo).decrements = true ↔ bo &&& 0b00100#5 = 0 := by
  revert bo
  decide

/-- A branch to the count register ignores the count. -/
theorem counts_of_mask (bo : BitVec 5) : bo.getLsbD 2 = true → bo &&& 0b00100#5 ≠ 0 := by
  revert bo
  decide

theorem onlyWrites_ofXlForm {op : Opcode.Control}
    (hf : Opcode.Control.ofCode? (XlForm.decode w).xo.toNat = some op) (hw : op.Selects w) :
    OnlyWrites w (ofXlForm (.decode w)) := by
  unfold ofXlForm
  rw [hf]
  cases op with
  | bclr =>
      refine (onlyWrites_ok _).2 fun p hp => ?_
      rcases hp with rfl | ⟨rfl, hlk⟩ | ⟨rfl, hcounts⟩
      · exact .inl (.inr (.inr (.inl hw)))
      · exact .inl ⟨.inr (.inr (.inl hw)), hlk⟩
      · refine .inl ⟨.inr hw, (decrements_ofBo _).1 ?_⟩
        rw [← reg_setWidth (Field.rt w)]
        exact hcounts
  | bcctr =>
      simp only
      split
      · next hignored =>
        refine (onlyWrites_ok _).2 fun p hp => ?_
        rcases hp with rfl | ⟨rfl, hlk⟩ | ⟨rfl, hcounts⟩
        · exact .inl (.inr (.inr (.inr hw)))
        · exact .inl ⟨.inr (.inr (.inr hw)), hlk⟩
        · exact absurd ((decrements_ofBo _).1 hcounts) (counts_of_mask _ hignored)
      · exact onlyWrites_error _
  | rfi =>
      refine (onlyWrites_ok _).2 fun p hp => ?_
      have hparts : p ∈ [Part.npc, .msr, .reservation] := hp
      simp only [List.mem_cons, List.not_mem_nil, or_false] at hparts
      rcases hparts with rfl | rfl | rfl
      · exact .inr (.inr hw)
      · exact .inr (.inl hw)
      · exact .inr (.inr hw)
  | _ => exact onlyWrites_of_none fun _ => id

theorem onlyWrites_sc (hw : Primary.sc.Selects w) : OnlyWrites w (.ok (.system .call)) := by
  refine (onlyWrites_ok _).2 fun p hp => ?_
  have hparts : p ∈ [Part.npc, .msr, .srr0, .srr1] := hp
  simp only [List.mem_cons, List.not_mem_nil, or_false] at hparts
  rcases hparts with rfl | rfl | rfl | rfl
  · exact .inr (.inl hw)
  · exact .inl hw
  · exact .inl hw
  · exact .inl hw

theorem onlyWrites_ofIForm (hw : Primary.b.Selects w) :
    OnlyWrites w (.ok (ofIForm (.decode w))) := by
  refine (onlyWrites_ok _).2 fun p hp => ?_
  rcases hp with rfl | ⟨rfl, hlk⟩
  · exact .inl (.inl hw)
  · exact .inl ⟨.inl hw, hlk⟩

theorem onlyWrites_ofBForm (hw : Primary.bc.Selects w) :
    OnlyWrites w (.ok (ofBForm (.decode w))) := by
  refine (onlyWrites_ok _).2 fun p hp => ?_
  rcases hp with rfl | ⟨rfl, hlk⟩ | ⟨rfl, hcounts⟩
  · exact .inl (.inr (.inl hw))
  · exact .inl ⟨.inr (.inl hw), hlk⟩
  · refine .inl ⟨.inl hw, (decrements_ofBo _).1 ?_⟩
    rw [← reg_setWidth (Field.rt w)]
    exact hcounts

theorem onlyWrites_ofPsqForm {f : PsqForm} {op : Primary}
    (hf : Primary.ofCode? f.opcd.toNat = some op) (hw : op.Selects w) :
    OnlyWrites w (ofPsqForm f) := by
  unfold ofPsqForm
  rw [hf]
  cases op with
  | psqL => exact onlyWrites_plain_float rfl (writtenBy_of_primary hw (by decide)).1
  | psqLu => exact onlyWrites_updating_float rfl (writtenBy_of_primary hw (by decide)).1
  | psqSt => exact onlyWrites_transfer rfl rfl
  | psqStu => exact onlyWrites_updating _ _ rfl rfl
  | _ => exact onlyWrites_error _

theorem onlyWrites_ofMForm (f : MForm) : OnlyWrites w (ofMForm f) :=
  yields_ofMForm f (fun _ _ _ _ _ _ _ hp => hp.elim) (fun _ _ _ _ _ _ _ hp => hp.elim)

theorem onlyWrites_ofPsqxForm (f : PsqxForm) (hw : Part.floats.WrittenBy w) :
    OnlyWrites w (ofPsqxForm f) := by
  unfold ofPsqxForm
  split
  · exact onlyWrites_plain_float rfl hw
  · exact onlyWrites_updating_float rfl hw
  · exact onlyWrites_transfer rfl rfl
  · exact onlyWrites_updating _ _ rfl rfl
  · exact onlyWrites_error _

/-- What a word is read as writes only what the word is listed for. -/
theorem onlyWrites_of_reads {x : Except Invalid Instr} (h : Reads w x) : OnlyWrites w x := by
  cases h with
  | unlisted => exact onlyWrites_error _
  | branch hw => exact onlyWrites_ofIForm hw
  | conditional hw => exact onlyWrites_ofBForm hw
  | call hw => exact onlyWrites_sc hw
  | immediate hw _ => exact onlyWrites_ofDForm hw.ofCode?_dForm hw
  | rotate _ _ => exact onlyWrites_ofMForm _
  | quantized hw _ => exact onlyWrites_ofPsqForm hw.ofCode?_psqForm hw
  | control hw => exact onlyWrites_ofXlForm hw.ofCode?_xlForm hw
  | arith hw =>
      unfold ofXoForm
      rw [hw.ofCode?_xoForm]
      exact onlyWrites_of_none fun _ => id
  | special hw _ => exact onlyWrites_ofXfxForm hw.ofCode?_xfxForm hw
  | fixed hw => exact onlyWrites_ofXForm31 hw.ofCode?_xForm hw
  | pairedArith hw =>
      exact yields_ofAForm4 _ fun _ => writtenBy_of_floating hw (by decide) fun _ => id
  | pairedIndexed hw => exact onlyWrites_ofPsqxForm _ (writtenBy_of_primary hw (by decide)).1
  | pairedMove hw =>
      exact yields_ofXForm4 _ (fun _ => writtenBy_of_floating hw (by decide) fun _ => id)
        fun _ hp => hp.elim
  | single hw =>
      exact yields_ofAForm59 _ fun _ _ _ _ _ _ _ =>
        writtenBy_of_floating hw (by decide) fun _ => id
  | double hw =>
      exact yields_ofAForm63 _
        (fun _ _ _ _ _ _ _ => writtenBy_of_floating hw (by decide) fun _ => id)
        (fun _ _ _ _ _ => writtenBy_of_floating hw (by decide) fun _ => id)
  | doubleMove hw =>
      exact yields_ofXForm63 _ fun _ => writtenBy_of_floating hw.1 (by decide) fun _ => id
  | statusFields hw =>
      exact (onlyWrites_ok _).2 (writtenBy_of_floating hw.1 (by decide) fun _ => id)

theorem onlyWrites_ofWord (w : Word) : OnlyWrites w (ofWord w) :=
  onlyWrites_of_reads (reads_ofWord w)

end Instr

namespace Machine

/-- **Write sets.** If executing a word changes a part of the registers, whether it completes or
fails, the word is one of those that the part is listed with. -/
theorem writtenBy_of_changed (m : Machine) (w : Word) (p : Part)
    (h : ¬ p.Same m.regs (m.execute w).machine.regs) : p.WrittenBy w := by
  cases hi : Instr.ofWord w with
  | error e =>
      rw [execute_of_error hi] at h
      exact absurd (p.same_refl m.regs) h
  | ok i =>
      rw [execute_of_ofWord hi] at h
      refine Classical.byContradiction fun hlisted => h (Instr.same_exec ?_ m)
      exact fun hw => hlisted (Instr.onlyWrites_ofWord w i hi p hw)

/-- After a reset `bdnz` makes the largest count of zero. -/
theorem writtenBy_of_changed_count :
    let m : Machine := .initial (.ofBytes .empty)
    ¬ Part.ctr.Same m.regs (m.execute 0x4200FFFC#32).machine.regs ∧
      Part.ctr.WrittenBy 0x4200FFFC#32 := by
  intro m
  have hcount : (m.execute 0x4200FFFC#32).machine.regs.ctr = 0xFFFFFFFF#32 := by decide
  have hchanged : ¬ Part.ctr.Same m.regs (m.execute 0x4200FFFC#32).machine.regs := by
    intro (hsame : (m.execute 0x4200FFFC#32).machine.regs.ctr = 0)
    rw [hcount] at hsame
    contradiction
  exact ⟨hchanged, writtenBy_of_changed m _ _ hchanged⟩

end Machine

end Broadway
