import Broadway.Proofs.Instr.Reads

/-!
# Legal instructions

The operand checks of a word leave their mark on the instruction that the word stands for: an
access that updates its base has one, a load does not write its own base, a multiple load keeps
the registers of its address, branch targets that the word itself holds are word addresses, and no
branch to the count register counts. `Instr.Legal` collects these facts and `Instr.legal_ofWord`
proves them of every instruction that a word stands for, once for all later uses.
-/

namespace Broadway

/-- A target that the instruction holds itself has its two low bits clear. -/
def Target.Legal : Target → Prop
  | .relative d => d.setWidth 2 = 0#2
  | .absolute a => a.setWidth 2 = 0#2
  | .link | .count => True

/-- A branch to a register is conditional, and to the count register it does not count. -/
def BranchInstr.Legal : BranchInstr → Prop
  | .always target _ => target.Legal ∧ target ≠ .link ∧ target ≠ .count
  | .conditional bo _ target _ => target.Legal ∧ (target = .count → bo.getLsbD 2 = true)

/-- Whether a load fills a floating point register. -/
def Load.isFloat : Load → Bool
  | .single | .double => true
  | _ => false

def MemoryInstr.Legal : MemoryInstr → Prop
  | .load kind rt address update =>
    update = true → address.base ≠ 0 ∧ (kind.isFloat = false → address.base ≠ rt)
  | .store _ _ address update => update = true → address.base ≠ 0
  | .loadMultiple rd address => ∀ x ∈ address.registers, x < rd
  | .loadQuantized _ address _ _ update => update = true → address.base ≠ 0
  | .storeQuantized _ address _ _ update => update = true → address.base ≠ 0
  | _ => True

def Instr.Legal : Instr → Prop
  | .branch i => i.Legal
  | .memory i => i.Legal
  | _ => True

namespace Instr

/-- What stands for an instruction stands for a legal one. -/
def OnlyLegal (x : Except Invalid Instr) : Prop := ∀ i, x = .ok i → i.Legal

@[simp]
theorem onlyLegal_error (e : Invalid) : OnlyLegal (.error e) := yields_error e

@[simp]
theorem onlyLegal_ok (i : Instr) : OnlyLegal (.ok i) ↔ i.Legal := ⟨fun h => h i rfl, yields_ok⟩

@[simp]
theorem onlyLegal_compareWords (mnemonic : String) (doubleword signed : Bool) (field : BitVec 3)
    (ra : Reg) (b : Operand) : OnlyLegal (compareWords mnemonic doubleword signed field ra b) :=
  yields_compareWords trivial

theorem onlyLegal_withBase {mnemonic : String} {base : Reg} {i : MemoryInstr}
    (h : base ≠ 0 → i.Legal) : OnlyLegal (withBase mnemonic base i) := by
  unfold withBase
  split
  · exact onlyLegal_error _
  · next hbase => exact (onlyLegal_ok _).2 (h hbase)

@[simp]
theorem onlyLegal_loadWithBase (mnemonic : String) (kind : Load) (rd : Reg) (address : Address) :
    OnlyLegal (loadWithBase mnemonic kind rd address) := by
  unfold loadWithBase
  split
  · exact onlyLegal_error _
  · next hbase =>
    rw [not_or] at hbase
    exact (onlyLegal_ok _).2 fun _ => ⟨hbase.1, fun _ => hbase.2⟩

@[simp]
theorem onlyLegal_updating_store (mnemonic : String) (address : Address) (kind : Store)
    (rs : Reg) : OnlyLegal (updating mnemonic address (.store kind rs)) :=
  onlyLegal_withBase fun hbase _ => hbase

/-- A floating point load may have its base and its target of one number. -/
theorem onlyLegal_updating_load (mnemonic : String) (address : Address) {kind : Load} (rt : Reg)
    (h : kind.isFloat = true) : OnlyLegal (updating mnemonic address (.load kind rt)) :=
  onlyLegal_withBase fun hbase _ => ⟨hbase, fun hint => by rw [h] at hint; contradiction⟩

@[simp]
theorem onlyLegal_updating_loadQuantized (mnemonic : String) (address : Address) (frt : Reg)
    (one : Bool) (gqr : BitVec 3) :
    OnlyLegal (updating mnemonic address (.loadQuantized frt · one gqr)) :=
  onlyLegal_withBase fun hbase _ => hbase

@[simp]
theorem onlyLegal_updating_storeQuantized (mnemonic : String) (address : Address) (frs : Reg)
    (one : Bool) (gqr : BitVec 3) :
    OnlyLegal (updating mnemonic address (.storeQuantized frs · one gqr)) :=
  onlyLegal_withBase fun hbase _ => hbase

open Opcode

theorem onlyLegal_ofDForm (f : DForm) : OnlyLegal (ofDForm f) := by
  unfold ofDForm
  cases Primary.ofCode? f.opcd.toNat with
  | none => exact onlyLegal_error _
  | some op =>
      cases op
      case lmw =>
        simp only
        split
        · exact onlyLegal_error _
        · next hlt =>
          refine (onlyLegal_ok _).2 fun x hx => ?_
          rw [displaced, Address.registers, List.mem_singleton] at hx
          rw [hx]
          exact BitVec.not_le.1 hlt
      case lfsu | lfdu => exact onlyLegal_updating_load _ _ _ rfl
      all_goals simp [plain, Legal, MemoryInstr.Legal]

theorem onlyLegal_ofXForm31 (f : XForm) : OnlyLegal (ofXForm31 f) := by
  unfold ofXForm31
  cases Fixed.ofCode? f.xo.toNat with
  | none => exact onlyLegal_error _
  | some op =>
      cases op
      case lfsux | lfdux => exact onlyLegal_updating_load _ _ _ rfl
      all_goals simp [plain, Legal, MemoryInstr.Legal]

theorem onlyLegal_ofXForm63 (f : XForm) : OnlyLegal (ofXForm63 f) :=
  yields_ofXForm63 f fun _ => trivial

theorem onlyLegal_ofXForm4 (f : XForm) : OnlyLegal (ofXForm4 f) :=
  yields_ofXForm4 f (fun _ => trivial) trivial

theorem onlyLegal_ofXForm (f : XForm) : OnlyLegal (ofXForm f) := by
  unfold ofXForm
  split
  · exact onlyLegal_ofXForm4 f
  · exact onlyLegal_ofXForm31 f
  · exact onlyLegal_ofXForm63 f
  · exact onlyLegal_error _

theorem onlyLegal_ofXlForm (f : XlForm) : OnlyLegal (ofXlForm f) := by
  unfold ofXlForm
  cases Control.ofCode? f.xo.toNat with
  | none => exact onlyLegal_error _
  | some op =>
      cases op
      case bcctr =>
        simp only
        split
        · next hbo => exact (onlyLegal_ok _).2 ⟨trivial, fun _ => hbo⟩
        · exact onlyLegal_error _
      all_goals simp [Legal, BranchInstr.Legal, Target.Legal]

theorem onlyLegal_ofXfxForm (f : XfxForm) : OnlyLegal (ofXfxForm f) :=
  yields_ofXfxForm f (fun _ _ => trivial) (fun _ _ => trivial) (fun _ _ => trivial)
    (fun _ _ => trivial)

theorem onlyLegal_ofXoForm (f : XoForm) : OnlyLegal (ofXoForm f) :=
  yields_ofXoForm f fun _ _ _ _ _ _ _ => trivial

theorem onlyLegal_ofMForm (f : MForm) : OnlyLegal (ofMForm f) :=
  yields_ofMForm f (fun _ _ _ _ _ _ => trivial) (fun _ _ _ _ _ _ => trivial)

theorem onlyLegal_ofAForm (f : AForm) : OnlyLegal (ofAForm f) := by
  unfold ofAForm
  split
  · exact yields_ofAForm4 f fun _ => trivial
  · exact yields_ofAForm59 f fun _ _ _ _ _ _ _ => trivial
  · exact yields_ofAForm63 f (fun _ _ _ _ _ _ _ => trivial) (fun _ _ _ _ _ => trivial)
  · exact onlyLegal_error _

theorem onlyLegal_ofPsqForm (f : PsqForm) : OnlyLegal (ofPsqForm f) := by
  unfold ofPsqForm
  cases Primary.ofCode? f.opcd.toNat with
  | none => exact onlyLegal_error _
  | some op => cases op <;> simp [plain, Legal, MemoryInstr.Legal]

theorem onlyLegal_ofPsqxForm (f : PsqxForm) : OnlyLegal (ofPsqxForm f) := by
  unfold ofPsqxForm
  cases PairedIndexed.ofCode? f.xo.toNat with
  | none => exact onlyLegal_error _
  | some op => cases op <;> simp [plain, Legal, MemoryInstr.Legal]

/-- A displacement that a branch holds is a multiple of four. -/
theorem setWidth_branchField {n : Nat} (x : BitVec n) :
    ((x ++ 0#2).signExtend 32).setWidth 2 = 0#2 := by
  apply BitVec.eq_of_getLsbD_eq
  intro i hi
  have h32 : i < 32 := by omega
  have hn : i < n + 2 := by omega
  rw [BitVec.getLsbD_setWidth, BitVec.getLsbD_signExtend, if_pos hn, BitVec.getLsbD_append,
    if_pos hi]
  simp

theorem legal_ofIForm (w : Word) : (ofIForm (.decode w)).Legal := by
  unfold ofIForm
  cases (IForm.decode w).aa <;>
    exact ⟨setWidth_branchField _, fun h => by contradiction, fun h => by contradiction⟩

theorem legal_ofBForm (w : Word) : (ofBForm (.decode w)).Legal := by
  unfold ofBForm
  cases (BForm.decode w).aa <;>
    exact ⟨setWidth_branchField _, fun h => by contradiction⟩

/-- A word stands for nothing but legal instructions. -/
theorem legal_ofWord {w : Word} {i : Instr} (h : ofWord w = .ok i) : i.Legal := by
  have hall : OnlyLegal (ofWord w) := by
    unfold ofWord Form.ofWord Form.decode
    cases FormKind.ofWord w with
    | i => exact (onlyLegal_ok _).2 (legal_ofIForm w)
    | b => exact (onlyLegal_ok _).2 (legal_ofBForm w)
    | sc => exact (onlyLegal_ok _).2 trivial
    | d => exact onlyLegal_ofDForm _
    | x => exact onlyLegal_ofXForm _
    | xl => exact onlyLegal_ofXlForm _
    | xfx => exact onlyLegal_ofXfxForm _
    | xfl => exact (onlyLegal_ok _).2 trivial
    | xo => exact onlyLegal_ofXoForm _
    | a => exact onlyLegal_ofAForm _
    | m => exact onlyLegal_ofMForm _
    | psq => exact onlyLegal_ofPsqForm _
    | psqx => exact onlyLegal_ofPsqxForm _
    -- the forms of doubleword instructions hold nothing that this processor has
    | ds | xs | md | mds => exact onlyLegal_error _
  exact hall i h

end Instr

end Broadway
