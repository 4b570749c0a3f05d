import Broadway.Proofs.Instr.Aligned
import Broadway.Proofs.Instr.Legal
import Broadway.Proofs.Instr.Transfers

/-!
# Words that load or store a single element

Most loads and stores transfer one element between a register and memory. Their opcodes form two
tables, of what is stored (`store?`) and of what is loaded (`load?`), with the forms that update
their base. Each word of the tables has its register and its address in the same fields, whatever it
transfers (`Word.StoreAccess`, `Word.LoadAccess`). The load that reserves its address is an
instruction of its own, but it loads a word as the others do.

* A word that stores stands for nothing but that store (`Instr.ofWord_of_storeAccess`).
* A word that loads stands for that load if its operands are legal
  (`Instr.ofWord_of_loadAccess`).
-/

namespace Broadway

open Opcode

/-! ## The tables -/

/-- What a store with a displacement writes, and whether it updates its base. -/
def Opcode.Primary.store? : Primary → Option (Store × Bool)
  | .stb => some (.byte, false)
  | .stbu => some (.byte, true)
  | .sth => some (.half, false)
  | .sthu => some (.half, true)
  | .stw => some (.word, false)
  | .stwu => some (.word, true)
  | .stfs => some (.single, false)
  | .stfsu => some (.single, true)
  | .stfd => some (.double, false)
  | .stfdu => some (.double, true)
  | _ => none

/-- The same for indexed stores. -/
def Opcode.Fixed.store? : Fixed → Option (Store × Bool)
  | .stbx => some (.byte, false)
  | .stbux => some (.byte, true)
  | .sthx => some (.half, false)
  | .sthux => some (.half, true)
  | .stwx => some (.word, false)
  | .stwux => some (.word, true)
  | .sthbrx => some (.halfReversed, false)
  | .stwbrx => some (.wordReversed, false)
  | .ecowx => some (.external, false)
  | .stfsx => some (.single, false)
  | .stfsux => some (.single, true)
  | .stfdx => some (.double, false)
  | .stfdux => some (.double, true)
  | .stfiwx => some (.floatWord, false)
  | _ => none

/-- What a load with a displacement fills its target from, and whether it updates its base. -/
def Opcode.Primary.load? : Primary → Option (Load × Bool)
  | .lbz => some (.byte, false)
  | .lbzu => some (.byte, true)
  | .lhz => some (.half, false)
  | .lhzu => some (.half, true)
  | .lha => some (.halfAlgebraic, false)
  | .lhau => some (.halfAlgebraic, true)
  | .lwz => some (.word, false)
  | .lwzu => some (.word, true)
  | .lfs => some (.single, false)
  | .lfsu => some (.single, true)
  | .lfd => some (.double, false)
  | .lfdu => some (.double, true)
  | _ => none

/-- The same for indexed loads. -/
def Opcode.Fixed.load? : Fixed → Option (Load × Bool)
  | .lbzx => some (.byte, false)
  | .lbzux => some (.byte, true)
  | .lhzx => some (.half, false)
  | .lhzux => some (.half, true)
  | .lhax => some (.halfAlgebraic, false)
  | .lhaux => some (.halfAlgebraic, true)
  | .lwzx => some (.word, false)
  | .lwzux => some (.word, true)
  | .lhbrx => some (.halfReversed, false)
  | .lwbrx => some (.wordReversed, false)
  | .eciwx => some (.external, false)
  | .lfsx => some (.single, false)
  | .lfsux => some (.single, true)
  | .lfdx => some (.double, false)
  | .lfdux => some (.double, true)
  | _ => none

namespace Word

/-- A word that stores a single element: what it writes, the register that this comes from, the
address and whether the base is updated. -/
inductive StoreAccess (w : Word) : Store → Reg → Address → Bool → Prop
  | displaced {op : Primary} {kind : Store} {update : Bool}
      (hop : op.store? = some (kind, update)) (hw : op.Selects w) :
      StoreAccess w kind (Field.rt w)
        (.displaced (Field.ra w) ((Field.immediate w).signExtend 32)) update
  | indexed {op : Fixed} {kind : Store} {update : Bool}
      (hop : op.store? = some (kind, update)) (hw : op.Selects w) :
      StoreAccess w kind (Field.rt w) (.indexed (Field.ra w) (Field.rb w)) update

/-- A word that loads a single element: what it fills its target from, the target, the address and
whether the base is updated. -/
inductive LoadAccess (w : Word) : Load → Reg → Address → Bool → Prop
  | displaced {op : Primary} {kind : Load} {update : Bool}
      (hop : op.load? = some (kind, update)) (hw : op.Selects w) :
      LoadAccess w kind (Field.rt w)
        (.displaced (Field.ra w) ((Field.immediate w).signExtend 32)) update
  | indexed {op : Fixed} {kind : Load} {update : Bool}
      (hop : op.load? = some (kind, update)) (hw : op.Selects w) :
      LoadAccess w kind (Field.rt w) (.indexed (Field.ra w) (Field.rb w)) update
  | reserving (hw : Fixed.lwarx.Selects w) :
      LoadAccess w .word (Field.rt w) (.indexed (Field.ra w) (Field.rb w)) false

end Word

/-- The instructions that load a single element. -/
inductive MemoryInstr.Loads (rt : Reg) (a : Address) : Load → Bool → MemoryInstr → Prop
  | load {kind : Load} {update : Bool} : Loads rt a kind update (.load kind rt a update)
  | reserve : Loads rt a .word false (.loadReserve rt a)

/-! ## Stores -/

namespace Instr

theorem ofDForm_of_store? {f : DForm} {op : Primary} {kind : Store} {update : Bool}
    (hop : op.store? = some (kind, update)) (hf : Primary.ofCode? f.opcd.toNat = some op) :
    Yields (ofDForm f) (· = .memory (.store kind (reg f.rt) (displaced f) update)) := by
  unfold ofDForm
  rw [hf]
  cases op <;> cases hop <;>
    first
    | exact yields_ok rfl
    | exact yields_withBase rfl

theorem ofXForm31_of_store? {f : XForm} {op : Fixed} {kind : Store} {update : Bool}
    (hop : op.store? = some (kind, update)) (hf : Fixed.ofCode? f.xo.toNat = some op) :
    Yields (ofXForm31 f) (· = .memory (.store kind (reg f.rt) (indexed f) update)) := by
  unfold ofXForm31
  rw [hf]
  cases op <;> cases hop <;>
    first
    | exact yields_ok rfl
    | exact yields_withBase rfl

variable {w : Word}

theorem ofWord_of_storeAccess {kind : Store} {rs : Reg} {a : Address} {update : Bool}
    (h : w.StoreAccess kind rs a update) :
    Yields (ofWord w) (· = .memory (.store kind rs a update)) := by
  have hreg : reg ((Field.rt w).setWidth 8) = Field.rt w := reg_setWidth _
  cases h with
  | @displaced op _ _ hop hw =>
      rw [ofWord_of_primary hw ?_, ← hreg, ← displaced_decode]
      · exact ofDForm_of_store? hop hw.ofCode?_dForm
      · cases op <;> cases hop <;> decide
  | @indexed op _ _ hop hw =>
      rw [ofWord_of_fixed hw ?_, ← hreg, ← indexed_decode]
      · exact ofXForm31_of_store? hop hw.ofCode?_xForm
      · cases op <;> cases hop <;> decide

/-- The word that stores under a reservation. -/
theorem ofWord_of_stwcx (hw : Fixed.stwcx.Selects w) :
    ofWord w = .ok (.memory
      (.storeConditional (Field.rt w) (.indexed (Field.ra w) (Field.rb w)))) := by
  rw [ofWord_of_fixed hw (by decide), ofXForm31, hw.ofCode?_xForm]
  simp only [XForm.decode, indexed, reg_setWidth]

/-! ## Loads -/

section Legal

variable {kind : Load} {rd : Reg} {a : Address} (mnemonic : String)

theorem loadWithBase_of_legal (h : (MemoryInstr.load kind rd a true).Legal)
    (hfixed : kind.isFloat = false) :
    loadWithBase mnemonic kind rd a = .ok (.memory (.load kind rd a true)) :=
  if_neg (not_or.2 ⟨(h rfl).1, (h rfl).2 hfixed⟩)

theorem updating_of_legal (h : (MemoryInstr.load kind rd a true).Legal) :
    updating mnemonic a (.load kind rd) = .ok (.memory (.load kind rd a true)) :=
  if_neg (h rfl).1

end Legal

theorem ofDForm_of_load? {f : DForm} {op : Primary} {kind : Load} {update : Bool}
    (hop : op.load? = some (kind, update)) (hf : Primary.ofCode? f.opcd.toNat = some op)
    (hlegal : (MemoryInstr.load kind (reg f.rt) (displaced f) update).Legal) :
    ofDForm f = .ok (.memory (.load kind (reg f.rt) (displaced f) update)) := by
  unfold ofDForm
  rw [hf]
  -- without update there is no check, and otherwise it is one of two that legal operands pass
  cases op <;> cases hop <;>
    first
    | rfl
    | exact loadWithBase_of_legal _ hlegal rfl
    | exact updating_of_legal _ hlegal

theorem ofXForm31_of_load? {f : XForm} {op : Fixed} {kind : Load} {update : Bool}
    (hop : op.load? = some (kind, update)) (hf : Fixed.ofCode? f.xo.toNat = some op)
    (hlegal : (MemoryInstr.load kind (reg f.rt) (indexed f) update).Legal) :
    ofXForm31 f = .ok (.memory (.load kind (reg f.rt) (indexed f) update)) := by
  unfold ofXForm31
  rw [hf]
  cases op <;> cases hop <;>
    first
    | rfl
    | exact loadWithBase_of_legal _ hlegal rfl
    | exact updating_of_legal _ hlegal

theorem ofWord_of_loadAccess {kind : Load} {rt : Reg} {a : Address} {update : Bool}
    (h : w.LoadAccess kind rt a update) (hlegal : (MemoryInstr.load kind rt a update).Legal) :
    ∃ i : MemoryInstr, i.Loads rt a kind update ∧ ofWord w = .ok (.memory i) := by
  have hreg : reg ((Field.rt w).setWidth 8) = Field.rt w := reg_setWidth _
  cases h with
  | @displaced op _ _ hop hw =>
      refine ⟨_, .load, ?_⟩
      rw [← hreg, ← displaced_decode] at hlegal ⊢
      rw [ofWord_of_primary hw ?_]
      · exact ofDForm_of_load? hop hw.ofCode?_dForm hlegal
      · cases op <;> cases hop <;> decide
  | @indexed op _ _ hop hw =>
      refine ⟨_, .load, ?_⟩
      rw [← hreg, ← indexed_decode] at hlegal ⊢
      rw [ofWord_of_fixed hw ?_]
      · exact ofXForm31_of_load? hop hw.ofCode?_xForm hlegal
      · cases op <;> cases hop <;> decide
  | reserving hw =>
      refine ⟨_, .reserve, ?_⟩
      rw [ofWord_of_fixed hw (by decide), ofXForm31, hw.ofCode?_xForm]
      simp only [XForm.decode, indexed, reg_setWidth]

end Instr

end Broadway
