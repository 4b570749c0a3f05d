import Broadway.Proofs.Exec.ConditionTargets

/-!
# Writes of the condition register, bit by bit

Bit `k` of field `n` is bit `n ++ k` of the condition register, numbered from the most significant
one (`Registers.crAt`). Fields are written and read four bits at a time, and single bits one at a
time, with different shifts. Here both are told in these bits, so that what one of them writes the
other one is seen to read.

* A combination of bits sets one bit, moves and comparisons replace one field
  (`Machine.ReplacesField`), and the move from a register replaces the fields under a mask.
* Combinations and branches that name a bit of a field see what the last write to the field has
  left there (`Machine.ReplacesField.combined`, `Machine.ReplacesField.branched`).
* All this, and that there is nothing else that writes the condition register, is
  `condition_writes_exact`.
-/

namespace Broadway

open Opcode

/-! ## What is written -/

/-- The function of two bits that a word of group 19 computes, if it does. -/
def Opcode.Control.function? : Control → Option (Bool → Bool → Bool)
  | .crand => some fun a b => a && b
  | .crandc => some fun a b => a && !b
  | .creqv => some fun a b => a == b
  | .crnand => some fun a b => !(a && b)
  | .crnor => some fun a b => !(a || b)
  | .cror => some fun a b => a || b
  | .crorc => some fun a b => a || !b
  | .crxor => some fun a b => a ^^ b
  | _ => none

/-- The numbers that a word compares: as signed numbers, with an immediate that is extended by its
sign, or as unsigned ones. -/
inductive Registers.ComparesIntegers (r : Registers) (w : Word) : Int → Int → Prop
  | cmp (hw : Fixed.cmp.Selects w) :
      ComparesIntegers r w (r.gpr.read (Field.ra w)).toInt (r.gpr.read (Field.rb w)).toInt
  | cmpi (hw : Primary.cmpi.Selects w) :
      ComparesIntegers r w (r.gpr.read (Field.ra w)).toInt (Field.immediate w).toInt
  | cmpl (hw : Fixed.cmpl.Selects w) :
      ComparesIntegers r w (r.gpr.read (Field.ra w)).toNat (r.gpr.read (Field.rb w)).toNat
  | cmpli (hw : Primary.cmpli.Selects w) :
      ComparesIntegers r w (r.gpr.read (Field.ra w)).toNat (Field.immediate w).toNat

/-- The bits that record an order: less, greater, equal, and the summary overflow beside them. -/
def orderBit (x y : Int) (summary : Bool) (k : BitVec 2) : Bool :=
  if k = 0 then x < y else if k = 1 then y < x else if k = 2 then x = y else summary

theorem getMsbD_ofOrder {o : Ordering} {x y : Int} (hlt : o = .lt ↔ x < y) (hgt : o = .gt ↔ y < x)
    (heq : o = .eq ↔ x = y) (summary : Bool) (k : BitVec 2) :
    (Condition.ofOrder (some o) ||| if summary then Condition.so else 0).getMsbD k.toNat =
      orderBit x y summary k := by
  simp only [orderBit, ← hlt, ← hgt, ← heq]
  clear hlt hgt heq
  revert k
  cases o <;> cases summary <;> decide

namespace Registers

variable (r : Registers)

/-- Bit `k` of field `n` of the condition register. -/
def crAt (n : BitVec 3) (k : BitVec 2) : Bool := r.cr.getMsbD (n ++ k).toNat

/-- The registers after a branch that depends on `condition` and goes to some target. -/
def branchedOn (bo : BitVec 5) (condition : Bool) (target : Word) (lk : Bool) : Registers :=
  { r with
    ctr := r.countAfter bo
    npc :=
      if (bo.getMsbD 2 || ((r.countAfter bo != 0) ^^ bo.getMsbD 3)) &&
        (bo.getMsbD 0 || condition == bo.getMsbD 1) then target else r.npc
    lr := if lk then r.pc + 4 else r.lr }

end Registers

/-- The words of conditional branches, and where they go. -/
inductive Word.BranchesTo (w : Word) : Target → Prop
  | bc (hw : Primary.bc.Selects w) :
      BranchesTo w (if Field.aa w then .absolute (Field.bd w) else .relative (Field.bd w))
  | bclr (hw : Opcode.Control.bclr.Selects w) : BranchesTo w .link
  | bcctr (hw : Opcode.Control.bcctr.Selects w) (hcount : (Field.rt w).getMsbD 2 = true) :
      BranchesTo w .count

namespace Machine

/-- A word completes and replaces one field of the condition register. -/
structure ReplacesField (m : Machine) (w : Word) (f : BitVec 3) (code : BitVec 2 → Bool) :
    Prop where
  completes : (m.execute w).failure = none
  inside : ∀ k, (m.execute w).machine.regs.crAt f k = code k
  outside : ∀ n k, n ≠ f → (m.execute w).machine.regs.crAt n k = m.regs.crAt n k

/-- A word completes and sets one bit of the condition register. -/
structure SetsBit (m : Machine) (w : Word) (b : BitVec 5) (v : Bool) : Prop where
  completes : (m.execute w).failure = none
  inside : (m.execute w).machine.regs.cr.getMsbD b.toNat = v
  outside : ∀ i, i ≠ b →
    (m.execute w).machine.regs.cr.getMsbD i.toNat = m.regs.cr.getMsbD i.toNat

variable {m : Machine} {w : Word}

/-! ## Words -/

theorem setsBit_of_function {op : Opcode.Control} {g : Bool → Bool → Bool} (hw : op.Selects w)
    (hop : op.function? = some g) :
    m.SetsBit w (Field.rt w)
      (g (m.regs.cr.getMsbD (Field.ra w).toNat) (m.regs.cr.getMsbD (Field.rb w).toNat)) := by
  have hlogic : ∃ logic, op.logic? = some logic ∧ logic.evalBit = g := by
    cases op <;> cases hop <;> exact ⟨_, rfl, rfl⟩
  obtain ⟨logic, hlogic, rfl⟩ := hlogic
  have hexec := execute_of_ofWord (Instr.ofWord_of_logic hw hlogic) m
  rw [← Registers.crBit_eq, ← Registers.crBit_eq]
  constructor
  case completes =>
    rw [hexec]
    rfl
  case inside =>
    rw [hexec]
    exact (Condition.getMsbD_setBit ..).trans (if_pos rfl)
  case outside =>
    intro i hi
    rw [hexec]
    exact (Condition.getMsbD_setBit ..).trans (if_neg hi)

/-- What writes a field of the condition register, whatever else it writes. -/
theorem replacesField_of_setField {regs : Registers} {f : BitVec 3} {v : BitVec 4}
    (hexec : m.execute w = m.done regs) (hcr : regs.cr = Condition.setField m.regs.cr f v) :
    m.ReplacesField w f fun k => v.getMsbD k.toNat := by
  constructor
  case completes => rw [hexec, failure_done]
  case inside =>
    intro k
    rw [hexec, machine_done, Registers.crAt, hcr, Condition.getMsbD_setField, if_pos rfl]
  case outside =>
    intro n k hn
    rw [hexec, machine_done, Registers.crAt, hcr, Condition.getMsbD_setField, if_neg hn]
    rfl

theorem replacesField_of_mcrf (hw : Opcode.Control.mcrf.Selects w) :
    m.ReplacesField w (Field.crfd w) (m.regs.crAt (Field.crfs w)) := by
  have hreplaces := replacesField_of_setField (execute_of_ofWord (Instr.ofWord_of_mcrf hw) m) rfl
  simp only [Registers.crField, Condition.getMsbD_field] at hreplaces
  exact hreplaces

/-- The status bits of XER are its first field. -/
theorem replacesField_of_mcrxr (hw : Fixed.mcrxr.Selects w) :
    m.ReplacesField w (Field.crfd w) fun k => m.regs.xer.getMsbD k.toNat := by
  have hreplaces := replacesField_of_setField (execute_of_ofWord (Instr.ofWord_of_mcrxr hw) m) rfl
  have hfirst (k : BitVec 2) :
      (m.regs.xer.extractLsb' 28 4).getMsbD k.toNat = m.regs.xer.getMsbD k.toNat := by
    have hk : ((0 : BitVec 3) ++ k).toNat = k.toNat := by
      rw [Condition.toNat_number]
      simp
    exact (Condition.getMsbD_field m.regs.xer 0 k).trans (by rw [hk])
  simp only [hfirst] at hreplaces
  exact hreplaces

theorem replacesField_of_mcrfs (hw : DoubleMove.mcrfs.Selects w) :
    m.ReplacesField w (Field.crfd w)
      fun k => m.regs.fpscr.getMsbD (Field.crfs w ++ k).toNat := by
  have hreplaces := replacesField_of_setField (execute_of_ofWord (Instr.ofWord_of_mcrfs hw) m) rfl
  simp only [Condition.getMsbD_field] at hreplaces
  exact hreplaces

theorem replacesField_of_compare {x y : Int} (hw : m.regs.ComparesIntegers w x y)
    (hl : Field.l w = false) :
    m.ReplacesField w (Field.crfd w) (orderBit x y m.regs.summaryOverflow) := by
  have hsigned {ra : Reg} {b : Operand} (hi : Instr.ofWord w =
      .ok (.fixed (.compare true (Field.crfd w) ra b))) :
      m.ReplacesField w (Field.crfd w) (orderBit (m.regs.gpr.read ra).toInt
        (m.regs.operand b).toInt m.regs.summaryOverflow) := by
    have hreplaces := replacesField_of_setField (execute_of_ofWord hi m) rfl
    simp only [getMsbD_ofOrder Int.compare_eq_lt Int.compare_eq_gt Int.compare_eq_eq] at hreplaces
    exact hreplaces
  have hunsigned {ra : Reg} {b : Operand} (hi : Instr.ofWord w =
      .ok (.fixed (.compare false (Field.crfd w) ra b))) :
      m.ReplacesField w (Field.crfd w) (orderBit (m.regs.gpr.read ra).toNat
        (m.regs.operand b).toNat m.regs.summaryOverflow) := by
    have hreplaces := replacesField_of_setField (execute_of_ofWord hi m) rfl
    simp only [getMsbD_ofOrder (Nat.compare_eq_lt.trans Int.ofNat_lt.symm)
      (Nat.compare_eq_gt.trans Int.ofNat_lt.symm)
      (Nat.compare_eq_eq.trans Int.ofNat_inj.symm)] at hreplaces
    exact hreplaces
  cases hw with
  | cmp hw =>
      have hreplaces := hsigned (Instr.ofWord_of_compareRegisters hw rfl hl)
      exact hreplaces
  | cmpl hw =>
      have hreplaces := hunsigned (Instr.ofWord_of_compareRegisters hw rfl hl)
      exact hreplaces
  | cmpi hw =>
      have hreplaces := hsigned (Instr.ofWord_of_compareImmediate hw rfl hl)
      rwa [if_pos rfl, Registers.operand, BitVec.toInt_signExtend_of_le (by decide)] at hreplaces
  | cmpli hw =>
      have hreplaces := hunsigned (Instr.ofWord_of_compareImmediate hw rfl hl)
      rwa [if_neg (by decide), Registers.operand, BitVec.toNat_setWidth_of_le (by decide)]
        at hreplaces

theorem replacesField_of_comparesFloats {lane : Lane} {ordered : Bool}
    (hw : w.ComparesFloats lane ordered) :
    m.ReplacesField w (Field.crfd w) fun k =>
      (Fpscr.compareCode (m.regs.compared w lane).1 (m.regs.compared w lane).2).getMsbD k.toNat :=
  replacesField_of_setField (execute_comparesFloats hw m) rfl

/-- The fields that the mask names are taken from the register, from the same place in it. -/
theorem crAt_of_mtcrf (hw : Fixed.mtcrf.Selects w) (n : BitVec 3) (k : BitVec 2) :
    (m.execute w).machine.regs.crAt n k =
      if (Field.crm w).getMsbD n.toNat then
        (m.regs.gpr.read (Field.rt w)).getMsbD (n ++ k).toNat
      else m.regs.crAt n k := by
  rw [execute_of_ofWord (Instr.ofWord_of_mtcrf hw)]
  exact Condition.getMsbD_blend ..

/-- A mask of ones names all fields. -/
theorem cr_of_mtcrf_all (hw : Fixed.mtcrf.Selects w) (hmask : Field.crm w = 0xFF#8) :
    (m.execute w).machine.regs.cr = m.regs.gpr.read (Field.rt w) := by
  have hall : Condition.spread 0xFF#8 = BitVec.allOnes 32 := by decide
  rw [execute_of_ofWord (Instr.ofWord_of_mtcrf hw)]
  show Condition.blend (Field.crm w) _ _ = _
  rw [hmask, Condition.blend, hall, BitVec.not_allOnes, BitVec.and_zero, BitVec.zero_or,
    BitVec.and_allOnes]

/-! ## What is read -/

theorem execute_branchesTo {target : Target} (hw : w.BranchesTo target) (m : Machine) :
    m.execute w = m.done (m.regs.branchedOn (Field.rt w) (m.regs.cr.getMsbD (Field.ra w).toNat)
      (m.regs.destination target) (Field.bit31 w)) := by
  have hbranch (hi : Instr.ofWord w = .ok (.branch (.conditional (Field.rt w) (Field.ra w) target
      (Field.bit31 w)))) :
      m.execute w = m.done (m.regs.branchedOn (Field.rt w)
        (m.regs.cr.getMsbD (Field.ra w).toNat) (m.regs.destination target) (Field.bit31 w)) := by
    rw [execute_of_ofWord hi]
    exact congrArg m.done (BranchInstr.exec_conditional ..)
  cases hw with
  | bc hw => exact hbranch (Instr.ofWord_of_conditional hw)
  | bclr hw => exact hbranch (Instr.ofWord_of_bclr hw)
  | bcctr hw hcount => exact hbranch ((Instr.ofWord_of_bcctr hw).trans (if_pos hcount))

namespace ReplacesField

variable {f : BitVec 3} {code : BitVec 2 → Bool} {w' : Word} {k k' : BitVec 2}

/-- A combination of bits sees what was written to the field. -/
theorem combined (h : m.ReplacesField w f code) {op : Opcode.Control} {g : Bool → Bool → Bool}
    (hw' : op.Selects w') (hop : op.function? = some g) (hra : Field.ra w' = f ++ k)
    (hrb : Field.rb w' = f ++ k') :
    (m.execute w).machine.SetsBit w' (Field.rt w') (g (code k) (code k')) := by
  have hsets := setsBit_of_function (m := (m.execute w).machine) hw' hop
  rw [hra, hrb] at hsets
  rw [← h.inside k, ← h.inside k']
  exact hsets

/-- A branch sees what was written to the field. -/
theorem branched (h : m.ReplacesField w f code) {target : Target} (hw' : w'.BranchesTo target)
    (hra : Field.ra w' = f ++ k) :
    let m' := (m.execute w).machine
    m'.execute w' = m'.done (m'.regs.branchedOn (Field.rt w') (code k)
      (m'.regs.destination target) (Field.bit31 w')) := by
  have hbranch := execute_branchesTo hw' (m.execute w).machine
  rw [hra] at hbranch
  rw [← h.inside k]
  exact hbranch

end ReplacesField

end Machine

/-- **Writes of the condition register hit exactly their bits**, for every state and every word.

* A combination sets its target to its function of the two bits as they were before, whether or not
  the target is one of them.
* The moves from another field, from XER and from the status, and all comparisons of integers and of
  floating point numbers replace the field that they name.
* The move from a register replaces the fields that its mask names by the fields of the register in
  their place. So what the move to a register has taken comes back whole under a mask of ones,
  whatever the condition register is by then.
* Combinations and branches that name bit `k` of a field see the bit that was written there.
* No word changes a bit that it is not listed for. Records of integer results and conditional stores
  are listed for field zero, and records of the floating point status for field one. -/
theorem condition_writes_exact (m : Machine) (w : Word) :
    let r := m.regs
    let r' := (m.execute w).machine.regs
    (∀ (op : Opcode.Control) (g : Bool → Bool → Bool), op.function? = some g → op.Selects w →
      m.SetsBit w (Field.rt w)
        (g (r.cr.getMsbD (Field.ra w).toNat) (r.cr.getMsbD (Field.rb w).toNat))) ∧
    (Opcode.Control.mcrf.Selects w →
      m.ReplacesField w (Field.crfd w) (r.crAt (Field.crfs w))) ∧
    (Fixed.mcrxr.Selects w →
      m.ReplacesField w (Field.crfd w) fun k => r.xer.getMsbD k.toNat) ∧
    (DoubleMove.mcrfs.Selects w →
      m.ReplacesField w (Field.crfd w) fun k => r.fpscr.getMsbD (Field.crfs w ++ k).toNat) ∧
    (∀ x y, r.ComparesIntegers w x y → Field.l w = false →
      m.ReplacesField w (Field.crfd w) (orderBit x y r.summaryOverflow)) ∧
    (∀ lane ordered, w.ComparesFloats lane ordered →
      m.ReplacesField w (Field.crfd w) fun k =>
        (Fpscr.compareCode (r.compared w lane).1 (r.compared w lane).2).getMsbD k.toNat) ∧
    (Fixed.mtcrf.Selects w → (m.execute w).failure = none ∧
      ∀ n k, r'.crAt n k = if (Field.crm w).getMsbD n.toNat then
        (r.gpr.read (Field.rt w)).getMsbD (n ++ k).toNat else r.crAt n k) ∧
    (Fixed.mfcr.Selects w → ∀ (m' : Machine) (w' : Word), Fixed.mtcrf.Selects w' →
      Field.crm w' = 0xFF#8 → m'.regs.gpr.read (Field.rt w') = r'.gpr.read (Field.rt w) →
      (m'.execute w').machine.regs.cr = r.cr) ∧
    (∀ f code, m.ReplacesField w f code →
      let m' := (m.execute w).machine
      (∀ (op : Opcode.Control) (g : Bool → Bool → Bool) (w' : Word) (k k' : BitVec 2),
        op.function? = some g → op.Selects w' → Field.ra w' = f ++ k → Field.rb w' = f ++ k' →
        m'.SetsBit w' (Field.rt w') (g (code k) (code k'))) ∧
      ∀ (w' : Word) (target : Target) (k : BitVec 2), w'.BranchesTo target →
        Field.ra w' = f ++ k → m'.execute w' = m'.done (m'.regs.branchedOn (Field.rt w') (code k)
          (m'.regs.destination target) (Field.bit31 w'))) ∧
    (∀ t, w.WritesCondition t → ∀ n k, ¬ t.Holds n k → r'.crAt n k = r.crAt n k) ∧
    ∀ n k, r'.crAt n k ≠ r.crAt n k → ∃ t, w.WritesCondition t ∧ t.Holds n k := by
  intro r r'
  refine ⟨?combined, Machine.replacesField_of_mcrf, Machine.replacesField_of_mcrxr,
    Machine.replacesField_of_mcrfs, ?integers, ?floats, ?masked, ?restored, ?read, ?kept, ?listed⟩
  case combined => exact fun op g hop hw => Machine.setsBit_of_function hw hop
  case integers => exact fun x y hw hl => Machine.replacesField_of_compare hw hl
  case floats => exact fun lane ordered hw => Machine.replacesField_of_comparesFloats hw
  case masked =>
    intro hw
    refine ⟨?_, Machine.crAt_of_mtcrf hw⟩
    rw [Machine.execute_of_ofWord (Instr.ofWord_of_mtcrf hw)]
    rfl
  case restored =>
    intro hw m' w' hw' hmask hregister
    have htaken : r'.gpr.read (Field.rt w) = r.cr := by
      show (m.execute w).machine.regs.gpr.read (Field.rt w) = _
      rw [Machine.execute_of_ofWord (Instr.ofWord_of_mfcr hw)]
      exact Bank.read_write_self ..
    rw [Machine.cr_of_mtcrf_all hw' hmask, hregister, htaken]
  case read =>
    intro f code hreplaces
    refine ⟨fun op g w' k k' hop hw' hra hrb => ?_, fun w' target k hw' hra => ?_⟩
    · exact hreplaces.combined hw' hop hra hrb
    · exact hreplaces.branched hw' hra
  case kept => exact fun t hw n k hnot => (Machine.keeps_execute hw m).outside n k hnot
  case listed => exact fun n k hne => Machine.listed_of_changed hne

/-- `cmpw cr7, r3, r4` finds minus one less than one, which `blt cr7` sees, and which
`crnor 28, 28, 28` negates in its place; `addic.` writes field zero only. What `mfcr r5` has taken
before the comparison comes back with `mtcrf 0xFF, r5`. -/
theorem condition_writes_exact_field_seven :
    let m : Machine := ⟨{ (Registers.initial.setGpr 3 0xFFFFFFFF#32).setGpr 4 1#32 with
      cr := 0x5A5A5A5A#32 }, .ofBytes .empty⟩
    let m' := (m.execute 0x7F832000#32).machine
    m.ReplacesField 0x7F832000#32 7 (orderBit (-1) 1 false) ∧
      m'.SetsBit 0x4F9CE042#32 28 false ∧
      m'.execute 0x419C0008#32 = m'.done (m'.regs.branchedOn 12 true 8#32 false) ∧
      (∀ n k, n ≠ 0 → (m'.execute 0x34C30001#32).machine.regs.crAt n k = m'.regs.crAt n k) ∧
      (((m.execute 0x7CA00026#32).machine.execute 0x7F832000#32).machine.execute
        0x7CAFF120#32).machine.regs.cr = 0x5A5A5A5A#32 := by
  intro m m'
  have hnumbers : m.regs.ComparesIntegers 0x7F832000#32 (-1) 1 :=
    .cmp (by decide : Fixed.cmp.Selects 0x7F832000#32)
  obtain ⟨-, -, -, -, hintegers, -, -, -, hread, -, -⟩ :=
    condition_writes_exact m 0x7F832000#32
  have hparts : Field.crfd 0x7F832000#32 = 7 ∧ m.regs.summaryOverflow = false := by decide
  have hcompare := hintegers _ _ hnumbers (by decide)
  rw [hparts.1, hparts.2] at hcompare
  obtain ⟨hcombined, hbranched⟩ := hread _ _ hcompare
  have hbranch : Word.BranchesTo 0x419C0008#32 (.relative 8#32) :=
    .bc (by decide : Primary.bc.Selects 0x419C0008#32)
  have hrecord : Word.WritesCondition 0x34C30001#32 (.field 0) :=
    .resultImmediate (by decide : Primary.addicRc.Selects 0x34C30001#32) (by decide)
  obtain ⟨-, -, -, -, -, -, -, -, -, hkept, -⟩ := condition_writes_exact m' 0x34C30001#32
  obtain ⟨-, -, -, -, -, -, -, hrestored, -⟩ := condition_writes_exact m 0x7CA00026#32
  refine ⟨hcompare, ?_, ?_, ?_, ?_⟩
  · exact hcombined .crnor _ 0x4F9CE042#32 0 0 rfl (by decide) (by decide) (by decide)
  · exact hbranched 0x419C0008#32 _ 0 hbranch (by decide)
  · intro n k hn
    exact hkept _ hrecord n k hn
  · exact hrestored (by decide) _ 0x7CAFF120#32 (by decide) (by decide) (by decide +kernel)

end Broadway
