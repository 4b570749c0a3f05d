import Broadway.Proofs.Encoding.RoundTrip
import Broadway.Proofs.Exec.Xer
import Broadway.Proofs.Instr.Record

/-!
# Special purpose registers as cells

A special purpose register is read and written by number, and what is behind a number is found
twice: once by `Registers.special` and once by `Registers.setSpecial`. Both go to the same cell
(`Cell.ofNumber`), and cells are independent of one another: a cell reads what was last written to
it and nothing that was written elsewhere (`Cell.read_write`). Different numbers have different
cells but for the halves of the time base, each of which has one number where it is read and one
where it is written (`Cell.ofNumber_eq_iff`).

* For the words this says what a move to a special register leaves for the moves from one
  (`special_cells_independent`).
-/

namespace Broadway

open Opcode

/-! ## Cells -/

/-- What is behind the number of a special purpose register. -/
inductive Cell
  | xer
  | lr
  | ctr
  | dsisr
  | dar
  | srr0
  | srr1
  | timeBase (upper : Bool)
  | quantizer (i : BitVec 3)
  | stored (n : BitVec 10)
  deriving DecidableEq

namespace Cell

def ofNumber (n : Nat) : Cell :=
  if n = Spr.xer then .xer
  else if n = Spr.lr then .lr
  else if n = Spr.ctr then .ctr
  else if n = Spr.dsisr then .dsisr
  else if n = Spr.dar then .dar
  else if n = Spr.srr0 then .srr0
  else if n = Spr.srr1 then .srr1
  else if n = Spr.tblRead ∨ n = Spr.tblWrite then .timeBase false
  else if n = Spr.tbuRead ∨ n = Spr.tbuWrite then .timeBase true
  else if Spr.gqr0 ≤ n ∧ n ≤ Spr.gqr7 then .quantizer (BitVec.ofNat 3 (n - Spr.gqr0))
  else .stored (BitVec.ofNat 10 n)

def read (r : Registers) : Cell → Word
  | xer => r.xer
  | lr => r.lr
  | ctr => r.ctr
  | dsisr => r.dsisr
  | dar => r.dar
  | srr0 => r.srr0
  | srr1 => r.srr1
  | timeBase false => r.tb.extractLsb' 0 32
  | timeBase true => r.tb.extractLsb' 32 32
  | quantizer i => r.gqr.read i
  | stored n => r.spr.read n

def write (r : Registers) (v : Word) : Cell → Registers
  | xer => { r with xer := v }
  | lr => { r with lr := v }
  | ctr => { r with ctr := v }
  | dsisr => { r with dsisr := v }
  | dar => { r with dar := v }
  | srr0 => { r with srr0 := v }
  | srr1 => { r with srr1 := v }
  | timeBase false => { r with tb := r.tb.extractLsb' 32 32 ++ v }
  | timeBase true => { r with tb := v ++ r.tb.extractLsb' 0 32 }
  | quantizer i => { r with gqr := r.gqr.write i v }
  | stored n => { r with spr := r.spr.write n v }

theorem read_ofNumber (r : Registers) (n : Nat) : (ofNumber n).read r = r.special n := by
  simp only [ofNumber, apply_ite (read r)]
  rfl

theorem write_ofNumber (r : Registers) (n : Nat) (v : Word) :
    (ofNumber n).write r v = r.setSpecial n v := by
  simp only [ofNumber, apply_ite (write r v)]
  rfl

/-- The halves of a doubleword are apart from each other. -/
theorem read_write_timeBase (r : Registers) (v : Word) (upper upper' : Bool) :
    (timeBase upper').read ((timeBase upper).write r v) =
      if upper = upper' then v else (timeBase upper').read r := by
  cases upper with
  | false =>
      cases upper' with
      | false => exact BitVec.extractLsb'_append_eq_right
      | true => exact BitVec.extractLsb'_append_eq_left
  | true =>
      cases upper' with
      | false => exact BitVec.extractLsb'_append_eq_right
      | true => exact BitVec.extractLsb'_append_eq_left

/-- A cell reads what was last written to it and nothing that was written to another one. -/
theorem read_write (c d : Cell) (r : Registers) (v : Word) :
    d.read (c.write r v) = if c = d then v else d.read r := by
  cases c with
  | timeBase upper =>
      cases d with
      | timeBase upper' =>
          rw [read_write_timeBase]
          simp only [timeBase.injEq]
      | _ => cases upper <;> rfl
  | quantizer i =>
      cases d with
      | quantizer j =>
          simp only [quantizer.injEq]
          exact Bank.read_write _ i j v
      | timeBase upper => cases upper <;> rfl
      | _ => rfl
  | stored n =>
      cases d with
      | stored k =>
          simp only [stored.injEq]
          exact Bank.read_write _ n k v
      | timeBase upper => cases upper <;> rfl
      | _ => rfl
  | _ =>
      cases d with
      | timeBase upper => cases upper <;> rfl
      | _ => rfl

/-- The numbers of a cell. The halves of the time base have one where they are read and another one
where they are written. -/
def numbers : Cell → List Nat
  | xer => [Spr.xer]
  | lr => [Spr.lr]
  | ctr => [Spr.ctr]
  | dsisr => [Spr.dsisr]
  | dar => [Spr.dar]
  | srr0 => [Spr.srr0]
  | srr1 => [Spr.srr1]
  | timeBase false => [Spr.tblRead, Spr.tblWrite]
  | timeBase true => [Spr.tbuRead, Spr.tbuWrite]
  | quantizer i => [Spr.gqr0 + i.toNat]
  | stored n => [n.toNat]

/-- The cells of numbers, one by one. -/
theorem ofNumber_cases (n : Nat) {motive : Cell → Prop} (xer : n = Spr.xer → motive .xer)
    (lr : n = Spr.lr → motive .lr) (ctr : n = Spr.ctr → motive .ctr)
    (dsisr : n = Spr.dsisr → motive .dsisr) (dar : n = Spr.dar → motive .dar)
    (srr0 : n = Spr.srr0 → motive .srr0) (srr1 : n = Spr.srr1 → motive .srr1)
    (low : n = Spr.tblRead ∨ n = Spr.tblWrite → motive (.timeBase false))
    (high : n = Spr.tbuRead ∨ n = Spr.tbuWrite → motive (.timeBase true))
    (quantizer : Spr.gqr0 ≤ n ∧ n ≤ Spr.gqr7 →
      motive (.quantizer (BitVec.ofNat 3 (n - Spr.gqr0))))
    (stored : motive (.stored (BitVec.ofNat 10 n))) : motive (ofNumber n) := by
  unfold ofNumber
  exact iteInduction xer fun _ => iteInduction lr fun _ => iteInduction ctr fun _ =>
    iteInduction dsisr fun _ => iteInduction dar fun _ => iteInduction srr0 fun _ =>
    iteInduction srr1 fun _ => iteInduction low fun _ => iteInduction high fun _ =>
    iteInduction quantizer fun _ => stored

/-- A number is among those of its cell. -/
theorem mem_numbers {n : Nat} (hn : n < Spr.count) : n ∈ (ofNumber n).numbers := by
  have hone {k : Nat} (h : n = k) : n ∈ [k] := List.mem_singleton.2 h
  have htwo {k k' : Nat} (h : n = k ∨ n = k') : n ∈ [k, k'] := by simpa using h
  apply ofNumber_cases n (motive := fun c => n ∈ c.numbers)
  case low => exact htwo
  case high => exact htwo
  case quantizer =>
    rintro ⟨hlow, hhigh⟩
    refine hone ?_
    simp only [Spr.gqr0, Spr.gqr7] at hlow hhigh ⊢
    rw [BitVec.toNat_ofNat]
    omega
  case stored =>
    refine hone ?_
    rw [BitVec.toNat_ofNat]
    exact (Nat.mod_eq_of_lt hn).symm
  all_goals exact hone

end Cell

/-- Whether two numbers are of one register: they are equal, or they are those under which a half of
the time base is read and written. -/
def Spr.Same (n k : BitVec 10) : Prop :=
  n = k ∨ (n, k) ∈ [(268, 284), (284, 268), (269, 285), (285, 269)]

instance (n k : BitVec 10) : Decidable (Spr.Same n k) := inferInstanceAs (Decidable (_ ∨ _))

namespace Cell

theorem same_of_mem {n k : BitVec 10} {c : Cell} (hn : n.toNat ∈ c.numbers)
    (hk : k.toNat ∈ c.numbers) : Spr.Same n k := by
  cases c with
  | timeBase upper =>
      cases upper with
      | _ =>
          simp only [numbers, Spr.tblRead, Spr.tblWrite, Spr.tbuRead, Spr.tbuWrite, List.mem_cons,
            List.not_mem_nil, or_false] at hn hk
          simp only [Spr.Same, List.mem_cons, Prod.mk.injEq, List.not_mem_nil, or_false]
          bv_omega
  | _ =>
      refine .inl (BitVec.eq_of_toNat_eq ?_)
      rw [List.mem_singleton.1 hn, List.mem_singleton.1 hk]

/-- Two numbers have one cell if and only if they are of one register. -/
theorem ofNumber_eq_iff (n k : BitVec 10) :
    ofNumber n.toNat = ofNumber k.toNat ↔ Spr.Same n k := by
  constructor
  · intro h
    have hk := mem_numbers k.isLt
    rw [← h] at hk
    exact same_of_mem (mem_numbers n.isLt) hk
  · rintro (rfl | h)
    · rfl
    · simp only [List.mem_cons, Prod.mk.injEq, List.not_mem_nil, or_false] at h
      rcases h with ⟨rfl, rfl⟩ | ⟨rfl, rfl⟩ | ⟨rfl, rfl⟩ | ⟨rfl, rfl⟩
      all_goals rfl

end Cell

namespace Registers

/-- A register is read as it was last written, and writes to other registers are not seen. -/
theorem special_setSpecial (r : Registers) (n k : BitVec 10) (v : Word) :
    (r.setSpecial n.toNat v).special k.toNat =
      if Spr.Same n k then v else r.special k.toNat := by
  rw [← Cell.read_ofNumber, ← Cell.write_ofNumber, Cell.read_write, Cell.read_ofNumber]
  simp only [Cell.ofNumber_eq_iff]

/-- No register without a number is written. -/
theorem setSpecial_frame (r : Registers) (n : Nat) (v : Word) :
    let r' := r.setSpecial n v
    r' = { r with
      xer := r'.xer, lr := r'.lr, ctr := r'.ctr, dsisr := r'.dsisr, dar := r'.dar,
      srr0 := r'.srr0, srr1 := r'.srr1, tb := r'.tb, gqr := r'.gqr, spr := r'.spr } := by
  apply r.setSpecial_cases n v (motive := fun r' => r' = { r with
      xer := r'.xer, lr := r'.lr, ctr := r'.ctr, dsisr := r'.dsisr, dar := r'.dar,
      srr0 := r'.srr0, srr1 := r'.srr1, tb := r'.tb, gqr := r'.gqr, spr := r'.spr })
  all_goals
    intros
    rfl

end Registers

/-! ## Words -/

/-- The word of an opcode of group 31 with a register and the number of a special register, which
stands in the word with its halves swapped. -/
def Word.special (op : Fixed) (r : Reg) (n : BitVec 10) : Word :=
  XfxForm.encode ⟨31, r.setWidth 8, (Field.swapHalves n).setWidth 16, BitVec.ofNat 16 op.code⟩

theorem Field.swapHalves_swapHalves (n : BitVec 10) :
    Field.swapHalves (Field.swapHalves n) = n := by
  have hwhole : n.extractLsb' 5 5 ++ n.extractLsb' 0 5 = n.extractLsb' 0 10 :=
    BitVec.extractLsb'_append_extractLsb'_eq_extractLsb' rfl
  unfold swapHalves
  rw [BitVec.extractLsb'_append_eq_right, BitVec.extractLsb'_append_eq_left, hwhole,
    BitVec.extractLsb'_eq_self]

namespace Word

variable {op : Fixed} {r : Reg} {n : BitVec 10} {w : Word}

@[simp]
theorem rt_special : Field.rt (special op r n) = r := by
  simp [special, XfxForm.encode, Field.rt, BitVec.extractLsb'_or]

@[simp]
theorem spr_special : Field.spr (special op r n) = n := by
  have hfield : Field.sprField (special op r n) = Field.swapHalves n := by
    simp [special, XfxForm.encode, Field.sprField, BitVec.extractLsb'_or]
  rw [Field.spr, hfield, Field.swapHalves_swapHalves]

theorem selects_special : op.Selects (special op r n) := by
  have hopcd : Field.opcd (special op r n) = 31 := by
    simp [special, XfxForm.encode, Field.opcd, BitVec.extractLsb'_or]
  have hxo : Field.xo10 (special op r n) = BitVec.ofNat 10 op.code := by
    simp [special, XfxForm.encode, Field.xo10, BitVec.extractLsb'_or]
  constructor
  · show (Field.opcd (special op r n)).toNat = 31
    rw [hopcd]
    rfl
  · rw [hxo, BitVec.toNat_ofNat]
    cases op <;> rfl

/-- The words of an opcode with a register and a number are those that are encoded, with any last
bit. -/
theorem special_iff :
    op.Selects w ∧ Field.rt w = r ∧ Field.spr w = n ↔ w &&& ~~~1#32 = special op r n := by
  -- no field of the form holds the last bit
  have hlast : w &&& ~~~1#32 = w.withRc false := rfl
  have hselects : op.Selects (w.withRc false) ↔ op.Selects w := by
    unfold Fixed.Selects Primary.Selects Field.opcd Field.xo10
    rw [extractLsb'_withRc w _ (by decide), extractLsb'_withRc w _ (by decide)]
  have hrt : Field.rt (w.withRc false) = Field.rt w := extractLsb'_withRc w _ (by decide)
  have hspr : Field.spr (w.withRc false) = Field.spr w :=
    congrArg Field.swapHalves (extractLsb'_withRc w _ (by decide))
  constructor
  · rintro ⟨hw, rfl, rfl⟩
    have hopcd : Field.opcd w = 31 := BitVec.eq_of_toNat_eq hw.1
    have hxo : (Field.xo10 w).setWidth 16 = BitVec.ofNat 16 op.code := by
      rw [← hw.2, BitVec.ofNat_toNat]
    rw [← XfxForm.encode_decode, special, ← hxo, Field.spr, Field.swapHalves_swapHalves,
      XfxForm.decode, hopcd]
    rfl
  · intro h
    rw [← hselects, ← hrt, ← hspr, ← hlast, h]
    exact ⟨selects_special, rt_special, spr_special⟩

end Word

/-- What a special register keeps of a word that is moved to it. -/
def Spr.kept (n : BitVec 10) (v : Word) : Word := if n = 1 then v &&& 0xE000007F#32 else v

namespace Machine

/-- A word answers with a value: it completes, leaves the value in its target and changes nothing
else. -/
def Answers (m : Machine) (w v : Word) : Prop :=
  m.execute w = m.done (m.regs.setGpr (Field.rt w) v)

variable {m : Machine} {w : Word}

/-- A word has one answer at most: what it leaves in its target. -/
theorem Answers.result {v : Word} (h : m.Answers w v) :
    (m.execute w).machine.regs.gpr.read (Field.rt w) = v := by
  rw [h]
  exact Bank.read_write_self ..

theorem answers_special (hw : Fixed.mfspr.Selects w) :
    m.Answers w (m.regs.special (Field.spr w).toNat) := by
  have hi : Instr.ofWord w = .ok (.system (.fromSpecial (Field.rt w) (Field.spr w))) := by
    rw [Instr.ofWord_of_special hw (by decide), Instr.ofXfxForm, hw.ofCode?_xfxForm,
      Instr.spr_decode]
    simp only [XfxForm.decode, Instr.reg_setWidth]
  rw [Answers, execute_of_ofWord hi]
  rfl

/-- The instruction that reads the time base knows its halves by number. -/
theorem answers_timeBase (hw : Fixed.mftb.Selects w) (hn : Field.spr w ∈ [268, 269]) :
    m.Answers w (m.regs.special (Field.spr w).toNat) := by
  simp only [List.mem_cons, List.not_mem_nil, or_false] at hn
  have hi : Instr.ofWord w =
      .ok (.system (.fromTimeBase (Field.rt w) (decide (Field.spr w = 269)))) := by
    rw [Instr.ofWord_of_special hw (by decide), Instr.ofXfxForm, hw.ofCode?_xfxForm,
      Instr.spr_decode]
    simp only [XfxForm.decode, Instr.reg_setWidth]
    rcases hn with hn | hn <;> rw [hn] <;> rfl
  rw [Answers, execute_of_ofWord hi]
  rcases hn with hn | hn <;> rw [hn] <;> rfl

theorem execute_mtspr (hw : Fixed.mtspr.Selects w) :
    m.execute w = m.done (m.regs.setSpecial (Field.spr w).toNat
      (Spr.kept (Field.spr w) (m.regs.gpr.read (Field.rt w)))) := by
  have hi : Instr.ofWord w = .ok (.system (.toSpecial (Field.spr w) (Field.rt w))) := by
    rw [Instr.ofWord_of_special hw (by decide), Instr.ofXfxForm, hw.ofCode?_xfxForm,
      Instr.spr_decode]
    simp only [XfxForm.decode, Instr.reg_setWidth]
  have hxer : (Field.spr w).toNat = Spr.xer ↔ Field.spr w = 1 :=
    ⟨fun h => BitVec.eq_of_toNat_eq h, fun h => by rw [h]; rfl⟩
  rw [execute_of_ofWord hi, Spr.kept]
  simp only [← hxer]
  rfl

end Machine

/-- **Special purpose registers are independent of one another**, for every state and every word.

* The words of a register and a number are those that are encoded with the halves of the number
  swapped; their last bit is free.
* The move from the time base answers what the move from a special register of this number answers.
* A move to a special register completes. The moves from the same register then answer what it keeps
  of the word, which is all of it except for XER, and those from other registers answer what they
  answered before.
* The halves of the time base are apart, memory stays as it is, and so do all registers that have no
  number. -/
theorem special_cells_independent (m : Machine) :
    (∀ op ∈ [Fixed.mtspr, .mfspr, .mftb], ∀ w r n,
      op.Selects w ∧ Field.rt w = r ∧ Field.spr w = n ↔
        w &&& ~~~1#32 = Word.special op r n) ∧
    (∀ w w', Fixed.mftb.Selects w → Fixed.mfspr.Selects w' → Field.spr w = Field.spr w' →
      Field.spr w ∈ [268, 269] → ∃ v, m.Answers w v ∧ m.Answers w' v) ∧
    ∀ w, Fixed.mtspr.Selects w →
      let n := Field.spr w
      let v := Spr.kept n (m.regs.gpr.read (Field.rt w))
      let m' := (m.execute w).machine
      (m.execute w).failure = none ∧
      (∀ w', Fixed.mfspr.Selects w' → ∃ u, m.Answers w' u ∧
        m'.Answers w' (if Spr.Same n (Field.spr w') then v else u)) ∧
      m'.regs.tb.extractLsb' 0 32 =
        (if Spr.Same n 268 then v else m.regs.tb.extractLsb' 0 32) ∧
      m'.regs.tb.extractLsb' 32 32 =
        (if Spr.Same n 269 then v else m.regs.tb.extractLsb' 32 32) ∧
      m'.ram = m.ram ∧
      m'.regs = { m.regs with
        xer := m'.regs.xer, lr := m'.regs.lr, ctr := m'.regs.ctr, dsisr := m'.regs.dsisr,
        dar := m'.regs.dar, srr0 := m'.regs.srr0, srr1 := m'.regs.srr1, tb := m'.regs.tb,
        gqr := m'.regs.gqr, spr := m'.regs.spr } := by
  refine ⟨fun op _ w r n => Word.special_iff, fun w w' hw hw' hsame hn => ?_, ?_⟩
  · have hanswers : m.Answers w' _ := Machine.answers_special hw'
    rw [← hsame] at hanswers
    exact ⟨_, Machine.answers_timeBase hw hn, hanswers⟩
  · intro w hw n v m'
    have hexecute : m.execute w = m.done (m.regs.setSpecial n.toNat v) := Machine.execute_mtspr hw
    have hregs : m'.regs = m.regs.setSpecial n.toNat v :=
      congrArg (fun o => o.machine.regs) hexecute
    have hread (k : BitVec 10) :
        m'.regs.special k.toNat = if Spr.Same n k then v else m.regs.special k.toNat := by
      rw [hregs, Registers.special_setSpecial]
    refine ⟨by rw [hexecute, m.failure_done], fun w' hw' => ?_, hread 268, hread 269, ?_, ?_⟩
    · refine ⟨_, Machine.answers_special hw', ?_⟩
      rw [← hread]
      exact Machine.answers_special hw'
    · exact congrArg (fun o => o.machine.ram) hexecute
    · rw [hregs]
      exact m.regs.setSpecial_frame n.toNat v

/-- `mtspr 284, r3` is seen by `mfspr r4, 268` and `mftb r6, 268`, but not by `mfspr r5, 269`; of
the same word, `mtspr 1, r3` keeps ten bits. -/
theorem special_cells_independent_time_base :
    let m : Machine := ⟨(Registers.initial.setGpr 3 0xFFFFFFFF#32).setSpecial 285 7#32,
      .ofBytes .empty⟩
    let m' := (m.execute 0x7C7C43A6#32).machine
    Fixed.mtspr.Selects 0x7C7C43A6#32 ∧ Fixed.mtspr.Selects 0x7C6103A6#32 ∧
      m'.Answers 0x7C8C42A6#32 0xFFFFFFFF#32 ∧ m'.Answers 0x7CCC42E6#32 0xFFFFFFFF#32 ∧
      m'.Answers 0x7CAD42A6#32 7#32 ∧
      (m.execute 0x7C6103A6#32).machine.Answers 0x7C8102A6#32 0xE000007F#32 := by
  intro m m'
  have htime : Fixed.mtspr.Selects 0x7C7C43A6#32 := by decide
  have hxer : Fixed.mtspr.Selects 0x7C6103A6#32 := by decide
  obtain ⟨-, -, hwrites⟩ := special_cells_independent m
  obtain ⟨-, hreads, -⟩ := hwrites _ htime
  obtain ⟨-, hreads', -⟩ := hwrites _ hxer
  obtain ⟨low, -, hlow⟩ := hreads 0x7C8C42A6#32 (by decide)
  obtain ⟨high, hbefore, hhigh⟩ := hreads 0x7CAD42A6#32 (by decide)
  obtain ⟨kept, -, hkept⟩ := hreads' 0x7C8102A6#32 (by decide)
  obtain ⟨half, hhalf, hsame⟩ := (special_cells_independent m').2.1 0x7CCC42E6#32
    0x7C8C42A6#32 (by decide) (by decide) (by decide) (by decide)
  have hhigh' : high = 7#32 := hbefore.result.symm.trans (by decide +kernel)
  have hhalf' : half = 0xFFFFFFFF#32 := hsame.result.symm.trans hlow.result
  have hxer' : Spr.kept (Field.spr 0x7C6103A6#32) (m.regs.gpr.read (Field.rt 0x7C6103A6#32)) =
      0xE000007F#32 := by decide +kernel
  rw [if_pos (by decide), hxer'] at hkept
  subst hhigh' hhalf'
  exact ⟨htime, hxer, hlow, hhalf, hhigh, hkept⟩

end Broadway
