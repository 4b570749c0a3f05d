import Broadway.Proofs.Exec.Sums
import Broadway.Proofs.Instr.Record

/-!
# Records are a last step

An instruction that is asked to record its result does what it does otherwise, and then sets a field
of the condition register from what is in the registers by then. An instruction of register
arithmetic that is asked to record its overflow leaves all else as it does otherwise, but for the
copy of the summary overflow in such a record (`record_bits_exact`).
-/

namespace Broadway

open Opcode
open Fpscr (or_and_of_apart)

/-! ## The record of a result -/

namespace Registers

/-- The record of a register as an integer result. -/
def recordGpr (r : Registers) (t : Reg) : Registers :=
  { r with cr := Condition.setField r.cr 0 (resultField (r.gpr.read t).toInt r.summaryOverflow) }

theorem recordGpr_eq (r : Registers) (t : Reg) :
    r.recordGpr t = r.recordResult (r.gpr.read t) := by
  rw [recordGpr, resultField_eq, BitVec.ofInt_toInt]
  rfl

theorem finishLogic_true (r : Registers) (t : Reg) (value : Word) :
    r.finishLogic t true value = (r.finishLogic t false value).recordGpr t := by
  have hvalue : (r.finishLogic t false value).gpr.read t = value := Bank.read_write_self ..
  rw [recordGpr_eq, hvalue]
  rfl

theorem finish_true (r : Registers) (t : Reg) (oe : Bool) (x : ArithResult) :
    r.finish t oe true x = (r.finish t oe false x).recordGpr t := by
  have hvalue : (r.finish t oe false x).gpr.read t = x.value := by
    rw [gpr_finish, Bank.read_write_self]
  rw [recordGpr_eq, hvalue]
  rfl

end Registers

theorem FixedInstr.Recording.exec {t : Reg} {i : Bool → FixedInstr} (h : Recording t i)
    (r : Registers) : (i true).exec r = ((i false).exec r).recordGpr t := by
  -- all of them end in one of two ways of writing a result back
  cases h with
  | arith op ra rb oe => exact r.finish_true t oe _
  | logic op rs b => exact r.finishLogic_true t _
  | unary op rs => exact r.finishLogic_true t _
  | shift op rs amount => exact (r.withCarry _).finishLogic_true t _
  | rotateAnd rs amount first last => exact r.finishLogic_true t _
  | rotateInsert rs amount first last => exact r.finishLogic_true t _

/-! ## The record of the status -/

theorem FloatInstr.Recording.exec {i : Bool → FloatInstr} (h : Recording i) (r : Registers) :
    (i true).exec r = ((i false).exec r).recordStatus := by
  cases h with
  | arith op precision => cases precision <;> rfl
  | _ => rfl

theorem PairedInstr.Recording.exec {i : Bool → PairedInstr} (h : Recording i) (r : Registers) :
    (i true).exec r = ((i false).exec r).recordStatus := by
  cases h with
  | sum lane => cases lane <;> rfl
  | _ => rfl

/-! ## The record of an overflow -/

/-- The registers that two runs of an instruction leave, the second of which was asked to record its
overflow: they differ in the bits that this is about. -/
structure Registers.SameButOverflow (r r' : Registers) (rc : Bool) : Prop where
  frame : r' = { r with cr := r'.cr, xer := r'.xer }
  xer : r'.xer &&& ~~~(Xer.ov ||| Xer.so) = r.xer &&& ~~~(Xer.ov ||| Xer.so)
  /-- A record of the result has a copy of the summary overflow in it. -/
  cr : r'.cr &&& ~~~(1#32 <<< 28) = r.cr &&& ~~~(1#32 <<< 28)
  unrecorded : rc = false → r'.cr = r.cr

namespace Registers

variable (r : Registers) (rd : Reg)

/-- The summary overflow is one bit of the record. -/
theorem setField_or_so (cr : Word) (order : BitVec 4) (summary : Bool) :
    Condition.setField cr 0 (order ||| if summary then Condition.so else 0) &&& ~~~(1#32 <<< 28) =
      Condition.setField cr 0 order &&& ~~~(1#32 <<< 28) := by
  cases summary with
  | true =>
      have hfield : (order ||| Condition.so).setWidth 32 <<< 28 =
          order.setWidth 32 <<< 28 ||| 1#32 <<< 28 := by
        revert order
        decide
      show (_ ||| (order ||| Condition.so).setWidth 32 <<< 28) &&& ~~~(1#32 <<< 28) = _
      rw [hfield, ← BitVec.or_assoc, or_and_of_apart _ (by decide)]
      rfl
  | false =>
      have hnone : order ||| 0#4 = order := BitVec.or_zero
      exact congrArg (Condition.setField cr 0 · &&& _) hnone

theorem sameButOverflow_finish (rc : Bool) (x : ArithResult) :
    (r.finish rd false rc x).SameButOverflow (r.finish rd true rc x) rc where
  frame := by
    obtain ⟨value, carry, overflow⟩ := x
    cases rc <;> cases carry <;> cases overflow <;> rfl
  xer := by
    have hapart (o : Option Bool) : r.recorded x.carry o &&& ~~~(Xer.ov ||| Xer.so) =
        (r.withCarry x.carry).xer &&& ~~~(Xer.ov ||| Xer.so) :=
      xer_withOverflow_and _ (by decide) (by decide) o
    rw [xer_finish, xer_finish, hapart, hapart]
  cr := by
    rw [cr_finish, cr_finish]
    cases rc with
    | true => simp only [if_true, setField_or_so]
    | false => simp only [Bool.false_eq_true, if_false]
  unrecorded hrc := by
    rw [cr_finish, cr_finish, hrc]
    simp only [Bool.false_eq_true, if_false]

end Registers

/-! ## Words -/

namespace Instr

/-- Two readings that differ in the record bit stand for instructions that differ in a last step. -/
def DiffersBy (record : Registers → Registers) (x : Bool → Except Invalid Instr) : Prop :=
  ∃ i : Bool → Instr, (∀ rc, x rc = .ok (i rc)) ∧
    ∀ m, ∃ r, (i false).exec m = m.done r ∧ (i true).exec m = m.done (record r)

variable {x : Bool → Except Invalid Instr}

theorem ReadsResult.differsBy {t : Reg} (h : ReadsResult t x) : DiffersBy (·.recordGpr t) x := by
  cases h with
  | @fixed i hi =>
      refine ⟨fun rc => .fixed (i rc), fun _ => rfl, fun m => ⟨(i false).exec m.regs, rfl, ?_⟩⟩
      exact congrArg m.done (hi.exec m.regs)

theorem ReadsStatus.differsBy (h : ReadsStatus x) : DiffersBy Registers.recordStatus x := by
  cases h with
  | @float i hi =>
      refine ⟨fun rc => .float (i rc), fun _ => rfl, fun m => ⟨(i false).exec m.regs, rfl, ?_⟩⟩
      exact congrArg m.done (hi.exec m.regs)
  | @paired i hi =>
      refine ⟨fun rc => .paired (i rc), fun _ => rfl, fun m => ⟨(i false).exec m.regs, rfl, ?_⟩⟩
      exact congrArg m.done (hi.exec m.regs)

theorem DiffersBy.execute {record : Registers → Registers} {w : Word}
    (h : DiffersBy record fun rc => ofWord (w.withRc rc)) (m : Machine) :
    ∃ r, m.execute (w.withRc false) = m.done r ∧
      m.execute (w.withRc true) = m.done (record r) := by
  obtain ⟨i, hread, hexec⟩ := h
  obtain ⟨r, hplain, hrecord⟩ := hexec m
  refine ⟨r, ?_, ?_⟩
  · rw [Machine.execute_of_ofWord (hread false), hplain]
  · rw [Machine.execute_of_ofWord (hread true), hrecord]

end Instr

/-- What register arithmetic leaves with and without a record of its overflow. -/
theorem Machine.execute_withOe {op : FixedArith} {w : Word} (hw : op.Selects w) (m : Machine) :
    ∃ r r', m.execute (w.withOe false) = m.done r ∧ m.execute (w.withOe true) = m.done r' ∧
      r.SameButOverflow r' (Field.bit31 w) ∧ (op ∈ [FixedArith.mulhw, .mulhwu] → r' = r) := by
  have hrun (oe : Bool) := execute_of_ofWord (Instr.ofWord_withOe hw oe) m
  refine ⟨_, _, hrun false, hrun true, Registers.sameButOverflow_finish .., fun hop => ?_⟩
  -- the high word of a product leaves no overflow to record
  have hhigh : op = .mulhw ∨ op = .mulhwu := by simpa using hop
  rcases hhigh with rfl | rfl
  · cases Field.bit31 w <;> rfl
  · cases Field.bit31 w <;> rfl

/-- **Records only add to what an instruction does**, for every state and every word.

* A word that records an integer result leaves what it leaves without the record bit, and after that
  the sign of the result and the summary overflow in field zero of the condition register.
* A word that records the floating point status leaves what it leaves without the bit, and after
  that the high bits of the status in field one.
* Any other word of groups 4, 31 and 63 that stands for an instruction is one to which the bit means
  nothing.
* A word of register arithmetic that records its overflow leaves all but the overflow bits as it
  does without; the high word of a product has no overflow. -/
theorem record_bits_exact (m : Machine) (w : Word) :
    (∀ t, w.RecordsResult t → ∃ r, m.execute (w.withRc false) = m.done r ∧
      m.execute (w.withRc true) = m.done { r with
        cr := Condition.setField r.cr 0 (resultField (r.gpr.read t).toInt r.summaryOverflow) }) ∧
    (w.RecordsStatus → ∃ r, m.execute (w.withRc false) = m.done r ∧
      m.execute (w.withRc true) = m.done { r with
        cr := Condition.setField r.cr 1 (r.fpscr.extractLsb' 28 4) }) ∧
    (w.IgnoresRecord → m.execute (w.withRc true) = m.execute (w.withRc false)) ∧
    (∀ op ∈ [Primary.table4, .table31, .table63], op.Selects w →
      Instr.Known (Instr.ofWord w) → w.HasRecordKind) ∧
    (∀ op : FixedArith, op.Selects w →
      ∃ r r', m.execute (w.withOe false) = m.done r ∧ m.execute (w.withOe true) = m.done r' ∧
        r.SameButOverflow r' (Field.bit31 w) ∧ (op ∈ [FixedArith.mulhw, .mulhwu] → r' = r)) := by
  refine ⟨fun t hw => ?_, fun hw => ?_, fun hw => ?_, fun op hop hw hknown => ?_, fun op hw => ?_⟩
  · exact hw.reads.differsBy.execute m
  · exact hw.reads.differsBy.execute m
  · rw [Machine.execute, Machine.execute, hw.ofWord_eq, hw.ofWord_eq]
  · exact Word.hasRecordKind hop hw hknown
  · exact Machine.execute_withOe hw m

/-- `addo.` records an overflow and a negative sum, and `mffs.` the status, while `cmpw` does not
see the bit. The records of `addo.` and `add.` differ in the summary overflow only. -/
theorem record_bits_exact_overflow :
    let m : Machine := ⟨{ (Registers.initial.setGpr 3 0x7FFFFFFF#32).setGpr 4 1#32 with
      fpscr := 0x90000000#32 }, .ofBytes .empty⟩
    (m.execute 0x7C632615#32).machine.regs.cr = 0x90000000#32 ∧
      (m.execute 0xFC20048F#32).machine.regs.cr = 0x09000000#32 ∧
      m.execute 0x7C032001#32 = m.execute 0x7C032000#32 ∧
      (m.execute 0x7C632615#32).machine.regs.cr &&& ~~~(1#32 <<< 28) =
        (m.execute 0x7C632215#32).machine.regs.cr &&& ~~~(1#32 <<< 28) := by
  intro m
  have hadd : Word.RecordsResult 0x7C632614#32 3 :=
    .arith (by decide : FixedArith.add.Selects 0x7C632614#32)
  have hmove : Word.RecordsStatus 0xFC20048E#32 :=
    .doubleMove (by decide : DoubleMove.mffs.Selects 0xFC20048E#32) rfl
  have hcompare : Word.IgnoresRecord 0x7C032000#32 :=
    .fixed (by decide : Fixed.cmp.Selects 0x7C032000#32) rfl
  have hsum : Condition.setField (m.execute 0x7C632614#32).machine.regs.cr 0
      (resultField ((m.execute 0x7C632614#32).machine.regs.gpr.read 3).toInt
        (m.execute 0x7C632614#32).machine.regs.summaryOverflow) = 0x90000000#32 := by
    decide +kernel
  have hstatus : Condition.setField (m.execute 0xFC20048E#32).machine.regs.cr 1
      ((m.execute 0xFC20048E#32).machine.regs.fpscr.extractLsb' 28 4) = 0x09000000#32 := by
    decide +kernel
  obtain ⟨r, hr, hr'⟩ := (record_bits_exact m 0x7C632614#32).1 3 hadd
  obtain ⟨s, hs, hs'⟩ := (record_bits_exact m 0xFC20048E#32).2.1 hmove
  obtain ⟨t, t', ht, ht', hsame, -⟩ := (record_bits_exact m 0x7C632615#32).2.2.2.2 .add (by decide)
  -- the words in these equations have the bit set or cleared
  have hwords : Word.withRc 0x7C632614#32 false = 0x7C632614#32 ∧
      Word.withRc 0x7C632614#32 true = 0x7C632615#32 ∧
      Word.withRc 0xFC20048E#32 false = 0xFC20048E#32 ∧
      Word.withRc 0xFC20048E#32 true = 0xFC20048F#32 ∧
      Word.withOe 0x7C632615#32 false = 0x7C632215#32 ∧
      Word.withOe 0x7C632615#32 true = 0x7C632615#32 := by decide
  obtain ⟨hsum₀, hsum₁, hmove₀, hmove₁, hadd₀, hadd₁⟩ := hwords
  rw [hsum₀] at hr
  rw [hsum₁] at hr'
  rw [hmove₀] at hs
  rw [hmove₁] at hs'
  rw [hadd₀] at ht
  rw [hadd₁] at ht'
  rw [hr] at hsum
  rw [hs] at hstatus
  refine ⟨?_, ?_, (record_bits_exact m 0x7C032000#32).2.2.1 hcompare, ?_⟩
  · rw [hr']
    exact hsum
  · rw [hs']
    exact hstatus
  · rw [ht, ht']
    exact hsame.cr

end Broadway
