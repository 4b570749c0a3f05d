import Broadway.Proofs.Exec.Xer

/-!
# Sums and differences are exact

Fourteen instructions add and subtract, and all of them go through one adder: a subtraction adds the
complement, and the carry comes in from XER or is fixed. `ExactSum` says in integers what each of
them is to compute, with no complement in sight, and `Registers.Adds` what is then to be found in
the registers. The adder is exact (`Arith.sum_eq`), also where a carry takes part in a signed sum,
and so are the instructions (`sums_exact`).
-/

namespace Broadway

open Opcode
open Fpscr (or_and_of_apart and_not_and_of_apart)

/-- What a sum or a difference comes to, in integers. -/
structure ExactSum where
  /-- The result, the operands being signed numbers. -/
  signed : Int
  /-- The sum whose carry out is recorded, of unsigned numbers. A subtraction adds the complement. -/
  unsigned : Option Nat
  /-- The difference of unsigned numbers of a subtraction that records whether there is a borrow. -/
  difference : Option Int
  deriving DecidableEq

/-- What the sum or difference of an opcode comes to for the words of rA and rB and the carry; no
other opcode has one. -/
def Opcode.FixedArith.exactSum? (op : FixedArith) (a b : Word) (carry : Bool) : Option ExactSum :=
  let c : Nat := carry.toNat
  match op with
  | .add => some ⟨a.toInt + b.toInt, none, none⟩
  | .addc => some ⟨a.toInt + b.toInt, some (a.toNat + b.toNat), none⟩
  | .adde => some ⟨a.toInt + b.toInt + c, some (a.toNat + b.toNat + c), none⟩
  | .addme => some ⟨a.toInt - 1 + c, some (a.toNat + 0xFFFFFFFF + c), none⟩
  | .addze => some ⟨a.toInt + c, some (a.toNat + c), none⟩
  | .subf => some ⟨b.toInt - a.toInt, none, none⟩
  | .subfc => some ⟨b.toInt - a.toInt, some ((~~~a).toNat + b.toNat + 1),
      some ((b.toNat : Int) - a.toNat)⟩
  | .subfe => some ⟨b.toInt - a.toInt - 1 + c, some ((~~~a).toNat + b.toNat + c),
      some ((b.toNat : Int) - a.toNat - 1 + c)⟩
  | .subfme => some ⟨-a.toInt - 2 + c, some ((~~~a).toNat + 0xFFFFFFFF + c),
      some ((0xFFFFFFFF : Int) - a.toNat - 1 + c)⟩
  | .subfze => some ⟨-a.toInt - 1 + c, some ((~~~a).toNat + c),
      some ((0 : Int) - a.toNat - 1 + c)⟩
  | .neg => some ⟨-a.toInt, none, none⟩
  | .mullw | .mulhw | .mulhwu | .divw | .divwu => none

/-- The sum of a word and an immediate, with its carry. -/
def ExactSum.immediate (a v : Word) : ExactSum :=
  ⟨a.toInt + v.toInt, some (a.toNat + v.toNat), none⟩

/-- The difference of an immediate and a word, with its carry. -/
def ExactSum.fromImmediate (a v : Word) : ExactSum :=
  ⟨v.toInt - a.toInt, some ((~~~a).toNat + v.toNat + 1), some ((v.toNat : Int) - a.toNat)⟩

/-- Whether an integer is one of the signed words. -/
def FitsWord (n : Int) : Prop := -2 ^ 31 ≤ n ∧ n < 2 ^ 31

instance (n : Int) : Decidable (FitsWord n) := inferInstanceAs (Decidable (_ ∧ _))

/-- The bits that record a result in a condition register field: the sign of its word, and beside it
whether an overflow is on record. -/
def resultField (n : Int) (summary : Bool) : BitVec 4 :=
  let sign : BitVec 4 :=
    if (BitVec.ofInt 32 n).toInt < 0 then 0b1000
    else if (BitVec.ofInt 32 n).toInt = 0 then 0b0010
    else 0b0100
  if summary then sign ||| 0b0001 else sign

/-- What a sum leaves in the registers: `r` is before it and `r'` after it. -/
structure Registers.Adds (r : Registers) (x : ExactSum) (rd : Reg) (oe rc : Bool)
    (r' : Registers) : Prop where
  result : r'.gpr.read rd = BitVec.ofInt 32 x.signed
  others : ∀ i, i ≠ rd → r'.gpr.read i = r.gpr.read i
  /-- The carry tells whether the unsigned sum has reached the end of the words. -/
  carry : ∀ n, x.unsigned = some n → (r'.carry = true ↔ 2 ^ 32 ≤ n)
  /-- For a difference that is to say that there has been no borrow. -/
  borrow : ∀ d, x.difference = some d → (r'.carry = true ↔ 0 ≤ d)
  carry_kept : x.unsigned = none → r'.carry = r.carry
  /-- The overflow tells whether the signed result has no word. -/
  overflow : oe = true → (r'.overflow = true ↔ ¬ FitsWord x.signed)
  summary : oe = true → r'.summaryOverflow = (r.summaryOverflow || r'.overflow)
  overflow_kept : oe = false →
    r'.overflow = r.overflow ∧ r'.summaryOverflow = r.summaryOverflow
  /-- The record is of the result and of the summary overflow after the update. -/
  recorded : rc = true → r'.cr = Condition.setField r.cr 0 (resultField x.signed r'.summaryOverflow)
  unrecorded : rc = false → r'.cr = r.cr
  /-- Nothing else changes, neither in XER nor in the other registers. -/
  xer_kept : r'.xer &&& ~~~(Xer.ca ||| Xer.ov ||| Xer.so) =
    r.xer &&& ~~~(Xer.ca ||| Xer.ov ||| Xer.so)
  frame : r' = { r with gpr := r'.gpr, cr := r'.cr, xer := r'.xer }

/-! ## The adder -/

namespace Arith

/-- A word and its complement make minus one. -/
theorem toInt_complement (a : Word) : (~~~a).toInt = -a.toInt - 1 := by
  have hnot : (~~~a).toNat = 2 ^ 32 - 1 - a.toNat := BitVec.toNat_not
  have ha := a.isLt
  rw [BitVec.toInt_eq_toNat_cond, BitVec.toInt_eq_toNat_cond, hnot]
  split <;> split <;> omega

theorem value_addWithCarry (a b : Word) (carry : Bool) :
    (addWithCarry a b carry).1 = BitVec.ofInt 32 (a.toInt + b.toInt + carry.toNat) := by
  rw [BitVec.ofInt_add, BitVec.ofInt_add, BitVec.ofInt_toInt, BitVec.ofInt_toInt,
    BitVec.ofInt_natCast]
  apply BitVec.eq_of_toNat_eq
  simp [addWithCarry]

/-- The signs of the operands and of their sum tell whether the exact sum has a word, also if a carry
takes part: the operands of a sum that goes wrong have one sign, and the sum has the other. -/
theorem addOverflows_eq (a b : Word) (carry : Bool) :
    addOverflows a b (addWithCarry a b carry).1 =
      !decide (FitsWord (a.toInt + b.toInt + carry.toNat)) := by
  have ha := a.isLt
  have hb := b.isLt
  have hc := carry.toNat_le
  have hsum : (addWithCarry a b carry).1.toNat = (a.toNat + b.toNat + carry.toNat) % 2 ^ 32 :=
    BitVec.toNat_ofNat _ _
  rw [addOverflows, BitVec.msb_and, BitVec.msb_xor, BitVec.msb_xor]
  simp only [BitVec.msb_eq_decide, hsum, FitsWord, BitVec.toInt_eq_toNat_cond]
  by_cases hsigna : 2 ^ (32 - 1) ≤ a.toNat
  all_goals
    by_cases hsignb : 2 ^ (32 - 1) ≤ b.toNat
    all_goals
      by_cases hsign : 2 ^ (32 - 1) ≤ (a.toNat + b.toNat + carry.toNat) % 2 ^ 32
      all_goals
        simp [hsigna, hsignb, hsign]
        omega

/-- What the adder gives is the exact sum: its word, whether the unsigned sum goes beyond the words,
and whether the signed sum does. -/
theorem sum_eq (carrying : Bool) (a b : Word) (carry : Bool) :
    sum carrying a b carry =
      { value := BitVec.ofInt 32 (a.toInt + b.toInt + carry.toNat)
        carry := if carrying then some (decide (2 ^ 32 ≤ a.toNat + b.toNat + carry.toNat))
          else none
        overflow := some (!decide (FitsWord (a.toInt + b.toInt + carry.toNat))) } := by
  simp only [sum, addOverflows_eq]
  rw [value_addWithCarry]
  rfl

end Arith

/-! ## The results of the instructions -/

namespace ExactSum

/-- The result that an arithmetic instruction is to hand over for a sum. -/
def result (x : ExactSum) : ArithResult where
  value := BitVec.ofInt 32 x.signed
  carry := x.unsigned.map fun n => decide (2 ^ 32 ≤ n)
  overflow := some (!decide (FitsWord x.signed))

/-- A difference that records a carry records the one of the sum with the complement. -/
def Borrows (x : ExactSum) : Prop :=
  ∀ d, x.difference = some d → ∃ n, x.unsigned = some n ∧ (2 ^ 32 ≤ n ↔ 0 ≤ d)

end ExactSum

namespace Arith

variable {x : ExactSum}

/-- The adder hands over the result of an exact sum if its operands have that sum. -/
theorem sum_eq_result {carrying : Bool} {a b : Word} {carry : Bool}
    (hsigned : a.toInt + b.toInt + carry.toNat = x.signed)
    (hunsigned : x.unsigned =
      if carrying then some (a.toNat + b.toNat + carry.toNat) else none) :
    sum carrying a b carry = x.result := by
  rw [sum_eq, hsigned, ExactSum.result, hunsigned]
  cases carrying <;> rfl

theorem immediate_eq_result (a v : Word) :
    sum true a v false = (ExactSum.immediate a v).result :=
  sum_eq_result (Int.add_zero _) rfl

theorem fromImmediate_eq_result (a v : Word) :
    sum true (~~~a) v true = (ExactSum.fromImmediate a v).result := by
  refine sum_eq_result ?_ rfl
  rw [toInt_complement]
  show -a.toInt - 1 + v.toInt + 1 = v.toInt - a.toInt
  omega

/-- Every sum and difference of two registers is what its opcode is to compute. -/
theorem eval_eq_result {op : FixedArith} {a b : Word} {carry : Bool}
    (h : op.exactSum? a b carry = some x) : eval op a b carry = x.result := by
  have hcomplement : (~~~a).toInt = -a.toInt - 1 := toInt_complement a
  have hones : (-1 : Word).toInt = -1 := rfl
  have hzero : (0 : Word).toInt = 0 := rfl
  cases op
  case mullw | mulhw | mulhwu | divw | divwu => contradiction
  all_goals
    obtain rfl := Option.some.inj h
    apply sum_eq_result
  case add.hunsigned | addc.hunsigned | adde.hunsigned | addme.hunsigned | addze.hunsigned
    | subf.hunsigned | subfc.hunsigned | subfe.hunsigned | subfme.hunsigned | subfze.hunsigned
    | neg.hunsigned => rfl
  -- the signed sums are left, whose complements, ones and zeros are to be read as numbers
  all_goals simp only [hcomplement, hones, hzero, Bool.toNat_true, Bool.toNat_false]
  all_goals omega

end Arith

namespace ExactSum

theorem borrows_of_exactSum? {op : FixedArith} {a b : Word} {carry : Bool} {x : ExactSum}
    (h : op.exactSum? a b carry = some x) : x.Borrows := by
  have hnot : (~~~a).toNat = 2 ^ 32 - 1 - a.toNat := BitVec.toNat_not
  have ha := a.isLt
  cases op
  case mullw | mulhw | mulhwu | divw | divwu => contradiction
  all_goals
    obtain rfl := Option.some.inj h
    intro d hd
  case add | addc | adde | addme | addze | subf | neg => contradiction
  all_goals
    obtain rfl := Option.some.inj hd
    refine ⟨_, rfl, ?_⟩
    rw [hnot]
    omega

theorem borrows_immediate (a v : Word) : (immediate a v).Borrows := nofun

theorem borrows_fromImmediate (a v : Word) : (fromImmediate a v).Borrows := by
  have hnot : (~~~a).toNat = 2 ^ 32 - 1 - a.toNat := BitVec.toNat_not
  have ha := a.isLt
  intro d hd
  obtain rfl := Option.some.inj hd
  refine ⟨_, rfl, ?_⟩
  rw [hnot]
  omega

end ExactSum

/-! ## Writing a result back -/

namespace Registers

variable (r : Registers) (rd : Reg)

theorem gpr_finish (oe rc : Bool) (x : ArithResult) :
    (r.finish rd oe rc x).gpr = r.gpr.write rd x.value := by
  obtain ⟨value, carry, overflow⟩ := x
  cases oe <;> cases rc <;> cases carry <;> cases overflow <;> rfl

/-- The record of a result is of its sign and of the summary overflow that goes with it. -/
theorem cr_finish (oe rc : Bool) (x : ArithResult) :
    (r.finish rd oe rc x).cr =
      if rc then
        Condition.setField r.cr 0 (Condition.ofOrder (some (compare x.value.toInt 0)) |||
          if (r.finish rd oe rc x).summaryOverflow then Condition.so else 0)
      else r.cr := by
  obtain ⟨value, carry, overflow⟩ := x
  cases oe <;> cases rc <;> cases carry <;> cases overflow <;> rfl

/-- The carry that is recorded reads back, whatever becomes of the overflow. -/
theorem recorded_some_and_carry (c : Bool) (o : Option Bool) :
    r.recorded (some c) o &&& Xer.ca = if c then Xer.ca else 0#32 := by
  rw [recorded, xer_withOverflow_and _ (by decide) (by decide) o]
  cases c with
  | true => exact Xer.or_and_self r.xer Xer.ca
  | false =>
      show r.xer &&& ~~~Xer.ca &&& Xer.ca = 0#32
      rw [BitVec.and_assoc, BitVec.not_and_self]
      exact BitVec.and_zero

/-- The carry after a result has been written back is the result's own, if it has one. -/
theorem carry_finish (oe rc : Bool) (x : ArithResult) :
    (r.finish rd oe rc x).carry = x.carry.getD r.carry := by
  rw [carry, xer_finish]
  cases x.carry with
  | none =>
      rw [recorded_none_and_carry]
      rfl
  | some c =>
      rw [recorded_some_and_carry]
      cases c <;> rfl

theorem overflow_finish (oe rc : Bool) (x : ArithResult) :
    (r.finish rd oe rc x).overflow = (if oe then x.overflow else none).getD r.overflow := by
  rw [overflow, xer_finish, recorded_and_overflow]
  cases (if oe then x.overflow else none : Option Bool) with
  | none => rfl
  | some v => cases v <;> rfl

theorem summaryOverflow_finish (oe rc : Bool) (x : ArithResult) :
    (r.finish rd oe rc x).summaryOverflow =
      (r.summaryOverflow || (if oe then x.overflow else none).getD false) := by
  rw [summaryOverflow, xer_finish, recorded_and_summary]
  cases (if oe then x.overflow else none : Option Bool) with
  | none => exact (Bool.or_false _).symm
  | some v =>
      cases v with
      | false => exact (Bool.or_false _).symm
      | true => exact (Bool.or_true _).symm

end Registers

/-- The record of a word is the one of its sign. -/
theorem resultField_eq (n : Int) (summary : Bool) :
    resultField n summary =
      Condition.ofOrder (some (compare (BitVec.ofInt 32 n).toInt 0)) |||
        if summary then Condition.so else 0 := by
  show _ = Condition.ofOrder (some (compareOfLessAndEq (BitVec.ofInt 32 n).toInt 0)) ||| _
  rw [resultField, compareOfLessAndEq]
  by_cases hneg : (BitVec.ofInt 32 n).toInt < 0
  · rw [if_pos hneg, if_pos hneg]
    cases summary <;> rfl
  · rw [if_neg hneg, if_neg hneg]
    by_cases hzero : (BitVec.ofInt 32 n).toInt = 0
    · rw [if_pos hzero, if_pos hzero]
      cases summary <;> rfl
    · rw [if_neg hzero, if_neg hzero]
      cases summary <;> rfl

/-- A result that is written back leaves in the registers what its sum comes to. -/
theorem Registers.adds_finish (r : Registers) (rd : Reg) (oe rc : Bool) {x : ExactSum}
    (hx : x.Borrows) : r.Adds x rd oe rc (r.finish rd oe rc x.result) where
  result := by
    rw [gpr_finish, Bank.read_write_self]
    rfl
  others i hi := by
    rw [gpr_finish, Bank.read_write_of_ne _ _ hi.symm]
  carry n hn := by
    rw [carry_finish, ExactSum.result, hn]
    exact decide_eq_true_iff
  borrow d hd := by
    obtain ⟨n, hn, hiff⟩ := hx d hd
    rw [carry_finish, ExactSum.result, hn, ← hiff]
    exact decide_eq_true_iff
  carry_kept hn := by
    rw [carry_finish, ExactSum.result, hn]
    rfl
  overflow hoe := by
    rw [overflow_finish, hoe]
    show (!decide (FitsWord x.signed)) = true ↔ _
    rw [Bool.not_eq_true', decide_eq_false_iff_not]
  summary hoe := by
    rw [summaryOverflow_finish, overflow_finish, hoe]
    rfl
  overflow_kept hoe := by
    rw [summaryOverflow_finish, overflow_finish, hoe]
    exact ⟨rfl, Bool.or_false _⟩
  recorded hrc := by
    rw [cr_finish, hrc, resultField_eq]
    rfl
  unrecorded hrc := by
    rw [cr_finish, hrc]
    rfl
  xer_kept := by
    rw [xer_finish]
    exact r.recorded_and (by decide) (by decide) (by decide) _ _
  frame := r.finish_frame rd oe rc _

/-! ## Words -/

/-- What a word that adds leaves: it completes, changes no memory, and its registers are those that
the sum calls for. -/
structure Machine.Adds (m : Machine) (w : Word) (x : ExactSum) (oe rc : Bool) : Prop where
  completes : (m.execute w).failure = none
  memory : (m.execute w).machine.ram = m.ram
  registers : m.regs.Adds x (Field.rt w) oe rc (m.execute w).machine.regs

namespace Machine

variable {m : Machine} {w : Word} {x : ExactSum} {oe rc : Bool}

/-- A word adds if its instruction writes back the result of an exact sum. -/
theorem adds_of_finish {i : FixedInstr} (hi : Instr.ofWord w = .ok (.fixed i))
    (hexec : i.exec m.regs = m.regs.finish (Field.rt w) oe rc x.result) (hx : x.Borrows) :
    m.Adds w x oe rc := by
  have hdone : m.execute w = m.done (m.regs.finish (Field.rt w) oe rc x.result) := by
    rw [execute_of_ofWord hi]
    exact congrArg m.done hexec
  constructor
  case completes => rw [hdone, failure_done]
  case memory => rw [hdone, machine_done]
  case registers =>
    rw [hdone, machine_done]
    exact m.regs.adds_finish _ oe rc hx

theorem adds_of_arith {op : FixedArith} (hw : op.Selects w)
    (hx : op.exactSum? (m.regs.gpr.read (Field.ra w)) (m.regs.gpr.read (Field.rb w))
      m.regs.carry = some x) : m.Adds w x (Field.oe w) (Field.bit31 w) := by
  refine adds_of_finish (Instr.ofWord_of_arith hw) ?_ (ExactSum.borrows_of_exactSum? hx)
  rw [FixedInstr.exec, Arith.eval_eq_result hx]

/-- The two words that add an immediate and leave a carry differ in the record only. -/
theorem adds_immediate {op : Primary} (hop : op = if rc then .addicRc else .addic)
    (hw : op.Selects w) :
    m.Adds w (.immediate (m.regs.gpr.read (Field.ra w)) ((Field.immediate w).signExtend 32))
      false rc := by
  have hi : Instr.ofWord w = .ok (.fixed (.addImmediateCarrying (Field.rt w) (Field.ra w)
      ((Field.immediate w).signExtend 32) rc)) := by
    cases rc with
    | false =>
        obtain rfl : op = .addic := hop
        rw [Instr.ofWord_of_primary hw (by decide), Instr.ofDForm, hw.ofCode?_dForm]
        simp only [DForm.decode, Instr.reg_setWidth]
    | true =>
        obtain rfl : op = .addicRc := hop
        rw [Instr.ofWord_of_primary hw (by decide), Instr.ofDForm, hw.ofCode?_dForm]
        simp only [DForm.decode, Instr.reg_setWidth]
  refine adds_of_finish hi ?_ (ExactSum.borrows_immediate _ _)
  rw [FixedInstr.exec, Arith.immediate_eq_result]

theorem adds_fromImmediate (hw : Primary.subfic.Selects w) :
    m.Adds w (.fromImmediate (m.regs.gpr.read (Field.ra w)) ((Field.immediate w).signExtend 32))
      false false := by
  have hi : Instr.ofWord w = .ok (.fixed (.subtractFromImmediate (Field.rt w) (Field.ra w)
      ((Field.immediate w).signExtend 32))) := by
    rw [Instr.ofWord_of_primary hw (by decide), Instr.ofDForm, hw.ofCode?_dForm]
    simp only [DForm.decode, Instr.reg_setWidth]
  refine adds_of_finish hi ?_ (ExactSum.borrows_fromImmediate _ _)
  rw [FixedInstr.exec, Arith.fromImmediate_eq_result]

end Machine

/-- **Sums and differences are exact**, for every state and every word that adds or subtracts: the
result, the carry, the overflow with its summary and the record are those of the exact sum. -/
theorem sums_exact (m : Machine) (w : Word) :
    let a := m.regs.gpr.read (Field.ra w)
    let b := m.regs.gpr.read (Field.rb w)
    let v := (Field.immediate w).signExtend 32
    (∀ (op : FixedArith) (x : ExactSum), op.Selects w → op.exactSum? a b m.regs.carry = some x →
      m.Adds w x (Field.oe w) (Field.bit31 w)) ∧
    (Primary.addic.Selects w → m.Adds w (.immediate a v) false false) ∧
    (Primary.addicRc.Selects w → m.Adds w (.immediate a v) false true) ∧
    (Primary.subfic.Selects w → m.Adds w (.fromImmediate a v) false false) := by
  intro a b v
  refine ⟨fun op x hw hx => ?_, fun hw => ?_, fun hw => ?_, fun hw => ?_⟩
  · exact Machine.adds_of_arith hw hx
  · exact Machine.adds_immediate rfl hw
  · exact Machine.adds_immediate rfl hw
  · exact Machine.adds_fromImmediate hw

/-- `subfeo. r3, r3, r4` with a carry, of the least word from zero: the difference `0 - -2^31` has
no word, it borrows although a carry comes in, and the record has the summary beside the sign. -/
theorem sums_exact_difference :
    let r := (Registers.initial.setGpr 3 0x80000000#32).setCarry true
    let m : Machine := ⟨r, .ofBytes .empty⟩
    let w := 0x7C632511#32
    let x : ExactSum := ⟨2 ^ 31, some (2 ^ 31), some (-2 ^ 31)⟩
    FixedArith.subfe.Selects w ∧
      FixedArith.subfe.exactSum? (m.regs.gpr.read (Field.ra w)) (m.regs.gpr.read (Field.rb w))
        m.regs.carry = some x ∧
      m.Adds w x (Field.oe w) (Field.bit31 w) := by
  intro r m w x
  have hw : FixedArith.subfe.Selects w := by decide
  have hx : FixedArith.subfe.exactSum? (m.regs.gpr.read (Field.ra w))
      (m.regs.gpr.read (Field.rb w)) m.regs.carry = some x := by decide
  exact ⟨hw, hx, (sums_exact m w).1 .subfe x hw hx⟩

end Broadway
