import Broadway.Exec
import Broadway.Proofs.Checked.Registers

/-!
# Register instructions with checked arithmetic

The fixed point, branch, condition register and system instructions once more. Wrapping arithmetic,
rotations and logic cannot stop and are taken over from the instruction as they are, and so is the
unsigned quotient, which has a result over zero. Sums and products in doublewords, shifts by a
register, signed quotients, masks and the places of fields are checked.

* Each unit does under checks what it does without (`Checked.execFixed_eq`,
  `Checked.execBranch_eq`, `Checked.execCondition_eq`, `Checked.execSystem_eq`).
-/

namespace Broadway.Checked

/-! ## Arithmetic -/

/-- The sum of two words and a carry, worked out in a doubleword. -/
def addWithCarry (a b : Word) (carry : Bool) : Checked (Word × Bool) := do
  let sum ← add (BitVec.ofNat 64 a.toNat) (BitVec.ofNat 64 b.toNat)
  let sum ← add sum (BitVec.ofNat 64 carry.toNat)
  return (sum.setWidth 32, 2 ^ 32 ≤ sum.toNat)

def sum (carrying : Bool) (a b : Word) (carry : Bool) : Checked ArithResult := do
  let (value, out) ← addWithCarry a b carry
  return ⟨value, if carrying then some out else none, some (Arith.addOverflows a b value)⟩

/-- The low word of a product of signed doublewords. -/
def mulLow (a b : Word) : Checked ArithResult := do
  let product ← mulSigned (a.signExtend 64) (b.signExtend 64)
  let value := product.setWidth 32
  return ⟨value, none, some (product != value.signExtend 64)⟩

def mulHighSigned (a b : Word) : Checked ArithResult := do
  let product ← mulSigned (a.signExtend 64) (b.signExtend 64)
  let high ← sshr product 32
  return ⟨high.setWidth 32, none, none⟩

def mulHighUnsigned (a b : Word) : Checked ArithResult := do
  let product ← mul (a.setWidth 64) (b.setWidth 64)
  let high ← shr product 32
  return ⟨high.setWidth 32, none, none⟩

/-- The quotients that have no value are told apart before there is a division. -/
def quotient (a b : Word) : Checked ArithResult := do
  if b = 0 ∨ (a = BitVec.intMin 32 ∧ b = -1) then
    return ⟨if a.msb ∧ b = 0 then -1 else 0, none, some true⟩
  else return ⟨← divSigned a b, none, some false⟩

def arith (op : Opcode.FixedArith) (a b : Word) (carry : Bool) : Checked ArithResult :=
  match op with
  | .add => sum false a b false
  | .addc => sum true a b false
  | .adde => sum true a b carry
  | .addme => sum true a (-1) carry
  | .addze => sum true a 0 carry
  | .subf => sum false (~~~a) b true
  | .subfc => sum true (~~~a) b true
  | .subfe => sum true (~~~a) b carry
  | .subfme => sum true (~~~a) (-1) carry
  | .subfze => sum true (~~~a) 0 carry
  | .neg => sum false (~~~a) 0 true
  | .mullw => mulLow a b
  | .mulhw => mulHighSigned a b
  | .mulhwu => mulHighUnsigned a b
  | .divw => quotient a b
  | .divwu => return Arith.divUnsigned a b

/-! ## Masks and shifts -/

def rotationMask (first last : BitVec 5) : Checked Word := do
  let begin ← shr 0xFFFFFFFF#32 first.toNat
  let stop ← shr 0x7FFFFFFF#32 last.toNat
  let mask := begin ^^^ stop
  return if last < first then ~~~mask else mask

/-- A shift by more than 31 is told apart before there is a shift. The ones that an algebraic shift
loses lie under a mask that is a power of two less one. -/
def shift (op : Shift) (a amount : Word) : Checked (Word × Option Bool) := do
  let n := amount.toNat % 64
  match op with
  | .left => if 31 < n then return (0, none) else return (← shl a n, none)
  | .right => if 31 < n then return (0, none) else return (← shr a n, none)
  | .algebraic =>
    if 31 < n then return (if a.msb then -1 else 0, some a.msb)
    else
      let power ← shl 1#32 n
      let mask ← sub power 1#32
      let result ← sshr a n
      return (result, some (a.msb && a &&& mask != 0))

/-! ## Units -/

/-- Writes the result of an arithmetic instruction back. -/
def finish (r : Registers) (rd : Reg) (oe rc : Bool) (x : ArithResult) : Checked Registers :=
  recordResultIf (r.finish rd oe false x) rc x.value

def finishLogic (r : Registers) (ra : Reg) (rc : Bool) (value : Word) : Checked Registers :=
  recordResultIf (r.finishLogic ra false value) rc value

def execFixed (i : FixedInstr) (r : Registers) : Checked Registers := do
  match i with
  | .addImmediateCarrying rd ra v rc =>
    finish r rd false rc (← sum true (r.gpr.read ra) v false)
  | .subtractFromImmediate rd ra v =>
    finish r rd false false (← sum true (~~~r.gpr.read ra) v true)
  | .arith op rd ra rb oe rc =>
    finish r rd oe rc (← arith op (r.gpr.read ra) (r.gpr.read rb) r.carry)
  | .logic op ra rs b rc => finishLogic r ra rc (op.eval (r.gpr.read rs) (r.operand b))
  | .unary op ra rs rc => finishLogic r ra rc (op.eval (r.gpr.read rs))
  | .shift op ra rs amount rc =>
    let (value, carry) ← shift op (r.gpr.read rs) (r.operand amount)
    finishLogic (r.withCarry carry) ra rc value
  | .rotateAnd ra rs amount first last rc =>
    let mask ← rotationMask first last
    finishLogic r ra rc (rotated (r.gpr.read rs) (r.operand amount) &&& mask)
  | .rotateInsert ra rs amount first last rc =>
    let mask ← rotationMask first last
    finishLogic r ra rc
      ((rotated (r.gpr.read rs) (r.operand amount) &&& mask) ||| (r.gpr.read ra &&& ~~~mask))
  | .compare true field ra b => compareSigned r field (r.gpr.read ra) (r.operand b)
  | .compare false field ra b => compareUnsigned r field (r.gpr.read ra) (r.operand b)
  -- sums and products that wrap
  | .addImmediate .. | .multiplyImmediate .. => return i.exec r

def execBranch (i : BranchInstr) (r : Registers) : Checked Registers := do
  match i with
  | .always .. => return i.exec r
  | .conditional bo bi target lk =>
    let policy := BranchPolicy.ofBo bo
    let ctr := if policy.decrements then r.ctr - 1 else r.ctr
    let condition ← readBit r.cr bi
    let npc := if policy.taken ctr condition then r.destination target else r.npc
    return { r with ctr := ctr, npc := npc }.linked lk

def execCondition (i : ConditionInstr) (r : Registers) : Checked Registers := do
  match i with
  | .moveField target source => setCrField r target (← readField r.cr source)
  | .combine op target a b =>
    setCrBit r target (op.evalBit (← readBit r.cr a) (← readBit r.cr b))
  | .toRegister .. => return i.exec r
  | .fromRegister mask rs =>
    let fields ← spread fieldShift mask
    return { r with cr := (r.cr &&& ~~~fields) ||| (r.gpr.read rs &&& fields) }
  | .fromXer field =>
    let status ← shr r.xer 28
    let r' ← setCrField r field (status.setWidth 4)
    return { r' with xer := r.xer &&& 0x0FFFFFFF#32 }

/-- The number of the segment register that is meant. -/
def segmentNumber (r : Registers) : Segment → Checked (BitVec 4)
  | .direct n => return n
  | .indirect rb => do
    let high ← shr (r.gpr.read rb) 28
    index 4 high.toNat

def execSystem (i : SystemInstr) (r : Registers) : Checked Registers := do
  match i with
  | .fromSpecial rd n => return r.setGpr rd (← special r n.toNat)
  | .toSpecial n rs =>
    let value := r.gpr.read rs
    setSpecial r n.toNat (if n.toNat = Spr.xer then value &&& Xer.writable else value)
  | .fromTimeBase rd true =>
    let high ← shr r.tb 32
    return r.setGpr rd (high.setWidth 32)
  | .fromSegment rd s => return r.setGpr rd (r.sr.read (← segmentNumber r s))
  | .toSegment s rs => return { r with sr := r.sr.write (← segmentNumber r s) (r.gpr.read rs) }
  | .fromTimeBase _ false | .fromMsr .. | .toMsr .. | .call | .returnFromInterrupt | .nothing =>
    return i.exec r

/-! ## Arithmetic does not stop -/

@[simp]
theorem addWithCarry_eq (a b : Word) (carry : Bool) :
    addWithCarry a b carry = .ok (Arith.addWithCarry a b carry) := by
  have ha : a.toNat < 2 ^ 32 := a.isLt
  have hb : b.toNat < 2 ^ 32 := b.isLt
  have hc : carry.toNat ≤ 1 := carry.toNat_le
  have hsum : (BitVec.ofNat 64 (a.toNat + b.toNat + carry.toNat)).toNat
      = a.toNat + b.toNat + carry.toNat := toNat_ofNat_of_lt (by omega)
  rw [addWithCarry, add_ofNat (by omega), ok_bind, add_ofNat (by omega), ok_bind, pure_eq, hsum,
    Arith.addWithCarry, BitVec.setWidth_ofNat_of_le (by decide)]

@[simp]
theorem sum_eq (carrying : Bool) (a b : Word) (carry : Bool) :
    sum carrying a b carry = .ok (Arith.sum carrying a b carry) := by
  rw [sum, addWithCarry_eq, ok_bind]
  rfl

theorem natAbs_toInt_le (a : Word) : a.toInt.natAbs ≤ 2 ^ 31 := by
  have hlow : -2 ^ 31 ≤ a.toInt := BitVec.le_toInt a
  have hhigh : a.toInt < 2 ^ 31 := BitVec.toInt_lt
  omega

/-- The product of two signed words is a signed doubleword. -/
theorem fitsSigned_mul (a b : Word) : FitsSigned 64 (a.toInt * b.toInt) := by
  have hproduct : (a.toInt * b.toInt).natAbs ≤ 2 ^ 31 * 2 ^ 31 := by
    rw [Int.natAbs_mul]
    exact Nat.mul_le_mul (natAbs_toInt_le a) (natAbs_toInt_le b)
  unfold FitsSigned
  omega

theorem toInt_extend (a : Word) : (a.signExtend 64).toInt = a.toInt :=
  BitVec.toInt_signExtend_of_le (by decide)

theorem mulSigned_extend (a b : Word) :
    mulSigned (a.signExtend 64) (b.signExtend 64) = .ok (a.signExtend 64 * b.signExtend 64) := by
  refine require_of ?_ _ _
  rw [toInt_extend, toInt_extend]
  exact fitsSigned_mul a b

theorem toInt_product (a b : Word) :
    (a.signExtend 64 * b.signExtend 64).toInt = a.toInt * b.toInt := by
  have hfits := fitsSigned_mul a b
  unfold FitsSigned at hfits
  rw [BitVec.toInt_mul, toInt_extend, toInt_extend]
  exact Int.bmod_eq_of_le (by omega) (by omega)

theorem setWidth_extend (a : Word) : (a.signExtend 64).setWidth 32 = a := by
  apply BitVec.eq_of_getLsbD_eq
  intro i hi
  have hlong : i < 64 := by omega
  rw [BitVec.getLsbD_setWidth, BitVec.getLsbD_signExtend]
  simp [hi, hlong]

/-- The product overflows a word exactly if it is not the extension of its low word. -/
theorem mulLow_eq (a b : Word) : mulLow a b = .ok (Arith.mulLow a b) := by
  have hlow : (a.signExtend 64 * b.signExtend 64).setWidth 32 = a * b := by
    rw [BitVec.setWidth_mul _ _ (by decide), setWidth_extend, setWidth_extend]
  have hoverflow : (a.signExtend 64 * b.signExtend 64 != (a * b).signExtend 64)
      = (a.toInt * b.toInt != (a * b).toInt) := by
    rw [bne, bne, ← toInt_product, ← toInt_extend (a * b)]
    congr 1
    rw [Bool.eq_iff_iff, beq_iff_eq, beq_iff_eq, BitVec.toInt_inj]
  rw [mulLow, mulSigned_extend, ok_bind, pure_eq, hlow, hoverflow, Arith.mulLow]

theorem mulHighSigned_eq (a b : Word) :
    mulHighSigned a b = .ok (Arith.mulHigh (a.signExtend 64) (b.signExtend 64)) := by
  have hhigh (x : BitVec 64) : (x.sshiftRight 32).setWidth 32 = x.extractLsb' 32 32 := by
    apply BitVec.eq_of_getLsbD_eq
    intro i hi
    have hin : 32 + i < 64 := by omega
    have hout : ¬64 ≤ i := by omega
    rw [BitVec.getLsbD_setWidth, BitVec.getLsbD_sshiftRight, BitVec.getLsbD_extractLsb']
    simp [hi, hin, hout]
  rw [mulHighSigned, mulSigned_extend, ok_bind, sshr_eq (by decide), ok_bind, pure_eq, hhigh,
    Arith.mulHigh]

theorem mulHighUnsigned_eq (a b : Word) :
    mulHighUnsigned a b = .ok (Arith.mulHigh (a.setWidth 64) (b.setWidth 64)) := by
  have hproduct : (a.setWidth 64).toNat * (b.setWidth 64).toNat < 2 ^ 64 := by
    rw [BitVec.toNat_setWidth_of_le (by decide), BitVec.toNat_setWidth_of_le (by decide)]
    calc a.toNat * b.toNat
        < 2 ^ 32 * 2 ^ 32 := Nat.mul_lt_mul'' a.isLt b.isLt
      _ = 2 ^ 64 := by decide
  rw [mulHighUnsigned, mul, require_of hproduct, ok_bind, shr_eq (by decide), ok_bind, pure_eq,
    Arith.mulHigh]
  rfl

theorem quotient_eq (a b : Word) : quotient a b = .ok (Arith.divSigned a b) := by
  unfold quotient Arith.divSigned
  split
  · rfl
  · next hvalue => rw [divSigned, require_of (not_or.1 hvalue), ok_bind, pure_eq]

@[simp]
theorem arith_eq (op : Opcode.FixedArith) (a b : Word) (carry : Bool) :
    arith op a b carry = .ok (Arith.eval op a b carry) := by
  cases op with
  | mullw => exact mulLow_eq a b
  | mulhw => exact mulHighSigned_eq a b
  | mulhwu => exact mulHighUnsigned_eq a b
  | divw => exact quotient_eq a b
  | divwu => rfl
  | _ => exact sum_eq _ _ _ _

/-! ## Masks and shifts do not stop -/

@[simp]
theorem rotationMask_eq (first last : BitVec 5) :
    rotationMask first last = .ok (Broadway.rotationMask first last) := by
  rw [rotationMask, shr_eq first.isLt, ok_bind, shr_eq last.isLt, ok_bind, pure_eq,
    Broadway.rotationMask]

variable {n : Nat}

theorem toNat_lt_two_pow (h : 31 < n) (a : Word) : a.toNat < 2 ^ n :=
  Nat.lt_of_lt_of_le a.isLt (Nat.pow_le_pow_right (by decide) h)

theorem ushiftRight_of_wide (h : 31 < n) (a : Word) : a >>> n = 0 := by
  apply BitVec.eq_of_toNat_eq
  rw [BitVec.toNat_ushiftRight, Nat.shiftRight_eq_div_pow,
    Nat.div_eq_of_lt (toNat_lt_two_pow h a)]
  rfl

theorem sshiftRight_of_wide (h : 31 < n) (a : Word) :
    a.sshiftRight n = if a.msb then -1 else 0 := by
  apply BitVec.eq_of_getLsbD_eq
  intro i hi
  have hout : ¬n + i < 32 := by omega
  have hin : ¬32 ≤ i := by omega
  rw [BitVec.getLsbD_sshiftRight, if_neg hout]
  cases a.msb with
  | false => simp
  | true =>
      show (!decide (32 ≤ i) && true) = (BitVec.allOnes 32).getLsbD i
      rw [BitVec.getLsbD_allOnes, decide_eq_true hi, decide_eq_false hin]
      rfl

/-- A negative word that loses all its bits loses ones. -/
theorem lost_of_wide (h : 31 < n) (a : Word) : (a.msb && a.toNat % 2 ^ n != 0) = a.msb := by
  rw [Nat.mod_eq_of_lt (toNat_lt_two_pow h a)]
  cases hsign : a.msb with
  | false => rfl
  | true =>
      have hlarge : 2 ^ 31 ≤ a.toNat := by
        rw [BitVec.msb_eq_decide] at hsign
        exact of_decide_eq_true hsign
      have hne : a.toNat ≠ 0 := by omega
      rw [Bool.true_and, bne_iff_ne.2 hne]

/-- The bits under the mask are the ones that a shift loses. -/
theorem lost_eq (h : n < 32) (a : Word) :
    (a &&& BitVec.ofNat 32 (2 ^ n - 1) != 0) = (a.toNat % 2 ^ n != 0) := by
  have hpow : 2 ^ n ≤ 2 ^ 31 := Nat.pow_le_pow_right (by decide) (by omega)
  have hmask : (a &&& BitVec.ofNat 32 (2 ^ n - 1)).toNat = a.toNat % 2 ^ n := by
    rw [BitVec.toNat_and, toNat_ofNat_of_lt (by omega), Nat.and_two_pow_sub_one_eq_mod]
  rw [← hmask, bne, bne]
  congr 1
  rw [Bool.eq_iff_iff]
  simp [← BitVec.toNat_inj]

@[simp]
theorem shift_eq (op : Shift) (a amount : Word) : shift op a amount = .ok (op.eval a amount) := by
  unfold shift Shift.eval
  dsimp only
  generalize amount.toNat % 64 = n
  cases op with
  | left =>
      dsimp only
      split
      · next hwide => rw [BitVec.shiftLeft_eq_zero hwide]; rfl
      · next hshift => rw [shl_eq (by omega)]; rfl
  | right =>
      dsimp only
      split
      · next hwide => rw [ushiftRight_of_wide hwide]; rfl
      · next hshift => rw [shr_eq (by omega)]; rfl
  | algebraic =>
      dsimp only
      split
      · next hwide => rw [sshiftRight_of_wide hwide, lost_of_wide hwide]; rfl
      · next hshift =>
        have hn : n < 32 := by omega
        have hpow : 2 ^ n ≤ 2 ^ 31 := Nat.pow_le_pow_right (by decide) (by omega)
        have hpos : 0 < 2 ^ n := Nat.two_pow_pos n
        have hpower : 1#32 <<< n = BitVec.ofNat 32 (2 ^ n) := by
          apply BitVec.eq_of_toNat_eq
          simp [Nat.shiftLeft_eq]
        rw [shl_eq hn, ok_bind, hpower, sub_ofNat (by omega) hpos, ok_bind, sshr_eq hn, ok_bind,
          pure_eq, lost_eq hn]

/-! ## No unit stops -/

@[simp]
theorem finish_eq (r : Registers) (rd : Reg) (oe rc : Bool) (x : ArithResult) :
    finish r rd oe rc x = .ok (r.finish rd oe rc x) := by
  rw [finish, recordResultIf_eq]
  cases rc <;> rfl

@[simp]
theorem finishLogic_eq (r : Registers) (ra : Reg) (rc : Bool) (value : Word) :
    finishLogic r ra rc value = .ok (r.finishLogic ra rc value) := by
  rw [finishLogic, recordResultIf_eq]
  cases rc <;> rfl

theorem execFixed_eq (i : FixedInstr) (r : Registers) : execFixed i r = .ok (i.exec r) := by
  cases i with
  | addImmediate | multiplyImmediate => rfl
  | compare signed => cases signed <;> exact setCrField_eq _ _ _
  | _ => simp [execFixed, FixedInstr.exec]

theorem execBranch_eq (i : BranchInstr) (r : Registers) : execBranch i r = .ok (i.exec r) := by
  cases i with
  | always => rfl
  | conditional =>
    simp only [execBranch, BranchInstr.exec, Registers.crBit, readBit_eq, ok_bind, pure_eq]
    rfl

theorem execCondition_eq (i : ConditionInstr) (r : Registers) :
    execCondition i r = .ok (i.exec r) := by
  cases i with
  | toRegister => rfl
  | moveField target source => simp [execCondition, ConditionInstr.exec, Registers.crField]
  | combine => simp [execCondition, ConditionInstr.exec, Registers.crBit]
  | fromRegister =>
    simp [execCondition, ConditionInstr.exec, spread_eq fieldShift_eq, Condition.blend]
  | fromXer field =>
    simp (disch := decide) only [execCondition, shr_eq, setCrField_eq, ok_bind, pure_eq]
    rfl

theorem segmentNumber_eq (r : Registers) (s : Segment) :
    segmentNumber r s = .ok (r.segmentNumber s) := by
  cases s with
  | direct => rfl
  | indirect rb =>
    have hword : (r.gpr.read rb).toNat < 2 ^ 32 := (r.gpr.read rb).isLt
    have hhigh : (r.gpr.read rb >>> 28).toNat < 2 ^ 4 := by
      rw [BitVec.toNat_ushiftRight, Nat.shiftRight_eq_div_pow]
      omega
    rw [segmentNumber, shr_eq (by decide), ok_bind, index_eq hhigh]
    rfl

theorem execSystem_eq (i : SystemInstr) (r : Registers) : execSystem i r = .ok (i.exec r) := by
  cases i with
  | fromSpecial | toSpecial => simp [execSystem, SystemInstr.exec]
  | fromSegment | toSegment => simp [execSystem, SystemInstr.exec, segmentNumber_eq]
  | fromTimeBase rd upper => cases upper <;> rfl
  | _ => rfl

end Broadway.Checked
