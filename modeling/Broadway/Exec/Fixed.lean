import Broadway.Registers

/-!
# Fixed point instructions

An arithmetic instruction is a function from its operands and the carry to an `ArithResult`, which
says what the result is and what becomes of the carry and overflow bits; one function (`finish`)
writes such a result back. No fixed point instruction fails.

* A sum with carry is exact: value and carry together are the sum of the operands
  (`toNat_addWithCarry`).
-/

namespace Broadway

/-- What an arithmetic instruction leaves: `carry` and `overflow` are `none` where the instruction
does not touch the bit. -/
structure ArithResult where
  value : Word
  carry : Option Bool
  overflow : Option Bool

namespace Arith

/-- The sum of two words and a carry, with the carry out. -/
def addWithCarry (a b : Word) (carry : Bool) : Word × Bool :=
  let sum := a.toNat + b.toNat + carry.toNat
  (BitVec.ofNat 32 sum, 2 ^ 32 ≤ sum)

/-- A sum overflows when its sign differs from the sign that both operands have. -/
def addOverflows (a b sum : Word) : Bool := ((a ^^^ sum) &&& (b ^^^ sum)).msb

/-- The sum of two words and a carry; `carrying` forms record the carry out. -/
def sum (carrying : Bool) (a b : Word) (carry : Bool) : ArithResult :=
  let (value, out) := addWithCarry a b carry
  ⟨value, if carrying then some out else none, some (addOverflows a b value)⟩

/-- The quotient of signed words. Over zero it is minus one for a negative dividend and zero
otherwise, and zero for the one quotient that has no word. -/
def divSigned (a b : Word) : ArithResult :=
  if b = 0 ∨ (a = BitVec.intMin 32 ∧ b = -1) then
    ⟨if a.msb ∧ b = 0 then -1 else 0, none, some true⟩
  else ⟨a.sdiv b, none, some false⟩

/-- The quotient of unsigned words, zero over zero. -/
def divUnsigned (a b : Word) : ArithResult :=
  if b = 0 then ⟨0, none, some true⟩ else ⟨a / b, none, some false⟩

/-- The low word of a signed product, which overflows when the product has no signed word. -/
def mulLow (a b : Word) : ArithResult :=
  let value := a * b
  ⟨value, none, some (a.toInt * b.toInt != value.toInt)⟩

/-- The high word of a product of doublewords. -/
def mulHigh (a b : BitVec 64) : ArithResult := ⟨(a * b).extractLsb' 32 32, none, none⟩

/-- The result of an arithmetic instruction on the words of rA and rB. Subtraction adds the
complement. -/
def eval (op : Opcode.FixedArith) (a b : Word) (carry : Bool) : ArithResult :=
  match op with
  | .add => sum false a b false
  | .addc => sum true a b false
  | .adde => sum true a b carry
  | .addme => sum true a (-1) carry
  | .addze => sum true a 0 carry
  | .subf => sum false (~~~a) b true
  | .subfc => sum true (~~~a) b true
  | .subfe => sum true (~~~a) b carry
  | .subfme => sum true (~~~a) (-1) carry
  | .subfze => sum true (~~~a) 0 carry
  | .neg => sum false (~~~a) 0 true
  | .mullw => mulLow a b
  | .mulhw => mulHigh (a.signExtend 64) (b.signExtend 64)
  | .mulhwu => mulHigh (a.setWidth 64) (b.setWidth 64)
  | .divw => divSigned a b
  | .divwu => divUnsigned a b

theorem toNat_addWithCarry (a b : Word) (carry : Bool) :
    (addWithCarry a b carry).1.toNat + 2 ^ 32 * (addWithCarry a b carry).2.toNat
      = a.toNat + b.toNat + carry.toNat := by
  have ha := a.isLt
  have hb := b.isLt
  have hc := carry.toNat_le
  simp only [addWithCarry, BitVec.toNat_ofNat]
  by_cases h : 2 ^ 32 ≤ a.toNat + b.toNat + carry.toNat
  · rw [decide_eq_true h, Bool.toNat_true]
    omega
  · rw [decide_eq_false h, Bool.toNat_false]
    omega

end Arith

/-- The mask with ones from bit `first` through bit `last`, bit zero being the most significant
one. If `last` comes before `first` the ones go round the end of the word. -/
def rotationMask (first last : BitVec 5) : Word :=
  let mask := (0xFFFFFFFF#32 >>> first.toNat) ^^^ (0x7FFFFFFF#32 >>> last.toNat)
  if last < first then ~~~mask else mask

/-- A word rotated left by the low five bits of the amount. -/
def rotated (value amount : Word) : Word := value.rotateLeft (amount.toNat % 32)

def Logic.eval : Logic → Word → Word → Word
  | .and, a, b => a &&& b
  | .andc, a, b => a &&& ~~~b
  | .or, a, b => a ||| b
  | .orc, a, b => a ||| ~~~b
  | .xor, a, b => a ^^^ b
  | .nand, a, b => ~~~(a &&& b)
  | .nor, a, b => ~~~(a ||| b)
  | .eqv, a, b => ~~~(a ^^^ b)

def Unary.eval : Unary → Word → Word
  | .countLeadingZeros, a => a.clz
  | .extendByte, a => (a.setWidth 8).signExtend 32
  | .extendHalf, a => (a.setWidth 16).signExtend 32

/-- A shift by an amount of six bits. An algebraic shift sets the carry when a negative word loses
ones, so that adding the carry rounds the quotient toward zero. -/
def Shift.eval (op : Shift) (a amount : Word) : Word × Option Bool :=
  let n := amount.toNat % 64
  match op with
  | .left => (a <<< n, none)
  | .right => (a >>> n, none)
  | .algebraic => (a.sshiftRight n, some (a.msb && a.toNat % 2 ^ n != 0))

namespace Registers

/-- Sets the carry, if there is one to set. -/
def withCarry (r : Registers) : Option Bool → Registers
  | some c => r.setCarry c
  | none => r

/-- Writes the result of an arithmetic instruction back. -/
def finish (r : Registers) (rd : Reg) (oe rc : Bool) (x : ArithResult) : Registers :=
  let r := (r.withCarry x.carry).setGpr rd x.value
  let r := match oe, x.overflow with
    | true, some v => r.setOverflow v
    | _, _ => r
  if rc then r.recordResult x.value else r

/-- Writes a result that touches neither carry nor overflow. -/
def finishLogic (r : Registers) (ra : Reg) (rc : Bool) (value : Word) : Registers :=
  let r := r.setGpr ra value
  if rc then r.recordResult value else r

end Registers

namespace FixedInstr

def exec (i : FixedInstr) (r : Registers) : Registers :=
  match i with
  | .addImmediate rd ra v => r.setGpr rd (r.gprOrZero ra + v)
  | .addImmediateCarrying rd ra v rc =>
    r.finish rd false rc (Arith.sum true (r.gpr.read ra) v false)
  | .subtractFromImmediate rd ra v =>
    r.finish rd false false (Arith.sum true (~~~r.gpr.read ra) v true)
  | .multiplyImmediate rd ra v => r.setGpr rd (r.gpr.read ra * v)
  | .arith op rd ra rb oe rc =>
    r.finish rd oe rc (Arith.eval op (r.gpr.read ra) (r.gpr.read rb) r.carry)
  | .logic op ra rs b rc => r.finishLogic ra rc (op.eval (r.gpr.read rs) (r.operand b))
  | .unary op ra rs rc => r.finishLogic ra rc (op.eval (r.gpr.read rs))
  | .shift op ra rs amount rc =>
    let (value, carry) := op.eval (r.gpr.read rs) (r.operand amount)
    (r.withCarry carry).finishLogic ra rc value
  | .rotateAnd ra rs amount first last rc =>
    r.finishLogic ra rc
      (rotated (r.gpr.read rs) (r.operand amount) &&& rotationMask first last)
  | .rotateInsert ra rs amount first last rc =>
    let mask := rotationMask first last
    r.finishLogic ra rc
      ((rotated (r.gpr.read rs) (r.operand amount) &&& mask) ||| (r.gpr.read ra &&& ~~~mask))
  | .compare true field ra b => r.compareSigned field (r.gpr.read ra) (r.operand b)
  | .compare false field ra b => r.compareUnsigned field (r.gpr.read ra) (r.operand b)

end FixedInstr

/-- Whether one of the relations that a trap selects holds: signed less, signed greater, equal,
unsigned less, unsigned greater, from the most significant bit. -/
def trapCondition (options : BitVec 5) (a b : Word) : Bool :=
  (options.getLsbD 4 && a.slt b) || (options.getLsbD 3 && b.slt a) || (options.getLsbD 2 && a == b)
    || (options.getLsbD 1 && a.ult b) || (options.getLsbD 0 && b.ult a)

end Broadway
