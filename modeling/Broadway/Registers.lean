import Broadway.Bank
import Broadway.Instr
import Broadway.Registers.Condition
import Broadway.Registers.Names

/-!
# The registers

All the state that instructions keep outside memory. Integer registers, LR, CTR and the program
counter have 32 bits. A floating point register holds two lanes, each a double as its bits, so that
the payload of a NaN survives a move. The special purpose registers that have a component of their
own are reached by number through `special` and `setSpecial`; all others live in the bank `spr`.
-/

namespace Broadway

/-- The two lanes of a floating point register. Scalar instructions work on `ps0`. -/
structure Lanes where
  ps0 : Double
  ps1 : Double
  deriving DecidableEq

namespace Lanes

/-- The same value in both lanes. -/
def both (x : Double) : Lanes := ⟨x, x⟩

end Lanes

structure Registers where
  gpr : Bank 5 Word
  fpr : Bank 5 Lanes
  /-- Condition register. -/
  cr : Word
  /-- Fixed point exception register. -/
  xer : Word
  /-- Floating point status and control register. -/
  fpscr : Word
  /-- Link register. -/
  lr : Word
  /-- Count register. -/
  ctr : Word
  /-- Address of the current instruction. -/
  pc : Word
  /-- Address of the next instruction. -/
  npc : Word
  /-- Machine state register. -/
  msr : Word
  srr0 : Word
  srr1 : Word
  /-- Address of the last data access fault. -/
  dar : Word
  /-- Cause of the last data access fault. -/
  dsisr : Word
  /-- Time base. -/
  tb : BitVec 64
  /-- Segment registers. -/
  sr : Bank 4 Word
  /-- Graphics quantization registers. -/
  gqr : Bank 3 Word
  /-- The address that a reserving load has reserved. -/
  reservation : Option Word
  /-- Special purpose registers without a component of their own. -/
  spr : Bank 10 Word
  deriving DecidableEq

namespace Registers

/-- The registers after a reset: all zero but the processor version. -/
def initial : Registers where
  gpr := .fill 5 0
  fpr := .fill 5 (.both 0)
  cr := 0
  xer := 0
  fpscr := 0
  lr := 0
  ctr := 0
  pc := 0
  npc := 0
  msr := 0
  srr0 := 0
  srr1 := 0
  dar := 0
  dsisr := 0
  tb := 0
  sr := .fill 4 0
  gqr := .fill 3 0
  reservation := none
  spr := (Bank.fill 10 0).write (BitVec.ofNat 10 Spr.pvr) Spr.version

/-- A register as a base of an address: register zero stands for the number zero. -/
def gprOrZero (r : Registers) (i : Reg) : Word := if i = 0 then 0 else r.gpr.read i

def setGpr (r : Registers) (i : Reg) (v : Word) : Registers := { r with gpr := r.gpr.write i v }

def setFpr (r : Registers) (i : Reg) (v : Lanes) : Registers := { r with fpr := r.fpr.write i v }

/-- Writes `ps0` and leaves `ps1` alone. -/
def setPs0 (r : Registers) (i : Reg) (v : Double) : Registers :=
  r.setFpr i { r.fpr.read i with ps0 := v }

def setPs1 (r : Registers) (i : Reg) (v : Double) : Registers :=
  r.setFpr i { r.fpr.read i with ps1 := v }

/-! ## Condition register -/

def crField (r : Registers) (n : BitVec 3) : BitVec 4 := Condition.field r.cr n

def setCrField (r : Registers) (n : BitVec 3) (v : BitVec 4) : Registers :=
  { r with cr := Condition.setField r.cr n v }

def crBit (r : Registers) (b : BitVec 5) : Bool := Condition.bit r.cr b

def setCrBit (r : Registers) (b : BitVec 5) (v : Bool) : Registers :=
  { r with cr := Condition.setBit r.cr b v }

/-! ## Fixed point exceptions -/

def summaryOverflow (r : Registers) : Bool := r.xer &&& Xer.so != 0

def overflow (r : Registers) : Bool := r.xer &&& Xer.ov != 0

def carry (r : Registers) : Bool := r.xer &&& Xer.ca != 0

def setCarry (r : Registers) (v : Bool) : Registers :=
  { r with xer := if v then r.xer ||| Xer.ca else r.xer &&& ~~~Xer.ca }

/-- Records whether the last operation overflowed; an overflow is summarised as well. -/
def setOverflow (r : Registers) (v : Bool) : Registers :=
  { r with xer := if v then r.xer ||| Xer.ov ||| Xer.so else r.xer &&& ~~~Xer.ov }

/-- The count of the indexed string instructions. -/
def byteCount (r : Registers) : Nat := (r.xer &&& Xer.byteCount).toNat

/-! ## Records of results -/

/-- Records an order in a field, with the summary overflow beside it. -/
def recordOrder (r : Registers) (n : BitVec 3) (o : Option Ordering) : Registers :=
  r.setCrField n (Condition.ofOrder o ||| if r.summaryOverflow then Condition.so else 0)

/-- Compares two words as signed numbers. -/
def compareSigned (r : Registers) (n : BitVec 3) (a b : Word) : Registers :=
  r.recordOrder n (some (compare a.toInt b.toInt))

/-- Compares two words as unsigned numbers. -/
def compareUnsigned (r : Registers) (n : BitVec 3) (a b : Word) : Registers :=
  r.recordOrder n (some (compare a.toNat b.toNat))

/-- Records the sign of an integer result in field zero. -/
def recordResult (r : Registers) (result : Word) : Registers := r.compareSigned 0 result 0

/-- Records the floating point exception summaries in field one. -/
def recordStatus (r : Registers) : Registers := r.setCrField 1 (r.fpscr.extractLsb' 28 4)

/-! ## Special purpose registers -/

/-- Reads a special purpose register. Numbers beyond ten bits name the cell of their low bits. -/
def special (r : Registers) (n : Nat) : Word :=
  if n = Spr.xer then r.xer
  else if n = Spr.lr then r.lr
  else if n = Spr.ctr then r.ctr
  else if n = Spr.dsisr then r.dsisr
  else if n = Spr.dar then r.dar
  else if n = Spr.srr0 then r.srr0
  else if n = Spr.srr1 then r.srr1
  else if n = Spr.tblRead ∨ n = Spr.tblWrite then r.tb.extractLsb' 0 32
  else if n = Spr.tbuRead ∨ n = Spr.tbuWrite then r.tb.extractLsb' 32 32
  else if Spr.gqr0 ≤ n ∧ n ≤ Spr.gqr7 then r.gqr.read (BitVec.ofNat 3 (n - Spr.gqr0))
  else r.spr.read (BitVec.ofNat 10 n)

/-- Writes a special purpose register; the halves of the time base are written one by one. -/
def setSpecial (r : Registers) (n : Nat) (v : Word) : Registers :=
  if n = Spr.xer then { r with xer := v }
  else if n = Spr.lr then { r with lr := v }
  else if n = Spr.ctr then { r with ctr := v }
  else if n = Spr.dsisr then { r with dsisr := v }
  else if n = Spr.dar then { r with dar := v }
  else if n = Spr.srr0 then { r with srr0 := v }
  else if n = Spr.srr1 then { r with srr1 := v }
  else if n = Spr.tblRead ∨ n = Spr.tblWrite then { r with tb := r.tb.extractLsb' 32 32 ++ v }
  else if n = Spr.tbuRead ∨ n = Spr.tbuWrite then { r with tb := v ++ r.tb.extractLsb' 0 32 }
  else if Spr.gqr0 ≤ n ∧ n ≤ Spr.gqr7 then
    { r with gqr := r.gqr.write (BitVec.ofNat 3 (n - Spr.gqr0)) v }
  else { r with spr := r.spr.write (BitVec.ofNat 10 n) v }

/-! ## Operands -/

/-- The value of an operand. -/
def operand (r : Registers) : Operand → Word
  | .reg i => r.gpr.read i
  | .imm v => v

/-- The effective address of a memory instruction. -/
def effective (r : Registers) : Address → Word
  | .displaced b d => r.gprOrZero b + d
  | .indexed b i => r.gprOrZero b + r.gpr.read i

end Registers

end Broadway
