import Broadway.Encoding.Opcode
import Broadway.Word

/-!
# Instructions

What the processor is asked to do, free of how it is written in a word. Instructions are grouped by
the state on which they work, so that a group's type already says what its members cannot touch:
fixed point, branch, condition register, system, floating point and paired single instructions read
and write registers only and always complete; traps may stop a program; memory instructions are the
only ones that reach guest memory. Operand combinations that the architecture forbids have no
instruction here, unless a register decides whether they are forbidden.
-/

namespace Broadway

/-- An operand: a register or a number in the instruction. -/
inductive Operand
  | reg (r : Reg)
  | imm (value : Word)
  deriving DecidableEq

/-- Where a memory instruction finds its effective address. Register zero as a base stands for the
number zero. -/
inductive Address
  | displaced (base : Reg) (displacement : Word)
  | indexed (base index : Reg)
  deriving DecidableEq

namespace Address

def base : Address → Reg
  | .displaced b _ => b
  | .indexed b _ => b

/-- The registers that an address names. -/
def registers : Address → List Reg
  | .displaced b _ => [b]
  | .indexed b i => [b, i]

end Address

/-- Bitwise operations on two words. -/
inductive Logic
  | and | andc | or | orc | xor | nand | nor | eqv
  deriving DecidableEq

/-- Operations on one word. -/
inductive Unary
  | countLeadingZeros | extendByte | extendHalf
  deriving DecidableEq

inductive Shift
  | left | right | algebraic
  deriving DecidableEq

/-- Fixed point instructions. -/
inductive FixedInstr
  /-- Adds an immediate to a register, register zero standing for the number zero. -/
  | addImmediate (rd ra : Reg) (value : Word)
  | addImmediateCarrying (rd ra : Reg) (value : Word) (rc : Bool)
  | subtractFromImmediate (rd ra : Reg) (value : Word)
  | multiplyImmediate (rd ra : Reg) (value : Word)
  | arith (op : Opcode.FixedArith) (rd ra rb : Reg) (oe rc : Bool)
  | logic (op : Logic) (ra rs : Reg) (b : Operand) (rc : Bool)
  | unary (op : Unary) (ra rs : Reg) (rc : Bool)
  | shift (op : Shift) (ra rs : Reg) (amount : Operand) (rc : Bool)
  /-- Rotates and keeps the bits under the mask. -/
  | rotateAnd (ra rs : Reg) (amount : Operand) (first last : BitVec 5) (rc : Bool)
  /-- Rotates and replaces the bits under the mask. -/
  | rotateInsert (ra rs : Reg) (amount : Operand) (first last : BitVec 5) (rc : Bool)
  | compare (signed : Bool) (field : BitVec 3) (ra : Reg) (b : Operand)
  deriving DecidableEq

/-- Where a branch goes. -/
inductive Target
  | relative (displacement : Word)
  | absolute (address : Word)
  | link
  | count
  deriving DecidableEq

/-- Branches. `lk` asks for the return address in the link register. -/
inductive BranchInstr
  | always (target : Target) (lk : Bool)
  | conditional (bo bi : BitVec 5) (target : Target) (lk : Bool)
  deriving DecidableEq

/-- Instructions on the condition register. -/
inductive ConditionInstr
  | moveField (target source : BitVec 3)
  | combine (op : Logic) (target a b : BitVec 5)
  | toRegister (rd : Reg)
  /-- Writes the fields whose mask bit is set, the most significant bit standing for field zero. -/
  | fromRegister (mask : BitVec 8) (rs : Reg)
  /-- Takes the status bits of XER and clears them there. -/
  | fromXer (field : BitVec 3)
  deriving DecidableEq

/-- A segment register, by number or by the high bits of a register. -/
inductive Segment
  | direct (number : BitVec 4)
  | indirect (rb : Reg)
  deriving DecidableEq

/-- Moves of special registers and control of interrupts. -/
inductive SystemInstr
  | fromSpecial (rd : Reg) (number : BitVec 10)
  | toSpecial (number : BitVec 10) (rs : Reg)
  | fromTimeBase (rd : Reg) (upper : Bool)
  | fromMsr (rd : Reg)
  | toMsr (rs : Reg)
  | fromSegment (rd : Reg) (segment : Segment)
  | toSegment (segment : Segment) (rs : Reg)
  | call
  | returnFromInterrupt
  /-- Cache, address space and synchronisation instructions: there is no cache to act on. -/
  | nothing
  deriving DecidableEq

/-- Floating point arithmetic of up to three operands. -/
inductive FloatOp
  | add | sub | mul | div | madd | msub | nmadd | nmsub | reciprocal | reciprocalSqrt
  deriving DecidableEq

/-- Operations on the bits of a floating point register. -/
inductive FloatMove
  | copy | negate | absolute | negativeAbsolute
  deriving DecidableEq

inductive Precision
  | double | single
  deriving DecidableEq

/-- Scalar floating point instructions. -/
inductive FloatInstr
  | arith (op : FloatOp) (precision : Precision) (frt fra frb frc : Reg) (rc : Bool)
  | select (frt fra frb frc : Reg) (rc : Bool)
  | move (op : FloatMove) (frt frb : Reg) (rc : Bool)
  | roundToSingle (frt frb : Reg) (rc : Bool)
  | toInteger (truncate : Bool) (frt frb : Reg) (rc : Bool)
  | compare (ordered : Bool) (field : BitVec 3) (fra frb : Reg)
  | fromStatus (frt : Reg) (rc : Bool)
  | clearStatusBit (bit : BitVec 5) (rc : Bool)
  | setStatusBit (bit : BitVec 5) (rc : Bool)
  | setStatusField (field : BitVec 3) (value : BitVec 4) (rc : Bool)
  /-- Writes the status fields whose mask bit is set. -/
  | setStatusFields (mask : BitVec 8) (frb : Reg) (rc : Bool)
  /-- Copies a status field to the condition register and clears its sticky bits. -/
  | statusToCondition (target source : BitVec 3)
  deriving DecidableEq

/-- A lane of a paired register. -/
inductive Lane
  | ps0 | ps1
  deriving DecidableEq

/-- Paired single instructions. -/
inductive PairedInstr
  /-- One operation on both lanes; with a lane given, that lane of `frc` serves both. -/
  | arith (op : FloatOp) (broadcast : Option Lane) (frt fra frb frc : Reg) (rc : Bool)
  /-- The sum of `ps0` of `fra` and `ps1` of `frb` goes to `lane`, the other lane is taken
  from `frc`. -/
  | sum (lane : Lane) (frt fra frb frc : Reg) (rc : Bool)
  | select (frt fra frb frc : Reg) (rc : Bool)
  | move (op : FloatMove) (frt frb : Reg) (rc : Bool)
  | merge (fromA fromB : Lane) (frt fra frb : Reg) (rc : Bool)
  | compare (lane : Lane) (ordered : Bool) (field : BitVec 3) (fra frb : Reg)
  deriving DecidableEq

/-- What a load reads and how it fills its register. -/
inductive Load
  | byte | half | halfAlgebraic | word | halfReversed | wordReversed
  /-- A word from an external device. -/
  | external
  /-- A single precision number, to both lanes of a floating point register. -/
  | single
  /-- A double precision number, to `ps0` of a floating point register. -/
  | double
  deriving DecidableEq

/-- What a store writes. -/
inductive Store
  | byte | half | word | halfReversed | wordReversed
  /-- A word to an external device. -/
  | external
  /-- `ps0` of a floating point register in single precision. -/
  | single
  | double
  /-- The low word of `ps0` of a floating point register. -/
  | floatWord
  deriving DecidableEq

/-- The number of bytes that a string instruction moves. -/
inductive ByteCount
  | immediate (count : BitVec 5)
  /-- The count in XER. -/
  | fromXer
  deriving DecidableEq

/-- Instructions that reach guest memory. `update` asks for the effective address in the base
register. -/
inductive MemoryInstr
  | load (kind : Load) (rt : Reg) (address : Address) (update : Bool)
  | store (kind : Store) (rs : Reg) (address : Address) (update : Bool)
  | loadMultiple (rd : Reg) (address : Address)
  | storeMultiple (rs : Reg) (address : Address)
  | loadString (rd : Reg) (address : Address) (count : ByteCount)
  | storeString (rs : Reg) (address : Address) (count : ByteCount)
  | loadReserve (rd : Reg) (address : Address)
  | storeConditional (rs : Reg) (address : Address)
  | loadQuantized (frt : Reg) (address : Address) (one : Bool) (gqr : BitVec 3) (update : Bool)
  | storeQuantized (frs : Reg) (address : Address) (one : Bool) (gqr : BitVec 3) (update : Bool)
  /-- Clears the cache block that holds the address. -/
  | clearBlock (address : Address)
  deriving DecidableEq

/-- An instruction of the processor. -/
inductive Instr
  | fixed (i : FixedInstr)
  | branch (i : BranchInstr)
  | condition (i : ConditionInstr)
  | system (i : SystemInstr)
  | float (i : FloatInstr)
  | paired (i : PairedInstr)
  /-- Stops the program if one of the relations that `options` selects holds between the operands. -/
  | trap (options : BitVec 5) (ra : Reg) (b : Operand)
  | memory (i : MemoryInstr)
  deriving DecidableEq

end Broadway
