import Broadway.Word

/-!
# Fields of an instruction word

Each function reads one field at its fixed place. The architecture numbers bits from the most
significant one, so a field at bits 6-10 starts 21 places above the least significant bit. Several
places serve more than one operand; the function is named for the operand that the architecture
lists first, and its comment names the others.
-/

namespace Broadway.Field

/-- Primary opcode, bits 0-5. -/
def opcd (w : Word) : BitVec 6 := w.extractLsb' 26 6

/-- Bits 6-10: rD, rS, frD, frS, BO, TO or crbD. -/
def rt (w : Word) : BitVec 5 := w.extractLsb' 21 5

/-- Bits 11-15: rA, frA, BI or crbA. -/
def ra (w : Word) : BitVec 5 := w.extractLsb' 16 5

/-- Bits 16-20: rB, frB, crbB, SH or NB. -/
def rb (w : Word) : BitVec 5 := w.extractLsb' 11 5

/-- Bits 21-25: frC or MB. -/
def rc (w : Word) : BitVec 5 := w.extractLsb' 6 5

/-- Bits 26-30: ME. -/
def me (w : Word) : BitVec 5 := w.extractLsb' 1 5

/-- Bits 6-8: the condition register field that is written. -/
def crfd (w : Word) : BitVec 3 := w.extractLsb' 23 3

/-- Bits 11-13: the condition register field that is read. -/
def crfs (w : Word) : BitVec 3 := w.extractLsb' 18 3

/-- Bit 10: the length bit of a compare. -/
def l (w : Word) : Bool := w.getLsbD 21

/-- Bits 16-31: the 16-bit immediate or displacement. -/
def immediate (w : Word) : Half := w.extractLsb' 0 16

/-- Displacement of an unconditional branch: 24 bits, a multiple of four, sign-extended. -/
def li (w : Word) : Word := (w.extractLsb' 2 24 ++ 0#2).signExtend 32

/-- Displacement of a conditional branch: 14 bits, a multiple of four, sign-extended. -/
def bd (w : Word) : Word := (w.extractLsb' 2 14 ++ 0#2).signExtend 32

/-- Bit 30: the branch target is absolute. -/
def aa (w : Word) : Bool := w.getLsbD 1

/-- Bit 31: the link bit of a branch, the record bit of any other instruction. -/
def bit31 (w : Word) : Bool := w.getLsbD 0

/-- Bit 21: overflow is recorded. -/
def oe (w : Word) : Bool := w.getLsbD 10

/-- Extended opcode of ten bits, bits 21-30. -/
def xo10 (w : Word) : BitVec 10 := w.extractLsb' 1 10

/-- Extended opcode of nine bits, bits 22-30. -/
def xo9 (w : Word) : BitVec 9 := w.extractLsb' 1 9

/-- Extended opcode of six bits, bits 25-30. -/
def xo6 (w : Word) : BitVec 6 := w.extractLsb' 1 6

/-- Extended opcode of five bits, bits 26-30. -/
def xo5 (w : Word) : BitVec 5 := w.extractLsb' 1 5

/-- Bits 11-20 as they stand in the word. -/
def sprField (w : Word) : BitVec 10 := w.extractLsb' 11 10

/-- A special purpose register number with its two halves put in order: the word holds the low
half first. -/
def swapHalves (n : BitVec 10) : BitVec 10 := n.extractLsb' 0 5 ++ n.extractLsb' 5 5

/-- The number of a special purpose register, bits 11-20. -/
def spr (w : Word) : BitVec 10 := swapHalves (sprField w)

/-- Bits 12-19: one bit for each condition register field. -/
def crm (w : Word) : BitVec 8 := w.extractLsb' 12 8

/-- Bits 7-14: one bit for each field of the floating point status. -/
def fm (w : Word) : BitVec 8 := w.extractLsb' 17 8

/-- Bits 16-19: the immediate that is moved to a field of the floating point status. -/
def statusImmediate (w : Word) : BitVec 4 := w.extractLsb' 12 4

/-- Bits 12-15: the number of a segment register. -/
def sr (w : Word) : BitVec 4 := w.extractLsb' 16 4

/-- Bits 20-26: the level of a system call. -/
def lev (w : Word) : BitVec 7 := w.extractLsb' 5 7

/-- Bit 16 of a quantized access with displacement: one element only. -/
def psqW (w : Word) : Bool := w.getLsbD 15

/-- Bits 17-19 of a quantized access with displacement: the quantization register. -/
def psqI (w : Word) : BitVec 3 := w.extractLsb' 12 3

/-- Bits 20-31 of a quantized access: the displacement, sign-extended. -/
def psqD (w : Word) : Half := (w.extractLsb' 0 12).signExtend 16

/-- Bit 21 of an indexed quantized access: one element only. -/
def psqWx (w : Word) : Bool := w.getLsbD 10

/-- Bits 22-24 of an indexed quantized access: the quantization register. -/
def psqIx (w : Word) : BitVec 3 := w.extractLsb' 7 3

end Broadway.Field
