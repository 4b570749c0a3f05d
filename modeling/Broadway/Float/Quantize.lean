import Broadway.Failure
import Broadway.Float.Single

/-!
# Quantization

A graphics quantization register says how quantized loads and stores convert between numbers in
memory and lanes: as single precision numbers, or as integers of eight or sixteen bits that stand
for themselves times a power of two. Storing scales, clamps to the range of the type and cuts off
the fraction, the first two in the arithmetic of doubles.
-/

namespace Broadway

/-- Brings a number into a range. What is not a number stays as it is. -/
def Double.clamp (x least greatest : Double) : Double :=
  if x.order least = some .lt then least
  else if x.order greatest = some .gt then greatest
  else x

/-- How an element lies in memory. -/
inductive QuantizeType
  | float | u8 | u16 | s8 | s16
  deriving DecidableEq

namespace QuantizeType

/-- The type of a type field; three values are reserved. -/
def ofBits (b : BitVec 3) : Option QuantizeType :=
  match b.toNat with
  | 0 => some .float
  | 4 => some .u8
  | 5 => some .u16
  | 6 => some .s8
  | 7 => some .s16
  | _ => none

/-- The bytes of an element. -/
def size : QuantizeType → Nat
  | .float => 4
  | .u8 | .s8 => 1
  | .u16 | .s16 => 2

/-- The least and the greatest integer of an integer type. -/
def range : QuantizeType → Int × Int
  | .float => (0, 0)
  | .u8 => (0, 255)
  | .u16 => (0, 65535)
  | .s8 => (-128, 127)
  | .s16 => (-32768, 32767)

end QuantizeType

/-- One half of a quantization register: the type of the elements and the power of two by which
they are scaled. -/
structure Quantizer where
  type : QuantizeType
  scale : Int
  deriving DecidableEq

namespace Quantizer

def ofFields (type : BitVec 3) (scale : BitVec 6) : Except Invalid Quantizer :=
  match QuantizeType.ofBits type with
  | some t => .ok ⟨t, scale.toInt⟩
  | none => .error (.quantization type)

/-- A scale is a signed number of six bits. -/
theorem scale_bounds {type : BitVec 3} {scale : BitVec 6} {q : Quantizer}
    (h : ofFields type scale = .ok q) : -32 ≤ q.scale ∧ q.scale ≤ 31 := by
  have hlow : -2 ^ 5 ≤ scale.toInt := BitVec.le_toInt scale
  have hhigh : scale.toInt < 2 ^ 5 := BitVec.toInt_lt
  unfold ofFields at h
  split at h
  · cases h
    exact ⟨hlow, Int.le_of_lt_add_one hhigh⟩
  · contradiction

/-- The half that loads use. -/
def forLoad (gqr : Word) : Except Invalid Quantizer :=
  ofFields (gqr.extractLsb' 16 3) (gqr.extractLsb' 24 6)

/-- The half that stores use. -/
def forStore (gqr : Word) : Except Invalid Quantizer :=
  ofFields (gqr.extractLsb' 0 3) (gqr.extractLsb' 8 6)

/-- The lane that the bytes of an element stand for. -/
def dequantize (q : Quantizer) (bytes : List Byte) : Double :=
  let scaled (n : Int) : Double :=
    ((Double.ofInt n).mul? (Double.twoPow (-q.scale))).getD Double.defaultNaN
  match q.type with
  | .float => Single.widen (Bytes.toWord 4 bytes)
  | .u8 => scaled (Bytes.toWord 1 bytes).toNat
  | .u16 => scaled (Bytes.toWord 2 bytes).toNat
  | .s8 => scaled (Bytes.toWord 1 bytes).toInt
  | .s16 => scaled (Bytes.toWord 2 bytes).toInt

/-- A lane that is scaled and clamped to the range of the type. What is not a number becomes the
least number of the range. -/
def saturate (q : Quantizer) (lane : Double) : Double :=
  let least := Double.ofInt q.type.range.1
  match lane.mul? (Double.twoPow q.scale) with
  | some x => x.clamp least (Double.ofInt q.type.range.2)
  | none => least

/-- The integer that a lane is stored as. -/
def toInteger (q : Quantizer) (lane : Double) : Int := (q.saturate lane).datum.cut q.type.range

/-- The bytes that a lane is stored as. -/
def quantize (q : Quantizer) (lane : Double) : List Byte :=
  match q.type with
  | .float => Bytes.ofWord 4 (Single.narrow lane)
  | .u8 | .s8 => Bytes.ofWord 1 (BitVec.ofInt 8 (q.toInteger lane))
  | .u16 | .s16 => Bytes.ofWord 2 (BitVec.ofInt 16 (q.toInteger lane))

end Quantizer

end Broadway
