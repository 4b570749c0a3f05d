import Broadway.Float.Datum
import Broadway.Word

/-!
# Double precision numbers

Arithmetic on doubles as their bits: the operands are decoded, the operation is carried out
exactly, and the result is rounded once, to the nearest double with halves to the even one. An
operation that has no value, be it that an operand is not a number or that the operation is
invalid, gives `none`: which NaN then arises is for the processor to say.
-/

namespace Broadway.Double

/-- The sign, apart from which doubles are ordered as natural numbers. -/
def negative (x : Double) : Bool := x.msb

/-- All bits but the sign. -/
def magnitude (x : Double) : Nat := x.toNat % 2 ^ 63

def signBit : Double := 1#64 <<< 63

/-- The bit that tells a quiet NaN from a signalling one. -/
def quietBit : Double := 1#64 <<< 51

/-- The NaN that an invalid operation on numbers produces. -/
def defaultNaN : Double := 0x7FF8000000000000#64

def ofMagnitude (negative : Bool) (magnitude : Nat) : Double :=
  (if negative then signBit else 0) ||| BitVec.ofNat 64 magnitude

def infinity (negative : Bool) : Double := ofMagnitude negative Format.double.infinity

def zero (negative : Bool) : Double := ofMagnitude negative 0

def half : Double := 0x3FE0000000000000#64

def one : Double := 0x3FF0000000000000#64

def two : Double := 0x4000000000000000#64

def isNaN (x : Double) : Bool := Format.double.infinity < x.magnitude

def isInfinite (x : Double) : Bool := x.magnitude = Format.double.infinity

def isZero (x : Double) : Bool := x.magnitude = 0

def isSignaling (x : Double) : Bool := x.isNaN && (x &&& quietBit) == 0

/-- Makes a NaN quiet and keeps its sign and payload. -/
def quiet (x : Double) : Double := x ||| quietBit

def negate (x : Double) : Double := x ^^^ signBit

def absolute (x : Double) : Double := x &&& ~~~signBit

def negativeAbsolute (x : Double) : Double := x ||| signBit

/-- What the bits stand for. -/
def datum (x : Double) : Datum :=
  if x.isNaN then .nan
  else if x.isInfinite then .infinity x.negative
  else
    let (m, e) := Format.double.decode x.magnitude
    .finite x.negative m e

/-- The double nearest to a datum. -/
def ofDatum? : Datum → Option Double
  | .nan => none
  | .infinity s => some (infinity s)
  | .finite s m e => some (ofMagnitude s (Format.double.round m e))

def add? (a b : Double) : Option Double := ofDatum? (a.datum.add b.datum)

def sub? (a b : Double) : Option Double := ofDatum? (a.datum.add b.datum.negate)

def mul? (a b : Double) : Option Double := ofDatum? (a.datum.mul b.datum)

def div? (a b : Double) : Option Double := ofDatum? (a.datum.div b.datum)

/-- `a * c + b` with one rounding. -/
def mulAdd? (a c b : Double) : Option Double := ofDatum? ((a.datum.mul c.datum).add b.datum)

/-- `a * c - b` with one rounding. -/
def mulSub? (a c b : Double) : Option Double :=
  ofDatum? ((a.datum.mul c.datum).add b.datum.negate)

/-- The remainder that `Datum.rem` gives. -/
def rem? (a b : Double) : Option Double := ofDatum? (a.datum.rem b.datum)

def sqrt? (a : Double) : Option Double := ofDatum? a.datum.sqrt

/-- Doubles that are numbers are ordered as the integers that their sign and magnitude make. -/
def orderKey (x : Double) : Int := if x.negative then -(x.magnitude : Int) else x.magnitude

/-- The order of two doubles; none if one of them is not a number. -/
def order (a b : Double) : Option Ordering :=
  if a.isNaN || b.isNaN then none else some (compare a.orderKey b.orderKey)

/-- Equality of numbers, which does not tell the zeros apart. What is not a number equals nothing. -/
def equals (a b : Double) : Bool := a.order b = some .eq

/-- The double nearest to an integer. -/
def ofInt (n : Int) : Double := ofMagnitude (n < 0) (Format.double.round n.natAbs 0)

/-- The double nearest to a power of two. -/
def twoPow (n : Int) : Double := ofMagnitude false (Format.double.round 1 n)

end Broadway.Double
