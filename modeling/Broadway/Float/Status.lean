import Broadway.Float.Double

/-!
# Floating point status

The status and control register as functions on its word. Exception bits are sticky; `fx` records
that one of them has been raised since it was last cleared. Two bits are summaries of others: `vx`
of the causes of an invalid operation, and `fex` of the exceptions that are enabled.
-/

namespace Broadway.Fpscr

/-- Exception summary. -/
def fx : Word := 1#32 <<< 31

/-- Enabled exception summary. -/
def fex : Word := 1#32 <<< 30

/-- Invalid operation summary. -/
def vx : Word := 1#32 <<< 29

/-- Overflow. -/
def ox : Word := 1#32 <<< 28

/-- Underflow. -/
def ux : Word := 1#32 <<< 27

/-- Division by zero. -/
def zx : Word := 1#32 <<< 26

/-- Inexact result. -/
def xx : Word := 1#32 <<< 25

/-- Invalid operation: signalling NaN. -/
def vxsnan : Word := 1#32 <<< 24

/-- Invalid operation: difference of infinities. -/
def vxisi : Word := 1#32 <<< 23

/-- Invalid operation: quotient of infinities. -/
def vxidi : Word := 1#32 <<< 22

/-- Invalid operation: quotient of zeros. -/
def vxzdz : Word := 1#32 <<< 21

/-- Invalid operation: infinity times zero. -/
def vximz : Word := 1#32 <<< 20

/-- Invalid operation: ordered comparison with a NaN. -/
def vxvc : Word := 1#32 <<< 19

/-- The last rounding increased the magnitude. -/
def fr : Word := 1#32 <<< 18

/-- The last rounding changed the value. -/
def fi : Word := 1#32 <<< 17

/-- Class and sign of the last result. -/
def fprf : Word := 0x1F#32 <<< 12

/-- Invalid operation: requested by software. -/
def vxsoft : Word := 1#32 <<< 10

/-- Invalid operation: square root of a negative number. -/
def vxsqrt : Word := 1#32 <<< 9

/-- Invalid operation: conversion to an integer. -/
def vxcvi : Word := 1#32 <<< 8

/-- Invalid operation is enabled. -/
def ve : Word := 1#32 <<< 7

/-- Overflow is enabled. -/
def oe : Word := 1#32 <<< 6

/-- Underflow is enabled. -/
def ue : Word := 1#32 <<< 5

/-- Division by zero is enabled. -/
def ze : Word := 1#32 <<< 4

/-- Inexact is enabled. -/
def xe : Word := 1#32 <<< 3

/-- Non-IEEE mode. -/
def ni : Word := 1#32 <<< 2

/-- Rounding mode. -/
def rn : Word := 0b11#32

/-- All causes of an invalid operation. -/
def vxAny : Word :=
  vxsnan ||| vxisi ||| vxidi ||| vxzdz ||| vximz ||| vxvc ||| vxsoft ||| vxsqrt ||| vxcvi

/-- All sticky exceptions. -/
def anyX : Word := ox ||| ux ||| zx ||| xx ||| vxAny

/-- The condition code of a comparison, the low four bits of `fprf`. -/
def fpcc : Word := 0xF#32 <<< 12

/-- The exceptions that are enabled and raised; each exception lies as far above its enable. -/
def enabled (s : Word) : Word := (s >>> 22) &&& s &&& 0xF8#32

/-- Sets or clears the bits of a mask. -/
def assign (s mask : Word) (v : Bool) : Word := if v then s ||| mask else s &&& ~~~mask

/-- Computes the two summaries anew. -/
def summarize (s : Word) : Word :=
  let s := assign s vx (s &&& vxAny != 0)
  assign s fex (enabled s != 0)

/-- Raises exceptions; one that was clear is recorded in `fx`. -/
def raise (s mask : Word) : Word :=
  if mask = 0 then s
  else summarize ((if s &&& mask != mask then s ||| fx else s) ||| mask)

/-! ## Classes of results -/

namespace Class

def quietNaN : BitVec 5 := 0x11#5

def negativeInfinity : BitVec 5 := 0x09#5

def negativeNormal : BitVec 5 := 0x08#5

def negativeDenormal : BitVec 5 := 0x18#5

def negativeZero : BitVec 5 := 0x12#5

def positiveZero : BitVec 5 := 0x02#5

def positiveDenormal : BitVec 5 := 0x14#5

def positiveNormal : BitVec 5 := 0x04#5

def positiveInfinity : BitVec 5 := 0x05#5

end Class

/-- The class of a double. -/
def classify (x : Double) : BitVec 5 :=
  if x.isNaN then Class.quietNaN
  else if x.isInfinite then
    if x.negative then Class.negativeInfinity else Class.positiveInfinity
  else if x.isZero then
    if x.negative then Class.negativeZero else Class.positiveZero
  else if x.magnitude < 2 ^ 52 then
    if x.negative then Class.negativeDenormal else Class.positiveDenormal
  else
    if x.negative then Class.negativeNormal else Class.positiveNormal

/-- Records the class of a result. -/
def setClass (s : Word) (x : Double) : Word :=
  (s &&& ~~~fprf) ||| ((classify x).setWidth 32 <<< 12)

/-! ## Comparisons -/

namespace Code

def less : BitVec 4 := 0b1000#4

def greater : BitVec 4 := 0b0100#4

def equal : BitVec 4 := 0b0010#4

def unordered : BitVec 4 := 0b0001#4

end Code

def compareCode (a b : Double) : BitVec 4 :=
  match a.order b with
  | some .lt => Code.less
  | some .gt => Code.greater
  | some .eq => Code.equal
  | none => Code.unordered

/-- Records the condition code of a comparison. -/
def setCode (s : Word) (code : BitVec 4) : Word :=
  (s &&& ~~~fpcc) ||| (code.setWidth 32 <<< 12)

/-- The rounding mode, a number of two bits. -/
def roundingMode (s : Word) : BitVec 2 := s.extractLsb' 0 2

end Broadway.Fpscr
