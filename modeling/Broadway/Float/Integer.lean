import Broadway.Float.Status

/-!
# Conversion to an integer

A double is rounded to a whole one in one of four modes, and becomes a signed word: itself if there
is such a word, and the last word on its side if not. The result stands in the low word of a
floating point register, whose high word is that of a quiet NaN; bit 31 of the register tells a
negative zero.

Three of the modes cut a fraction off or take the next whole number on one side. The nearest mode
starts from the whole number that takes halves away from zero, and takes an odd number back by one
if the fraction is one half.
-/

namespace Broadway

/-- The rounding modes. -/
inductive Rounding
  | nearestEven | towardZero | up | down
  deriving DecidableEq

namespace Rounding

/-- The mode that the status register asks for. -/
def ofStatus (s : Word) : Rounding :=
  match (Fpscr.roundingMode s).toNat with
  | 0 => .nearestEven
  | 1 => .towardZero
  | 2 => .up
  | _ => .down

end Rounding

/-- The quotient rounded away from zero. -/
def divRoundUp (n d : Nat) : Nat := n / d + if n % d = 0 then 0 else 1

/-- The quotient rounded to the nearest integer, halves away from zero. -/
def divRoundAway (n d : Nat) : Nat := n / d + if 2 * (n % d) < d then 0 else 1

namespace Double

/-- Makes a number whole. The rule is for a quotient of natural numbers and is told the sign. -/
def whole (rule : Bool → Nat → Nat → Nat) (x : Double) : Double :=
  match x.datum with
  | .finite negative m e =>
    let magnitude := rule negative (m <<< e.toNat) (2 ^ (-e).toNat)
    ofMagnitude negative (Format.double.round magnitude 0)
  | .infinity _ | .nan => x

/-- The number without its fraction. -/
def trunc (x : Double) : Double := x.whole fun _ n d => n / d

/-- The next whole number above. -/
def ceil (x : Double) : Double :=
  x.whole fun negative n d => if negative then n / d else divRoundUp n d

/-- The next whole number below. -/
def floor (x : Double) : Double :=
  x.whole fun negative n d => if negative then divRoundUp n d else n / d

/-- The nearest whole number, halves away from zero. -/
def roundAway (x : Double) : Double := x.whole fun _ n d => divRoundAway n d

/-- One with the sign of a number. -/
def signum (x : Double) : Double := if x.negative then one.negate else one

/-- The difference, or a NaN if there is none. -/
def minus (a b : Double) : Double := (a.sub? b).getD defaultNaN

/-- The remainder, or a NaN if there is none. -/
def remainder (a b : Double) : Double := (a.rem? b).getD defaultNaN

/-- Whether the fraction of a number is one half. -/
def isHalfway (x : Double) : Bool := (x.minus x.trunc).absolute.equals half

/-- Rounds a number to a whole one. -/
def roundTo (mode : Rounding) (x : Double) : Double :=
  match mode with
  | .nearestEven =>
    let rounded := x.roundAway
    if x.isHalfway && !(rounded.remainder two).equals (zero false) then rounded.minus x.signum
    else rounded
  | .towardZero => x.trunc
  | .up => x.ceil
  | .down => x.floor

end Double

/-- The outcome of a conversion: the word, and either the exception that it raises or whether the
word is inexact and whether its magnitude has grown. -/
inductive Conversion
  | clamped (word : Word)
  | rounded (word : Word) (inexact grown : Bool)

namespace Conversion

/-- Converts a double. -/
def ofDouble (mode : Rounding) (x : Double) : Conversion :=
  if x.isNaN then .clamped (BitVec.intMin 32)
  else
    let y := x.roundTo mode
    if y.order (.ofInt (2 ^ 31 - 1)) = some .gt then .clamped (BitVec.intMax 32)
    else if y.order (.ofInt (-2 ^ 31)) = some .lt then .clamped (BitVec.intMin 32)
    else
      let n := y.datum.cut (-2 ^ 31, 2 ^ 31 - 1)
      .rounded (BitVec.ofInt 32 n) (!y.equals x) (y.absolute.order x.absolute = some .gt)

def word : Conversion → Word
  | .clamped w => w
  | .rounded w _ _ => w

/-- The status after a conversion. -/
def status (s : Word) : Conversion → Word
  | .clamped _ => Fpscr.raise s Fpscr.vxcvi
  | .rounded _ inexact grown =>
    let s := Fpscr.assign (Fpscr.assign s Fpscr.fi inexact) Fpscr.fr (inexact && grown)
    if inexact then Fpscr.raise s Fpscr.xx else s

end Conversion

namespace Double

/-- The high word of a register that holds an integer. -/
def integerTag : Double := 0xFFF8000000000000#64

/-- A word as the contents of a floating point register. -/
def ofWord (w : Word) : Double := integerTag ||| w.setWidth 64

/-- The register contents and the status after the conversion of a double to an integer. -/
def toInteger (mode : Rounding) (s : Word) (x : Double) : Double × Word :=
  let s := if x.isSignaling then Fpscr.raise s Fpscr.vxsnan else s
  let conversion := Conversion.ofDouble mode x
  let bits := ofWord conversion.word
  let bits := if conversion.word = 0 ∧ x.negative then bits ||| 1#64 <<< 32 else bits
  (bits, conversion.status s)

end Double

end Broadway
