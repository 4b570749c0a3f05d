import Broadway.Float.Double

/-!
# Single precision

Registers hold single precision numbers in double format. Three conversions connect the formats:
widening, which loads use and which loses nothing; narrowing, which stores use and which cuts off
what does not fit; and rounding, which arithmetic uses. Widening and narrowing move bits and never
look at the payload of a NaN.
-/

namespace Broadway.Single

/-- Widens a single precision word. The exponent grows by three bits, copies of the complement of
its first bit for a number and of that bit itself for zero, infinity and NaN; a denormal number is
normalised. -/
def widen (w : Word) : Double :=
  let exponent := w.extractLsb' 23 8
  let fraction := w.extractLsb' 0 23
  let spread (y : Bool) : Double :=
    w.extractLsb' 30 2 ++ (BitVec.ofBool y).signExtend 3 ++ w.extractLsb' 0 30 ++ 0#29
  if exponent = 0 ∧ fraction ≠ 0 then
    let steps := 23 - fraction.toNat.log2
    BitVec.ofBool w.msb ++ BitVec.ofNat 11 (897 - steps) ++ (fraction <<< steps) ++ 0#29
  else if exponent = 0 ∨ exponent = 255 then spread (w.getLsbD 30)
  else spread (!w.getLsbD 30)

/-- Narrows a double. A number in the range of the denormal single precision numbers is shifted
into place; all others keep the bits that a single precision word has, whatever they then mean. -/
def narrow (x : Double) : Word :=
  let exponent := (x.extractLsb' 52 11).toNat
  if 874 ≤ exponent ∧ exponent ≤ 896 then
    let shifted : Word := (1#1 ++ x.extractLsb' 21 31) >>> (905 - exponent)
    shifted ||| (BitVec.ofBool x.msb ++ 0#31)
  else x.extractLsb' 62 2 ++ x.extractLsb' 29 30

/-- The bits of a double that a single precision NaN has room for. -/
def payloadMask : Double := 0xFFFFFFFFE0000000#64

/-- Rounds to the nearest single precision number, kept in double format. A NaN becomes quiet and
keeps its sign and the bits of its payload that fit. -/
def round (x : Double) : Double :=
  match x.datum with
  | .nan => (x &&& payloadMask).quiet
  | .infinity _ => x
  | .finite s m e =>
    let magnitude := Format.single.round m e
    if magnitude = Format.single.infinity then Double.infinity s
    else
      let (m', e') := Format.single.decode magnitude
      Double.ofMagnitude s (Format.double.round m' e')

end Broadway.Single
