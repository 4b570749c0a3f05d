import Broadway.Float.Format

/-!
# Exact arithmetic on floating point data

A datum is what a floating point number of any format stands for. Sums and products of data are
exact; quotients and square roots are cut off far beyond the precision of any format, with a last
bit that records whether anything was cut off, so that rounding them gives what rounding the exact
value would. An operation without a value gives `nan`.
-/

namespace Broadway

/-- The number, infinity or absence of a number that a floating point value stands for. A finite
datum is `mantissa * 2 ^ exponent` with a sign, which zero has as well. -/
inductive Datum
  | nan
  | infinity (negative : Bool)
  | finite (negative : Bool) (mantissa : Nat) (exponent : Int)
  deriving DecidableEq

/-- The largest number whose square is at most `n`, found bit by bit from bit `k - 1` on top of
`root`. -/
def squareRootFrom : (k : Nat) → (n root : Nat) → Nat
  | 0, _, root => root
  | k + 1, n, root =>
    let next := root + 2 ^ k
    squareRootFrom k n (if next * next ≤ n then next else root)

/-- The largest number whose square is at most `n`. -/
def squareRoot (n : Nat) : Nat := squareRootFrom (n.log2 / 2 + 1) n 0

/-- A number with a further bit, which is set when the number is not the exact value. -/
def withSticky (n : Nat) (exact : Bool) : Nat := 2 * n + (!exact).toNat

namespace Datum

/-- How many bits a quotient or a root has beyond those of its operand. -/
def guardBits : Nat := 120

def negate : Datum → Datum
  | .nan => .nan
  | .infinity s => .infinity (!s)
  | .finite s m e => .finite (!s) m e

/-- A mantissa with its sign, in units of `2 ^ unit`. -/
def signed (negative : Bool) (m : Nat) (e unit : Int) : Int :=
  let n : Int := (m <<< (e - unit).toNat : Nat)
  if negative then -n else n

/-- The exact sum. A sum of zero is positive unless both operands are negative. -/
def add : Datum → Datum → Datum
  | .nan, _ => .nan
  | _, .nan => .nan
  | .infinity s, .infinity t => if s = t then .infinity s else .nan
  | .infinity s, .finite .. => .infinity s
  | .finite .., .infinity t => .infinity t
  | .finite s m e, .finite t n d =>
    let unit := min e d
    let sum := signed s m e unit + signed t n d unit
    if sum = 0 then .finite (s && t) 0 unit else .finite (sum < 0) sum.natAbs unit

/-- The exact product. -/
def mul : Datum → Datum → Datum
  | .nan, _ => .nan
  | _, .nan => .nan
  | .infinity s, .infinity t => .infinity (s != t)
  | .infinity s, .finite t n _ => if n = 0 then .nan else .infinity (s != t)
  | .finite s m _, .infinity t => if m = 0 then .nan else .infinity (s != t)
  | .finite s m e, .finite t n d => .finite (s != t) (m * n) (e + d)

/-- The quotient. A number over zero is infinite. -/
def div : Datum → Datum → Datum
  | .nan, _ => .nan
  | _, .nan => .nan
  | .infinity _, .infinity _ => .nan
  | .infinity s, .finite t _ _ => .infinity (s != t)
  | .finite s _ _, .infinity t => .finite (s != t) 0 0
  | .finite s m e, .finite t n d =>
    if n = 0 then
      if m = 0 then .nan else .infinity (s != t)
    else
      let m' := m <<< guardBits
      .finite (s != t) (withSticky (m' / n) (m' % n = 0)) (e - d - guardBits - 1)

/-- The remainder of the division whose quotient is cut off to an integer. It has the sign of the
dividend. -/
def rem : Datum → Datum → Datum
  | .nan, _ => .nan
  | _, .nan => .nan
  | .infinity _, _ => .nan
  | .finite s m e, .infinity _ => .finite s m e
  | .finite s m e, .finite _ n d =>
    let unit := min e d
    if n = 0 then .nan else .finite s (m <<< (e - unit).toNat % n <<< (d - unit).toNat) unit

/-- The square root of a number that is not negative. -/
def sqrt : Datum → Datum
  | .nan => .nan
  | .infinity false => .infinity false
  | .infinity true => .nan
  | .finite s m e =>
    if m = 0 then .finite s 0 e
    else if s then .nan
    else
      let shift := guardBits + (e % 2).toNat
      let m' := m <<< shift
      let root := squareRoot m'
      .finite false (withSticky root (root * root = m')) ((e - shift) / 2 - 1)

/-- An integer of a range: the fraction is cut off, what is beyond the range becomes the end of it,
and what is not a number becomes zero. -/
def cut (range : Int × Int) : Datum → Int
  | .nan => 0
  | .infinity negative => if negative then range.1 else range.2
  | .finite negative m e =>
    let magnitude : Int := ((m <<< e.toNat) / 2 ^ (-e).toNat : Nat)
    max range.1 (min range.2 (if negative then -magnitude else magnitude))

end Datum

end Broadway
