import Broadway.Power

/-!
# Binary floating point formats

A format fixes how many bits hold the fraction and how many the exponent. The magnitude of a finite
number is a natural number of that many bits, and stands for `m * 2 ^ e` with the mantissa and
exponent that `Format.decode` gives. `Format.round` is the way back: the magnitude nearest to
`m * 2 ^ e`, of two equally near ones the even one, and the magnitude of infinity when the number is
too large. Magnitudes are ordered as the numbers that they stand for, so a carry out of the
fraction is the right exponent by itself.

* A magnitude below infinity survives decoding and rounding (`Format.round_decode`).
-/

namespace Broadway

/-- The quotient rounded to the nearest integer, halves to the even one. -/
def divRoundEven (n d : Nat) : Nat :=
  let q := n / d
  let r := n % d
  if 2 * r < d then q else if d < 2 * r then q + 1 else q + q % 2

/-- `m * 2 ^ s` rounded to the nearest integer, halves to the even one. -/
def scaleRoundEven (m : Nat) (s : Int) : Nat :=
  if 0 ≤ s then m <<< s.toNat else divRoundEven m (2 ^ (-s).toNat)

structure Format where
  fractionBits : Nat
  exponentBits : Nat

namespace Format

def single : Format := ⟨23, 8⟩

def double : Format := ⟨52, 11⟩

/-- The exponent of the last bit of the smallest numbers. -/
def minExponent (f : Format) : Int := 2 - 2 ^ (f.exponentBits - 1) - f.fractionBits

/-- The magnitude of infinity: all exponent bits set and no fraction. -/
def infinity (f : Format) : Nat := (2 ^ f.exponentBits - 1) * 2 ^ f.fractionBits

/-- The mantissa and the exponent of a finite magnitude. -/
def decode (f : Format) (magnitude : Nat) : Nat × Int :=
  let field := magnitude / 2 ^ f.fractionBits
  let fraction := magnitude % 2 ^ f.fractionBits
  if field = 0 then (fraction, f.minExponent)
  else (2 ^ f.fractionBits + fraction, f.minExponent + (field - 1 : Nat))

/-- The magnitude nearest to `m * 2 ^ e`. -/
def round (f : Format) (m : Nat) (e : Int) : Nat :=
  if m = 0 then 0
  else
    let unit := max (m.log2 + e - f.fractionBits) f.minExponent
    let steps := (unit - f.minExponent).toNat
    min (steps * 2 ^ f.fractionBits + scaleRoundEven m (e - unit)) f.infinity

theorem round_decode (f : Format) {n : Nat} (h : n < f.infinity) :
    f.round (f.decode n).1 (f.decode n).2 = n := by
  have hp : 0 < 2 ^ f.fractionBits := Nat.two_pow_pos _
  have hmod : n % 2 ^ f.fractionBits < 2 ^ f.fractionBits := Nat.mod_lt _ hp
  have hdiv : 2 ^ f.fractionBits * (n / 2 ^ f.fractionBits) + n % 2 ^ f.fractionBits = n :=
    Nat.div_add_mod n _
  by_cases h0 : n / 2 ^ f.fractionBits = 0
  · have hd : f.decode n = (n % 2 ^ f.fractionBits, f.minExponent) := by simp [decode, h0]
    simp only [h0, Nat.mul_zero, Nat.zero_add] at hdiv
    rw [hd]
    rw [hdiv] at hmod ⊢
    by_cases hm : n = 0
    · simp [round, hm]
    · have hl : n.log2 < f.fractionBits := (Nat.log2_lt hm).2 hmod
      have hu : max ((n.log2 : Int) + f.minExponent - f.fractionBits) f.minExponent
          = f.minExponent := by omega
      simp [round, hm, hu, scaleRoundEven]
      omega
  · have hd : f.decode n = (2 ^ f.fractionBits + n % 2 ^ f.fractionBits,
        f.minExponent + ((n / 2 ^ f.fractionBits - 1 : Nat) : Int)) := by simp [decode, h0]
    rw [hd]
    have hne : 2 ^ f.fractionBits + n % 2 ^ f.fractionBits ≠ 0 := by omega
    have hl : (2 ^ f.fractionBits + n % 2 ^ f.fractionBits).log2 = f.fractionBits :=
      (Nat.log2_eq_iff hne).2 ⟨by omega, by rw [Nat.pow_succ]; omega⟩
    have hu : max ((f.fractionBits : Int)
        + (f.minExponent + ((n / 2 ^ f.fractionBits - 1 : Nat) : Int)) - f.fractionBits)
        f.minExponent = f.minExponent + ((n / 2 ^ f.fractionBits - 1 : Nat) : Int) := by omega
    have hs : (n / 2 ^ f.fractionBits - 1) * 2 ^ f.fractionBits
        + (2 ^ f.fractionBits + n % 2 ^ f.fractionBits) = n := by
      obtain ⟨k, hk⟩ := Nat.exists_eq_succ_of_ne_zero h0
      rw [hk, Nat.mul_succ] at hdiv
      rw [hk, Nat.succ_sub_one, Nat.mul_comm]
      omega
    have ht : (f.minExponent + ((n / 2 ^ f.fractionBits - 1 : Nat) : Int) - f.minExponent).toNat
        = n / 2 ^ f.fractionBits - 1 := by omega
    simp only [round, hne, if_false, hl, hu, ht, Int.sub_self, scaleRoundEven, Int.le_refl, if_true,
      Int.toNat_zero, Nat.shiftLeft_zero, hs]
    omega

end Format

end Broadway
