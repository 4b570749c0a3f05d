import Broadway.Float.Single

/-!
# The numbers that bits stand for

A finite floating point number is a rational number. `Datum.value?` is this number, and
`Format.datum` says for a format what a sign and a magnitude stand for; doubles and single precision
words are read with it, so that a statement about both can compare numbers.
-/

namespace Broadway

/-! ## Signs -/

section Signs

variable (s : Bool) {a : Rat}

theorem sign_mul_cases (a : Rat) :
    (if s then -1 else 1) * a = a ∨ (if s then -1 else 1) * a = -a := by
  cases s with
  | false => exact .inl (Rat.one_mul a)
  | true =>
      right
      rw [if_pos rfl, Rat.neg_mul, Rat.one_mul]

theorem abs_sign_mul (ha : 0 ≤ a) : ((if s then -1 else 1) * a).abs = a := by
  rcases sign_mul_cases s a with hsame | hopposite
  · rw [hsame, Rat.abs_of_nonneg ha]
  · rw [hopposite, Rat.abs_neg, Rat.abs_of_nonneg ha]

end Signs

/-- A mantissa stands for no negative number. -/
theorem mantissa_nonneg (m : Nat) (e : Int) : (0 : Rat) ≤ m * 2 ^ e :=
  Rat.mul_nonneg Rat.natCast_nonneg (Rat.le_of_lt (Rat.zpow_pos (by decide)))

/-! ## Numbers -/

namespace Datum

/-- The number that a datum is. Infinities are none, and neither is what is not a number. -/
def value? : Datum → Option Rat
  | .finite negative m e => some ((if negative then -1 else 1) * ((m : Rat) * 2 ^ e))
  | .infinity _ | .nan => none

/-- A power of two may stand in the mantissa or in the exponent. -/
theorem value?_shift (negative : Bool) (m k : Nat) (e : Int) :
    (finite negative (m * 2 ^ k) e).value? = (finite negative m (k + e)).value? := by
  have htwo : (2 : Rat) ≠ 0 := by decide
  have hpow : ((2 ^ k : Nat) : Rat) = 2 ^ (k : Int) := by
    rw [Rat.zpow_natCast]
    exact Rat.natCast_pow 2 k
  rw [value?, value?, Rat.natCast_mul, hpow, Rat.mul_assoc, ← Rat.zpow_add htwo]

/-- Zero is the same number in every unit. -/
theorem value?_zero (negative : Bool) (e e' : Int) :
    (finite negative 0 e).value? = (finite negative 0 e').value? := by
  have hzero (e : Int) : ((0 : Nat) : Rat) * 2 ^ e = 0 := Rat.zero_mul _
  rw [value?, value?, hzero, hzero]

/-- An integer by its sign and its magnitude. -/
theorem intCast_eq_sign_mul (n : Int) :
    (n : Rat) = (if decide (n < 0) then -1 else 1) * (n.natAbs : Rat) := by
  by_cases hneg : n < 0
  · have habs : n = -(n.natAbs : Int) := by omega
    rw [decide_eq_true hneg, if_pos rfl, Rat.neg_mul, Rat.one_mul, ← Rat.intCast_natCast,
      ← Rat.intCast_neg, ← habs]
  · have habs : n = (n.natAbs : Int) := by omega
    rw [decide_eq_false hneg, if_neg Bool.false_ne_true, Rat.one_mul, ← Rat.intCast_natCast, ← habs]

end Datum

namespace Format

/-- What a sign and a magnitude stand for. -/
def datum (f : Format) (negative : Bool) (magnitude : Nat) : Datum :=
  if f.infinity < magnitude then .nan
  else if magnitude = f.infinity then .infinity negative
  else .finite negative (f.decode magnitude).1 (f.decode magnitude).2

/-- What the fields of a number stand for. An exponent field of ones is kept for infinity, and for
what is not a number. -/
theorem datum_fields (f : Format) (negative : Bool) {field fraction : Nat}
    (hfield : field < 2 ^ f.exponentBits) (hfraction : fraction < 2 ^ f.fractionBits) :
    f.datum negative (field * 2 ^ f.fractionBits + fraction) =
      if field = 2 ^ f.exponentBits - 1 then
        if fraction = 0 then .infinity negative else .nan
      else if field = 0 then .finite negative fraction f.minExponent
      else .finite negative (2 ^ f.fractionBits + fraction)
        (f.minExponent + (field - 1 : Nat)) := by
  rw [datum, infinity]
  by_cases hspecial : field = 2 ^ f.exponentBits - 1
  · subst hspecial
    rw [if_pos rfl]
    by_cases hzero : fraction = 0
    · rw [if_neg (by omega), if_pos (by omega), if_pos hzero]
    · rw [if_pos (by omega), if_neg hzero]
  · have hle : (field + 1) * 2 ^ f.fractionBits ≤ (2 ^ f.exponentBits - 1) * 2 ^ f.fractionBits :=
      Nat.mul_le_mul_right _ (by omega)
    rw [Nat.succ_mul] at hle
    have hdiv : (field * 2 ^ f.fractionBits + fraction) / 2 ^ f.fractionBits = field := by
      rw [Nat.mul_comm, Nat.mul_add_div (Nat.two_pow_pos _), Nat.div_eq_of_lt hfraction,
        Nat.add_zero]
    have hmod : (field * 2 ^ f.fractionBits + fraction) % 2 ^ f.fractionBits = fraction := by
      rw [Nat.mul_comm, Nat.mul_add_mod, Nat.mod_eq_of_lt hfraction]
    rw [if_neg hspecial, if_neg (by omega), if_neg (by omega), decode, hdiv, hmod]
    split <;> rfl

end Format

theorem Double.datum_eq (x : Double) : x.datum = Format.double.datum x.negative x.magnitude := by
  simp only [datum, Format.datum, isNaN, isInfinite, decide_eq_true_eq]

/-- A double signals if it is a NaN whose quiet bit is clear. -/
theorem Double.isSignaling_eq (x : Double) :
    x.isSignaling = (decide (x.datum = .nan) && !x.getLsbD 51) := by
  have hnan : decide (x.datum = .nan) = x.isNaN := by
    rw [datum]
    cases x.isNaN with
    | true => rfl
    | false =>
        cases x.isInfinite <;> rfl
  have hbit : (x &&& quietBit == 0) = !x.getLsbD 51 := by
    show (x &&& BitVec.twoPow 64 51 == 0) = _
    rw [BitVec.and_twoPow]
    cases x.getLsbD 51 <;> rfl
  rw [isSignaling, hnan, hbit]

namespace Double

theorem negative_of_finite {x : Double} {negative : Bool} {m : Nat} {e : Int}
    (h : x.datum = .finite negative m e) : negative = x.negative := by
  rw [datum] at h
  split at h
  · contradiction
  · split at h
    · contradiction
    · exact (Datum.finite.inj h).1.symm

/-- Only what is finite has a value. -/
theorem finite_of_value? {x : Double} {v : Rat} (h : x.datum.value? = some v) :
    ∃ m e, x.datum = .finite x.negative m e := by
  cases hdatum : x.datum with
  | finite negative m e => exact ⟨m, e, by rw [negative_of_finite hdatum]⟩
  | nan | infinity =>
      rw [hdatum] at h
      contradiction

theorem ne_nan_of_value? {x : Double} {v : Rat} (h : x.datum.value? = some v) :
    x.datum ≠ .nan := by
  intro hnan
  rw [hnan] at h
  contradiction

theorem negative_of_infinity {x : Double} {negative : Bool} (h : x.datum = .infinity negative) :
    negative = x.negative := by
  rw [datum] at h
  split at h
  · contradiction
  · split at h
    · exact (Datum.infinity.inj h).symm
    · contradiction

end Double

namespace Single

/-- What the bits of a single precision word stand for. -/
def datum (w : Word) : Datum := Format.single.datum w.msb (w.toNat % 2 ^ 31)

/-- Whether a word is a NaN whose quiet bit is clear. -/
def isSignaling (w : Word) : Bool := decide (datum w = .nan) && !w.getLsbD 22

end Single

end Broadway
