import Broadway.Proofs.Float.Undefined

/-!
# Rounding to single precision

Rounding delivers a quiet NaN, an infinity or a number that single precision holds
(`Single.rounded`), in double format. A NaN keeps its sign (`Single.negative_round_of_isNaN`), and a
number other than zero is not smaller than the smallest one (`Single.Rounded.least`).
-/

namespace Broadway

namespace Double

variable (x : Double)

/-- A NaN is what lies at infinity or above and is quiet. -/
theorem isNaN_quiet_of_le (h : Format.double.infinity ≤ x.magnitude) : x.quiet.isNaN = true := by
  have hle := Nat.le_trans h x.magnitude_le_quiet
  have hbit : x.quiet.magnitude.testBit 51 = true := by
    rw [magnitude, Nat.testBit_mod_two_pow]
    exact x.getLsbD_quiet (by decide)
  have hne : Format.double.infinity ≠ x.quiet.magnitude := by
    intro heq
    rw [← heq] at hbit
    exact absurd hbit (by decide)
  exact decide_eq_true (Nat.lt_of_le_of_ne hle hne)

/-- Single precision has room for the upper bits of a payload. -/
theorem and_payloadMask : x &&& Single.payloadMask = (x >>> 29) <<< 29 := by
  have hmask : Single.payloadMask = BitVec.allOnes 64 <<< 29 := by decide
  rw [hmask]
  apply BitVec.eq_of_getLsbD_eq
  intro i hi
  rw [BitVec.getLsbD_and, BitVec.getLsbD_shiftLeft, BitVec.getLsbD_shiftLeft,
    BitVec.getLsbD_allOnes, BitVec.getLsbD_ushiftRight]
  by_cases hlow : i < 29
  · simp [hlow]
  · have hsplit : 29 + (i - 29) = i := by omega
    have hbound : i - 29 < 64 := by omega
    simp [hi, hlow, hsplit, hbound]

theorem infinity_le_and_payloadMask (h : Format.double.infinity ≤ x.magnitude) :
    Format.double.infinity ≤ (x &&& Single.payloadMask).magnitude := by
  have hlt : x.toNat < 2 ^ 64 := x.isLt
  have hinfinity : Format.double.infinity = 2047 * 2 ^ 52 := by decide
  rw [hinfinity] at h ⊢
  rw [magnitude] at h
  rw [magnitude, and_payloadMask, BitVec.toNat_shiftLeft, BitVec.toNat_ushiftRight,
    Nat.shiftLeft_eq, Nat.shiftRight_eq_div_pow]
  omega

theorem negative_quiet : x.quiet.negative = x.negative := by
  rw [negative, quiet, BitVec.msb_or]
  exact Bool.or_false _

end Double

/-- The number of a datum without its sign. -/
theorem Datum.abs_value {s : Bool} {m : Nat} {e : Int} {v : Rat}
    (h : (Datum.finite s m e).value? = some v) : v.abs = m * 2 ^ e := by
  rw [← Option.some.inj h]
  exact abs_sign_mul s (mantissa_nonneg m e)

namespace Single

open Double

variable {x : Double}

/-! ## NaNs -/

theorem round_of_isNaN (h : x.isNaN = true) : round x = (x &&& payloadMask).quiet := by
  rw [round, (isNaN_iff x).1 h]

theorem isNaN_round_of_isNaN (h : x.isNaN = true) : (round x).isNaN = true := by
  have hle : Format.double.infinity ≤ x.magnitude := Nat.le_of_lt (of_decide_eq_true h)
  rw [round_of_isNaN h]
  exact isNaN_quiet_of_le _ (infinity_le_and_payloadMask x hle)

/-- A NaN keeps its sign. -/
theorem negative_round_of_isNaN (h : x.isNaN = true) : (round x).negative = x.negative := by
  rw [round_of_isNaN h, negative_quiet, negative, BitVec.msb_and]
  exact Bool.and_true _

/-! ## Numbers -/

/-- What single precision holds, double precision holds. -/
theorem fits_double {m : Nat} {e : Int} (h : Format.single.Fits m e) : Format.double.Fits m e where
  digits := Nat.lt_trans h.digits (by decide)
  place := Int.le_trans (by decide) h.place
  size := Int.lt_trans h.size (by decide)

/-- What rounding to single precision can deliver. -/
inductive Rounded (y : Double) : Prop
  | nan (hnan : y.isNaN = true) (hquiet : y.isSignaling = false)
  | infinity {s : Bool} (hinfinity : y.datum = .infinity s)
  | number {s : Bool} {m : Nat} {e : Int} (hfits : Format.single.Fits m e)
      (hvalue : y.datum.value? = (Datum.finite s m e).value?)

theorem rounded (x : Double) : Rounded (round x) := by
  cases hdatum : x.datum with
  | nan =>
      have hnan := (isNaN_iff x).2 hdatum
      refine .nan (isNaN_round_of_isNaN hnan) ?_
      rw [round_of_isNaN hnan]
      exact isSignaling_quiet _
  | infinity s =>
      apply Rounded.infinity (s := s)
      rw [round, hdatum]
      exact hdatum
  | finite s m e =>
      rw [round, hdatum]
      show Rounded (if Format.single.round m e = Format.single.infinity then Double.infinity s
        else ofMagnitude s (Format.double.round (Format.single.decode (Format.single.round m e)).1
          (Format.single.decode (Format.single.round m e)).2))
      split
      · exact .infinity (datum_infinity s)
      · next hne =>
        have hle : Format.single.round m e ≤ Format.single.infinity := Format.round_le_infinity ..
        have hfits := Format.fits_decode .single (by decide) (Nat.lt_of_le_of_ne hle hne)
        exact .number hfits (value?_of_fits s (fits_double hfits))

theorem Rounded.isSignaling {y : Double} (h : Rounded y) : y.isSignaling = false := by
  cases h with
  | nan hnan hquiet => exact hquiet
  | infinity hinfinity =>
      apply isSignaling_of_number
      apply isNaN_of_ne_nan
      rw [hinfinity]
      nofun
  | number hfits hvalue => exact isSignaling_of_number (isNaN_of_ne_nan (ne_nan_of_value? hvalue))

/-- A number of single precision other than zero is not smaller than the smallest one. -/
theorem Rounded.least {y : Double} (h : Rounded y) {s : Bool} {m : Nat} {e : Int}
    (hy : y.datum = .finite s m e) (hzero : (m : Rat) * 2 ^ e ≠ 0) :
    2 ^ (-149 : Int) ≤ (m : Rat) * 2 ^ e := by
  cases h with
  | nan hnan =>
      rw [(isNaN_iff y).1 hnan] at hy
      contradiction
  | infinity hinfinity =>
      rw [hinfinity] at hy
      contradiction
  | @number s' m' e' hfits hvalue =>
      -- the number in units of the last place of single precision
      obtain ⟨k, hk⟩ : ∃ k : Nat, e' = k + -149 := ⟨(e' + 149).toNat, by
        have hplace : (-149 : Int) ≤ e' := hfits.place
        omega⟩
      rw [hy, hk, ← Datum.value?_shift] at hvalue
      have hsame : (m : Rat) * 2 ^ e = (m' * 2 ^ k : Nat) * 2 ^ (-149 : Int) := by
        rw [← Datum.abs_value hvalue, Datum.abs_value rfl]
      have hpos : m' * 2 ^ k ≠ 0 := by
        intro hnone
        rw [hnone] at hsame
        exact hzero (hsame.trans (Rat.zero_mul _))
      have hone : ((1 : Nat) : Rat) ≤ (m' * 2 ^ k : Nat) :=
        Rat.natCast_le_natCast.2 (Nat.pos_of_ne_zero hpos)
      have hunit : (0 : Rat) ≤ 2 ^ (-149 : Int) := Rat.le_of_lt (Rat.zpow_pos (by decide))
      calc (2 : Rat) ^ (-149 : Int)
          = ((1 : Nat) : Rat) * 2 ^ (-149 : Int) := (Rat.one_mul _).symm
        _ ≤ (m' * 2 ^ k : Nat) * 2 ^ (-149 : Int) := Rat.mul_le_mul_of_nonneg_right hone hunit
        _ = m * 2 ^ e := hsame.symm

end Single

end Broadway
