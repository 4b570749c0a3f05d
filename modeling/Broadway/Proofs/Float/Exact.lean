import Broadway.Proofs.Float.Rounding

/-!
# Numbers that a format holds

Rounding to a format looks at the number and not at the mantissa and the exponent that it comes in
(`Format.round_congr`). What it gives for a mantissa of no more digits than the format has room for
depends on the size of the number alone (`Format.round_cases`):

* a number inside the range is kept (`Format.Fits`, `Format.value_of_fits`);
* one beyond the range becomes infinity (`Format.round_of_large`);
* one with digits beyond the last place of the format is cut to a multiple of that place, and does
  not grow past its own mantissa there (`Format.round_of_small`).

Doubles are read off these laws: whole numbers, powers of two and whatever else fits are exact.
-/

namespace Broadway

/-! ## Rounding looks at the number -/

theorem divRoundEven_mul_right (n d : Nat) {c : Nat} (hc : 0 < c) :
    divRoundEven (n * c) (d * c) = divRoundEven n d := by
  have hbelow : 2 * (n % d * c) < d * c ↔ 2 * (n % d) < d := by
    rw [← Nat.mul_assoc]
    exact Nat.mul_lt_mul_right hc
  have habove : d * c < 2 * (n % d * c) ↔ d < 2 * (n % d) := by
    rw [← Nat.mul_assoc]
    exact Nat.mul_lt_mul_right hc
  simp only [divRoundEven, Nat.mul_div_mul_right _ _ hc, Nat.mul_mod_mul_right, hbelow, habove]

theorem divRoundEven_one (n : Nat) : divRoundEven n 1 = n := by
  simp [divRoundEven, Nat.mod_one]

/-- A quotient that is rounded does not grow past its numerator. -/
theorem divRoundEven_le (n : Nat) {d : Nat} (hd : 0 < d) : divRoundEven n d ≤ n := by
  have hdiv : d * (n / d) + n % d = n := Nat.div_add_mod n d
  have hle : n / d ≤ d * (n / d) := Nat.le_mul_of_pos_left _ hd
  simp only [divRoundEven]
  split
  · exact Nat.div_le_self n d
  · -- there is a rest, so the numerator is larger than the quotient
    split <;> omega

theorem scaleRoundEven_shift (m k : Nat) (s : Int) :
    scaleRoundEven (m * 2 ^ k) s = scaleRoundEven m (k + s) := by
  have hk : 0 < 2 ^ k := Nat.two_pow_pos k
  by_cases hs : 0 ≤ s
  · have hshift : ((k : Int) + s).toNat = k + s.toNat := by omega
    rw [scaleRoundEven, scaleRoundEven, if_pos hs, if_pos (by omega), hshift, Nat.shiftLeft_eq,
      Nat.shiftLeft_eq, Nat.pow_add, Nat.mul_assoc]
  · rw [scaleRoundEven, if_neg hs]
    by_cases hks : 0 ≤ (k : Int) + s
    · -- the divisor cancels against a part of the power
      have hsplit : k = ((k : Int) + s).toNat + (-s).toNat := by omega
      have hpow : 2 ^ k = 2 ^ ((k : Int) + s).toNat * 2 ^ (-s).toNat := by
        rw [← Nat.pow_add, ← hsplit]
      have hcancel := divRoundEven_mul_right (m * 2 ^ ((k : Int) + s).toNat) 1
        (Nat.two_pow_pos (-s).toNat)
      rw [Nat.one_mul] at hcancel
      rw [scaleRoundEven, if_pos hks, hpow, ← Nat.mul_assoc, hcancel, divRoundEven_one,
        Nat.shiftLeft_eq]
    · have hsplit : (-s).toNat = (-((k : Int) + s)).toNat + k := by omega
      rw [scaleRoundEven, if_neg hks, hsplit, Nat.pow_add, divRoundEven_mul_right _ _ hk]

theorem log2_mul_two_pow {m : Nat} (hm : m ≠ 0) (k : Nat) : (m * 2 ^ k).log2 = m.log2 + k := by
  have hk : 0 < 2 ^ k := Nat.two_pow_pos k
  have hlow : 2 ^ m.log2 ≤ m := Nat.log2_self_le hm
  have hhigh : m < 2 ^ (m.log2 + 1) := Nat.lt_log2_self
  rw [Nat.log2_eq_iff (Nat.mul_ne_zero hm (Nat.ne_of_gt hk))]
  constructor
  · rw [Nat.pow_add]
    exact Nat.mul_le_mul_right _ hlow
  · rw [Nat.add_right_comm, Nat.pow_add]
    exact Nat.mul_lt_mul_of_pos_right hhigh hk

/-- Of one number in two units the mantissa in the smaller unit is the larger one, shifted. -/
theorem mantissa_in_unit {m m' : Nat} {e e' : Int} (h : (m : Rat) * 2 ^ e = m' * 2 ^ e')
    (he : e' ≤ e) : m' = m * 2 ^ (e - e').toNat := by
  have htwo : (2 : Rat) ≠ 0 := by decide
  have hsplit : e = ((e - e').toNat : Int) + e' := by omega
  have hpow : ((2 ^ (e - e').toNat : Nat) : Rat) = 2 ^ ((e - e').toNat : Int) := by
    rw [Rat.zpow_natCast]
    exact Rat.natCast_pow 2 _
  have hunit : (0 : Rat) < 2 ^ e' := Rat.zpow_pos (by decide)
  rw [hsplit, Rat.zpow_add htwo, ← Rat.mul_assoc, ← hpow, ← Rat.natCast_mul] at h
  have hcancel : ((m * 2 ^ (e - e').toNat : Nat) : Rat) = m' := by
    have hdiv (x : Rat) : x * 2 ^ e' / 2 ^ e' = x := Rat.mul_div_cancel (by grind)
    rw [← hdiv (m * 2 ^ (e - e').toNat : Nat), h, hdiv]
  exact (Rat.natCast_inj.1 hcancel).symm

namespace Format

variable (f : Format)

@[simp]
theorem round_zero (e : Int) : f.round 0 e = 0 := if_pos rfl

theorem round_shift (m k : Nat) (e : Int) : f.round (m * 2 ^ k) e = f.round m (k + e) := by
  by_cases hm : m = 0
  · simp [hm]
  · have hmk : m * 2 ^ k ≠ 0 := Nat.mul_ne_zero hm (Nat.ne_of_gt (Nat.two_pow_pos k))
    have hunit : (((m.log2 + k : Nat) : Int) + e - f.fractionBits) =
        m.log2 + (k + e) - f.fractionBits := by omega
    simp only [round, hm, hmk, if_false, log2_mul_two_pow hm, scaleRoundEven_shift, hunit,
      Int.add_sub_assoc]

/-- One number is rounded in one way, whatever its mantissa and exponent. -/
theorem round_congr {m m' : Nat} {e e' : Int} (h : (m : Rat) * 2 ^ e = m' * 2 ^ e') :
    f.round m e = f.round m' e' := by
  rcases Int.le_total e' e with hle | hle
  · have hsum : ((e - e').toNat : Int) + e' = e := by omega
    rw [mantissa_in_unit h hle, round_shift, hsum]
  · have hsum : ((e' - e).toNat : Int) + e = e' := by omega
    rw [mantissa_in_unit h.symm hle, round_shift, hsum]

/-! ## Numbers of few digits -/

/-- The mantissa and the exponent of a magnitude that is put together from them. -/
theorem decode_steps {M steps : Nat} (hM : M < 2 ^ (f.fractionBits + 1))
    (hsteps : steps = 0 ∨ 2 ^ f.fractionBits ≤ M) :
    f.decode (steps * 2 ^ f.fractionBits + M) = (M, f.minExponent + steps) := by
  have hpos : 0 < 2 ^ f.fractionBits := Nat.two_pow_pos _
  rw [Nat.pow_succ] at hM
  by_cases hnormal : 2 ^ f.fractionBits ≤ M
  · have hsplit : steps * 2 ^ f.fractionBits + M =
        2 ^ f.fractionBits * (steps + 1) + (M - 2 ^ f.fractionBits) := by
      rw [Nat.mul_succ, Nat.mul_comm]
      omega
    have hdiv : (steps * 2 ^ f.fractionBits + M) / 2 ^ f.fractionBits = steps + 1 := by
      rw [hsplit, Nat.mul_add_div hpos, Nat.div_eq_of_lt (by omega), Nat.add_zero]
    have hmod : (steps * 2 ^ f.fractionBits + M) % 2 ^ f.fractionBits = M - 2 ^ f.fractionBits := by
      rw [hsplit, Nat.mul_add_mod, Nat.mod_eq_of_lt (by omega)]
    rw [decode, hdiv, hmod]
    simp only [Nat.succ_ne_zero, if_false, Nat.add_sub_cancel]
    rw [Nat.add_sub_cancel' hnormal]
  · have hzero : steps = 0 := hsteps.resolve_right hnormal
    have hlt : M < 2 ^ f.fractionBits := Nat.lt_of_not_le hnormal
    rw [hzero, Nat.zero_mul, Nat.zero_add, decode, Nat.div_eq_of_lt hlt, Nat.mod_eq_of_lt hlt]
    simp

/-- What rounding makes of a mantissa that the format has room for: the mantissa is moved up until
it fills the format or stands at the last place. -/
theorem round_cases {m : Nat} {e : Int} (hm : m ≠ 0) (hdigits : m < 2 ^ (f.fractionBits + 1))
    (hplace : f.minExponent ≤ e) :
    ∃ steps k : Nat, e = f.minExponent + steps + k ∧
      m * 2 ^ k < 2 ^ (f.fractionBits + 1) ∧ m.log2 + k ≤ f.fractionBits ∧
      (steps = 0 ∨ 2 ^ f.fractionBits ≤ m * 2 ^ k ∧ m.log2 + k = f.fractionBits) ∧
      f.round m e = min (steps * 2 ^ f.fractionBits + m * 2 ^ k) f.infinity := by
  have hlog : m.log2 < f.fractionBits + 1 := (Nat.log2_lt hm).2 hdigits
  generalize hunit : max (m.log2 + e - f.fractionBits) f.minExponent = unit
  have hk : m.log2 + (e - unit).toNat ≤ f.fractionBits := by omega
  refine ⟨(unit - f.minExponent).toNat, (e - unit).toNat, by omega, ?_, hk, ?_, ?_⟩
  · have hhigh : m < 2 ^ (m.log2 + 1) := Nat.lt_log2_self
    calc m * 2 ^ (e - unit).toNat
        < 2 ^ (m.log2 + 1) * 2 ^ (e - unit).toNat :=
          Nat.mul_lt_mul_of_pos_right hhigh (Nat.two_pow_pos _)
      _ = 2 ^ (m.log2 + (e - unit).toNat + 1) := by rw [← Nat.pow_add, Nat.add_right_comm]
      _ ≤ 2 ^ (f.fractionBits + 1) := Nat.pow_le_pow_right (by decide) (by omega)
  · rcases Int.le_total (m.log2 + e - f.fractionBits) f.minExponent with hlow | hnormal
    · left
      omega
    · right
      have hfull : m.log2 + (e - unit).toNat = f.fractionBits := by omega
      refine ⟨?_, hfull⟩
      calc 2 ^ f.fractionBits
          = 2 ^ m.log2 * 2 ^ (e - unit).toNat := by rw [← Nat.pow_add, hfull]
        _ ≤ m * 2 ^ (e - unit).toNat := Nat.mul_le_mul_right _ (Nat.log2_self_le hm)
  · have hup : 0 ≤ e - unit := by omega
    simp only [round, hm, if_false, hunit, scaleRoundEven, if_pos hup, Nat.shiftLeft_eq]

/-- A number that the format holds: it has no more digits than there is room for, none of them
behind the last place, and lies below infinity. -/
structure Fits (m : Nat) (e : Int) : Prop where
  digits : m < 2 ^ (f.fractionBits + 1)
  place : f.minExponent ≤ e
  size : (m.log2 : Int) + e < 2 ^ (f.exponentBits - 1)

/-- A smaller number in the same unit fits as well. -/
theorem Fits.mono {f : Format} {m n : Nat} {e : Int} (h : f.Fits m e) (hle : n ≤ m) :
    f.Fits n e := by
  have hlog : n.log2 ≤ m.log2 := by
    by_cases hn : n = 0
    · simp [hn]
    · have hm : m ≠ 0 := by omega
      exact (Nat.le_log2 hm).2 (Nat.le_trans (Nat.log2_self_le hn) hle)
  obtain ⟨hdigits, hplace, hsize⟩ := h
  exact ⟨Nat.lt_of_le_of_lt hle hdigits, hplace, by omega⟩

section Range

variable {f} (hf : 2 ≤ f.exponentBits) {m : Nat} {e : Int}

include hf

/-- The magnitude of infinity and the last place of the format by the bound on the exponents. -/
theorem exists_bound : ∃ bound : Nat, 2 ≤ bound ∧ (2 : Int) ^ (f.exponentBits - 1) = bound ∧
    f.infinity = (2 * bound - 1) * 2 ^ f.fractionBits ∧
    f.minExponent = 2 - (bound : Int) - f.fractionBits := by
  have hpow : 2 ^ f.exponentBits = 2 * 2 ^ (f.exponentBits - 1) := by
    rw [← Nat.pow_succ', Nat.succ_eq_add_one, Nat.sub_add_cancel (by omega)]
  have hbound : 2 ^ 1 ≤ 2 ^ (f.exponentBits - 1) := Nat.pow_le_pow_right (by decide) (by omega)
  have hcast : (2 : Int) ^ (f.exponentBits - 1) = (2 ^ (f.exponentBits - 1) : Nat) := by
    exact (Int.natCast_pow 2 _).symm
  refine ⟨2 ^ (f.exponentBits - 1), hbound, hcast, ?_, ?_⟩
  · rw [infinity, hpow]
  · rw [minExponent, hcast]

theorem decode_round_of_fits (h : f.Fits m e) (hm : m ≠ 0) :
    f.round m e < f.infinity ∧
      ∃ k : Nat, f.decode (f.round m e) = (m * 2 ^ k, e - k) := by
  obtain ⟨bound, hbound, hpow, hinfinity, hmin⟩ := exists_bound hf
  obtain ⟨steps, k, he, hM, hk, hsteps, hround⟩ := f.round_cases hm h.digits h.place
  have hsize := h.size
  have hbelow : steps * 2 ^ f.fractionBits + m * 2 ^ k < f.infinity := by
    have hrange : steps + 2 ≤ 2 * bound - 1 := by omega
    have hmul : (steps + 2) * 2 ^ f.fractionBits ≤ (2 * bound - 1) * 2 ^ f.fractionBits :=
      Nat.mul_le_mul_right _ hrange
    rw [Nat.add_mul, ← Nat.pow_succ'] at hmul
    rw [hinfinity]
    omega
  rw [hround, Nat.min_eq_left (Nat.le_of_lt hbelow)]
  refine ⟨hbelow, k, ?_⟩
  have hexponent : e - (k : Int) = f.minExponent + steps := by omega
  rw [hexponent]
  exact f.decode_steps hM (hsteps.imp_right And.left)

/-- Rounding keeps a number that the format holds. -/
theorem value_of_fits (h : f.Fits m e) :
    f.round m e < f.infinity ∧
      ((f.decode (f.round m e)).1 : Rat) * 2 ^ (f.decode (f.round m e)).2 = m * 2 ^ e := by
  by_cases hm : m = 0
  · obtain ⟨bound, hbound, -, hinfinity, -⟩ := exists_bound hf
    have hpos : 0 < f.infinity := by
      rw [hinfinity]
      exact Nat.mul_pos (by omega) (Nat.two_pow_pos _)
    subst hm
    rw [round_zero]
    refine ⟨hpos, ?_⟩
    simp [decode]
  · obtain ⟨hbelow, k, hdecode⟩ := decode_round_of_fits hf h hm
    refine ⟨hbelow, ?_⟩
    rw [hdecode]
    have hpow : ((2 ^ k : Nat) : Rat) = 2 ^ (k : Int) := by
      rw [Rat.zpow_natCast]
      exact Rat.natCast_pow 2 k
    have hexponent : (k : Int) + (e - k) = e := by omega
    rw [Rat.natCast_mul, hpow, Rat.mul_assoc, ← Rat.zpow_add (by decide), hexponent]

/-- A number of few digits that is too large becomes infinity. -/
theorem round_of_large (hm : m ≠ 0) (hdigits : m < 2 ^ (f.fractionBits + 1))
    (hplace : f.minExponent ≤ e) (hlarge : 2 ^ (f.exponentBits - 1) ≤ (m.log2 : Int) + e) :
    f.round m e = f.infinity := by
  obtain ⟨bound, hbound, hpow, hinfinity, hmin⟩ := exists_bound hf
  obtain ⟨steps, k, he, hM, hk, hsteps, hround⟩ := f.round_cases hm hdigits hplace
  have hmany : 2 * bound - 1 ≤ steps + 1 := by omega
  have hfull : 2 ^ f.fractionBits ≤ m * 2 ^ k := (hsteps.resolve_left (by omega)).1
  have hmul : (2 * bound - 1) * 2 ^ f.fractionBits ≤ (steps + 1) * 2 ^ f.fractionBits :=
    Nat.mul_le_mul_right _ hmany
  have hnext : (steps + 1) * 2 ^ f.fractionBits = steps * 2 ^ f.fractionBits + 2 ^ f.fractionBits :=
    Nat.add_one_mul _ _
  rw [hround, hinfinity]
  omega

end Range

/-- A number in a unit below the last place is cut to multiples of that place. There are no more of
them than there were units. -/
theorem round_of_small {m : Nat} {e : Int} (hdigits : m < 2 ^ (f.fractionBits + 1))
    (hsmall : e ≤ f.minExponent) :
    f.round m e ≤ m ∧ f.decode (f.round m e) = (f.round m e, f.minExponent) := by
  have hle : f.round m e ≤ m := by
    by_cases hm : m = 0
    · simp [hm]
    · have hlog : m.log2 < f.fractionBits + 1 := (Nat.log2_lt hm).2 hdigits
      have hunit : max (m.log2 + e - f.fractionBits) f.minExponent = f.minExponent := by omega
      have hcut : scaleRoundEven m (e - f.minExponent) ≤ m := by
        rw [scaleRoundEven]
        split
        · have hzero : (e - f.minExponent).toNat = 0 := by omega
          simp [hzero]
        · exact divRoundEven_le m (Nat.two_pow_pos _)
      simp only [round, hm, if_false, hunit, Int.sub_self, Int.toNat_zero, Nat.zero_mul,
        Nat.zero_add]
      omega
  have hdecode : f.decode (0 * 2 ^ f.fractionBits + f.round m e) =
      (f.round m e, f.minExponent + (0 : Nat)) :=
    f.decode_steps (Nat.lt_of_le_of_lt hle hdigits) (.inl rfl)
  rw [Nat.zero_mul, Nat.zero_add] at hdecode
  exact ⟨hle, by simpa using hdecode⟩

/-- What a finite magnitude stands for fits the format. -/
theorem fits_decode (hf : 2 ≤ f.exponentBits) {n : Nat} (h : n < f.infinity) :
    f.Fits (f.decode n).1 (f.decode n).2 := by
  obtain ⟨bound, hbound, hpow, hinfinity, hmin⟩ := exists_bound hf
  have hpos : 0 < 2 ^ f.fractionBits := Nat.two_pow_pos _
  have hrest : n % 2 ^ f.fractionBits < 2 ^ f.fractionBits := Nat.mod_lt _ hpos
  have hfield : n / 2 ^ f.fractionBits < 2 * bound - 1 := by
    rw [Nat.div_lt_iff_lt_mul hpos, ← hinfinity]
    exact h
  have hdouble : 2 ^ (f.fractionBits + 1) = 2 ^ f.fractionBits + 2 ^ f.fractionBits := by
    rw [Nat.pow_succ]
    omega
  have hsize {m : Nat} (hm : m < 2 ^ (f.fractionBits + 1)) : m.log2 ≤ f.fractionBits := by
    by_cases hzero : m = 0
    · simp [hzero]
    · exact Nat.le_of_lt_succ ((Nat.log2_lt hzero).2 hm)
  rw [decode]
  split
  · have hdigits : n % 2 ^ f.fractionBits < 2 ^ (f.fractionBits + 1) := by omega
    have hlog := hsize hdigits
    refine ⟨hdigits, Int.le_refl _, ?_⟩
    show ((n % 2 ^ f.fractionBits).log2 : Int) + f.minExponent < 2 ^ (f.exponentBits - 1)
    omega
  · have hdigits : 2 ^ f.fractionBits + n % 2 ^ f.fractionBits < 2 ^ (f.fractionBits + 1) := by
      omega
    have hlog := hsize hdigits
    refine ⟨hdigits, Int.le_add_of_nonneg_right (Int.natCast_nonneg _), ?_⟩
    show ((2 ^ f.fractionBits + n % 2 ^ f.fractionBits).log2 : Int)
      + (f.minExponent + (n / 2 ^ f.fractionBits - 1 : Nat)) < 2 ^ (f.exponentBits - 1)
    omega

end Format

/-! ## Doubles -/

namespace Double

section Magnitude

variable (s : Bool) {n : Nat} (hn : n < 2 ^ 63)

include hn

theorem toNat_ofMagnitude : (ofMagnitude s n).toNat = s.toNat * 2 ^ 63 + n := by
  have hmod : n % 2 ^ 64 = n := Nat.mod_eq_of_lt (by omega)
  rw [ofMagnitude, BitVec.toNat_or, BitVec.toNat_ofNat, hmod]
  cases s with
  | false => simp
  | true =>
      show 2 ^ 63 ||| n = _
      rw [Bool.toNat_true, ← Nat.shiftLeft_eq, Nat.shiftLeft_add_eq_or_of_lt hn]
      rfl

theorem negative_ofMagnitude : (ofMagnitude s n).negative = s := by
  rw [negative, BitVec.msb_eq_decide, toNat_ofMagnitude s hn]
  cases s with
  | false => exact decide_eq_false (by simp only [Bool.toNat_false]; omega)
  | true => exact decide_eq_true (by simp only [Bool.toNat_true]; omega)

theorem magnitude_ofMagnitude : (ofMagnitude s n).magnitude = n := by
  rw [magnitude, toNat_ofMagnitude s hn]
  omega

theorem datum_ofMagnitude : (ofMagnitude s n).datum = Format.double.datum s n := by
  rw [datum_eq, negative_ofMagnitude s hn, magnitude_ofMagnitude s hn]

end Magnitude

theorem datum_infinity (s : Bool) : (infinity s).datum = .infinity s :=
  datum_ofMagnitude s (by decide)

theorem datum_of_lt_infinity (s : Bool) {n : Nat} (h : n < Format.double.infinity) :
    (ofMagnitude s n).datum =
      .finite s (Format.double.decode n).1 (Format.double.decode n).2 := by
  have hbound : Format.double.infinity < 2 ^ 63 := by decide
  rw [datum_ofMagnitude s (by omega), Format.datum, if_neg (by omega), if_neg (by omega)]

/-- A number that doubles hold is the number of the double that it is rounded to. -/
theorem value?_of_fits (s : Bool) {m : Nat} {e : Int} (h : Format.double.Fits m e) :
    (ofMagnitude s (Format.double.round m e)).datum.value? = (Datum.finite s m e).value? := by
  obtain ⟨hbelow, hvalue⟩ := Format.value_of_fits (f := .double) (by decide) h
  rw [datum_of_lt_infinity s hbelow, Datum.value?, Datum.value?, hvalue]

/-- What a finite double stands for fits. -/
theorem fits_datum {x : Double} {s : Bool} {m : Nat} {e : Int} (h : x.datum = .finite s m e) :
    Format.double.Fits m e := by
  rw [datum] at h
  split at h
  · contradiction
  · next hnan =>
    split at h
    · contradiction
    · next hinfinite =>
      have hbelow : x.magnitude < Format.double.infinity := by
        simp only [isNaN, isInfinite, decide_eq_true_eq] at hnan hinfinite
        omega
      obtain ⟨-, rfl, rfl⟩ := Datum.finite.inj h
      exact Format.fits_decode .double (by decide) hbelow

/-- A number that doubles hold, whatever mantissa and exponent show this, is that of the double that
its datum is rounded to. -/
theorem exists_of_fits {d : Datum} {v : Rat} {m : Nat} {e : Int} (hd : d.value? = some v)
    (hv : v = m * 2 ^ e ∨ v = -(m * 2 ^ e)) (hfits : Format.double.Fits m e) :
    ∃ y, ofDatum? d = some y ∧ y.datum.value? = some v := by
  cases d with
  | nan | infinity => contradiction
  | finite s n k =>
      have hsigned : (if s then (-1 : Rat) else 1) * (n * 2 ^ k) = v := Option.some.inj hd
      have hm := mantissa_nonneg m e
      have hsame : (n : Rat) * 2 ^ k = m * 2 ^ e := by
        rw [← abs_sign_mul s (mantissa_nonneg n k), hsigned]
        rcases hv with rfl | rfl
        · rw [Rat.abs_of_nonneg hm]
        · rw [Rat.abs_neg, Rat.abs_of_nonneg hm]
      refine ⟨_, rfl, ?_⟩
      rw [Format.round_congr _ hsame, value?_of_fits s hfits, ← hd, Datum.value?, Datum.value?,
        hsame]

/-- Natural numbers of at most fifty-three bits are doubles. -/
theorem fits_whole {n : Nat} (h : n < 2 ^ 53) : Format.double.Fits n 0 := by
  have hlog : n.log2 ≤ 53 := by
    by_cases hzero : n = 0
    · simp [hzero]
    · exact Nat.le_of_lt ((Nat.log2_lt hzero).2 h)
  exact ⟨h, by decide, by show (n.log2 : Int) + 0 < 1024; omega⟩

/-- Whole numbers of at most fifty-three bits are doubles. -/
theorem value?_ofInt {n : Int} (h : n.natAbs < 2 ^ 53) :
    (ofInt n).datum.value? = some (n : Rat) := by
  have hunit : (2 : Rat) ^ (0 : Int) = 1 := rfl
  rw [ofInt, value?_of_fits _ (fits_whole h), Datum.value?, hunit, Rat.mul_one,
    ← Datum.intCast_eq_sign_mul]

section PowerOfTwo

variable {k : Int} (hlow : -1074 ≤ k) (hhigh : k < 1024)

include hlow hhigh

theorem fits_one : Format.double.Fits 1 k :=
  ⟨by decide, hlow, by show (0 : Int) + k < 1024; omega⟩

/-- Powers of two inside the range are doubles. -/
theorem value?_twoPow : (twoPow k).datum.value? = some ((2 : Rat) ^ k) := by
  rw [twoPow, value?_of_fits _ (fits_one hlow hhigh)]
  show some (1 * (((1 : Nat) : Rat) * 2 ^ k)) = _
  rw [Rat.one_mul]
  exact congrArg some (Rat.one_mul _)

theorem negative_twoPow : (twoPow k).negative = false := by
  obtain ⟨hbelow, -⟩ := Format.value_of_fits (f := .double) (by decide) (fits_one hlow hhigh)
  have hbound : Format.double.infinity < 2 ^ 63 := by decide
  exact negative_ofMagnitude false (by omega)

theorem exists_datum_twoPow :
    ∃ m e, (twoPow k).datum = .finite false m e ∧ (m : Rat) * 2 ^ e = 2 ^ k := by
  have hvalue := value?_twoPow hlow hhigh
  obtain ⟨m, e, hdatum⟩ := finite_of_value? hvalue
  rw [negative_twoPow hlow hhigh] at hdatum
  rw [hdatum] at hvalue
  refine ⟨m, e, hdatum, ?_⟩
  rw [← Rat.one_mul ((m : Rat) * 2 ^ e)]
  exact Option.some.inj hvalue

/-- A product with a power of two moves the exponent and rounds once. -/
theorem mul?_twoPow {x : Double} {s : Bool} {m : Nat} {e : Int} (hx : x.datum = .finite s m e) :
    x.mul? (twoPow k) = some (ofMagnitude s (Format.double.round m (e + k))) := by
  obtain ⟨m', e', hpower, hunit⟩ := exists_datum_twoPow hlow hhigh
  have hround : Format.double.round (m * m') (e + e') = Format.double.round m (e + k) := by
    apply Format.round_congr
    rw [Rat.natCast_mul, Rat.zpow_add (by decide), Rat.zpow_add (by decide), ← hunit]
    grind
  rw [mul?, hx, hpower]
  show some (ofMagnitude (s != false) (Format.double.round (m * m') (e + e'))) = _
  rw [hround, Bool.bne_false]

/-- A product with a power of two is exact if doubles hold it. The mantissa and the exponent that
show this need not be those of the operand. -/
theorem exists_mul?_twoPow {x : Double} {v : Rat} {m : Nat} {e : Int}
    (hx : x.datum.value? = some v) (hv : v = m * 2 ^ e ∨ v = -(m * 2 ^ e))
    (hfits : Format.double.Fits m (e + k)) :
    ∃ y, x.mul? (twoPow k) = some y ∧ y.datum.value? = some (v * 2 ^ k) := by
  obtain ⟨n, d, hdatum⟩ := finite_of_value? hx
  rw [hdatum] at hx
  have hproduct : (Datum.finite x.negative n (d + k)).value? = some (v * 2 ^ k) := by
    rw [← Option.some.inj hx, Datum.value?, Rat.zpow_add (by decide)]
    grind
  have hscaled : v * 2 ^ k = m * 2 ^ (e + k) ∨ v * 2 ^ k = -(m * 2 ^ (e + k)) := by
    rw [Rat.zpow_add (by decide), ← Rat.mul_assoc]
    rcases hv with rfl | rfl
    · exact .inl rfl
    · exact .inr (Rat.neg_mul _ _)
  obtain ⟨y, hy, hvalue⟩ := exists_of_fits hproduct hscaled hfits
  exact ⟨y, (mul?_twoPow hlow hhigh hdatum).trans hy, hvalue⟩

end PowerOfTwo

end Double

end Broadway
