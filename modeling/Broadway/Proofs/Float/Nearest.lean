import Broadway.Proofs.Float.Magnitude

/-!
# Rounding gives the nearest magnitude

Magnitudes can be counted on beyond infinity, as though the exponents had no end. Among all of these
`Format.Nearest` is the one nearest to a number, and of two that are equally near the even one.
Rounding gives it, or infinity if it is not below that (`Format.exists_nearest`).

Rounding works in units of the last place that it keeps. In these units the nearest magnitude is the
nearest integer: where the mantissa is full there are further magnitudes between the integers, but
they all lie below a magnitude that is an integer itself and not above the number.
-/

namespace Broadway

/-! ## Scaled numbers -/

/-- Scaling by a power of two and rounding gives the nearest integer. -/
theorem Rounding.nearest_scaleRoundEven (m : Nat) (s : Int) :
    Nearest ((m : Rat) * 2 ^ s) (scaleRoundEven m s : Nat) := by
  have hquotient : scaleRoundEven m s = divRoundEven (m <<< s.toNat) (2 ^ (-s).toNat) := by
    rw [scaleRoundEven]
    split
    · have hnone : (-s).toNat = 0 := by omega
      rw [hnone, Nat.pow_zero, divRoundEven_one]
    · have hnone : s.toNat = 0 := by omega
      rw [hnone, Nat.shiftLeft_zero]
  rw [Datum.mul_zpow_quotient, hquotient]
  exact nearest_divRoundEven _ (Nat.two_pow_pos _)

theorem abs_mul_unit (x : Rat) {u : Rat} (hu : 0 < u) : (x * u).abs = x.abs * u := by
  rcases Rat.le_total (a := 0) (b := x) with hnonneg | hnonpos
  · rw [Rat.abs_of_nonneg hnonneg, Rat.abs_of_nonneg (Rat.mul_nonneg hnonneg (Rat.le_of_lt hu))]
  · have hopposite : 0 ≤ -x * u := Rat.mul_nonneg (by grind) (Rat.le_of_lt hu)
    rw [Rat.abs_of_nonpos hnonpos, Rat.abs_of_nonpos (by grind), Rat.neg_mul]

namespace Format

variable (f : Format)

/-- A magnitude whose number is nearest to a number, and which is even if another one is as near. -/
structure Nearest (v : Rat) (n : Nat) : Prop where
  near : ∀ k, (v - f.number n).abs ≤ (v - f.number k).abs
  even : ∀ k, k ≠ n → (v - f.number n).abs = (v - f.number k).abs → n % 2 = 0

/-! ## Magnitudes in units of the last place -/

/-- The number of a magnitude that is put together from a mantissa, which may have run full. -/
theorem number_steps {steps M : Nat} (hM : M ≤ 2 ^ (f.fractionBits + 1))
    (hsteps : steps = 0 ∨ 2 ^ f.fractionBits ≤ M) :
    f.number (steps * 2 ^ f.fractionBits + M) = M * 2 ^ (f.minExponent + steps) := by
  rcases Nat.lt_or_eq_of_le hM with hroom | hfull
  · rw [number, f.decode_steps hroom hsteps]
  · have hcarry : steps * 2 ^ f.fractionBits + M =
        (steps + 1) * 2 ^ f.fractionBits + 2 ^ f.fractionBits := by
      rw [hfull, Nat.pow_succ, Nat.add_one_mul]
      omega
    have hnext : f.decode ((steps + 1) * 2 ^ f.fractionBits + 2 ^ f.fractionBits) =
        (2 ^ f.fractionBits, f.minExponent + (steps + 1 : Nat)) :=
      f.decode_steps (Nat.pow_lt_pow_right (by decide) (Nat.lt_succ_self _))
        (.inr (Nat.le_refl _))
    have hplace : f.minExponent + ((steps + 1 : Nat) : Int) = f.minExponent + steps + 1 := by omega
    rw [hcarry, number, hnext, hfull, hplace, Rat.zpow_add_one (by decide), Nat.pow_succ,
      Rat.natCast_mul]
    grind

/-- From the magnitude on whose mantissa is just full every magnitude is a multiple of the place. -/
theorem exists_multiple {steps k : Nat}
    (h : steps = 0 ∨ (steps + 1) * 2 ^ f.fractionBits ≤ k) :
    ∃ j : Nat, f.number k = j * 2 ^ (f.minExponent + steps) := by
  obtain ⟨steps', M, rfl, hM, hsteps'⟩ := f.exists_steps k
  have hle : steps ≤ steps' := by
    rcases h with rfl | hfull
    · exact Nat.zero_le _
    · rw [Nat.pow_succ] at hM
      have hlt : (steps + 1) * 2 ^ f.fractionBits < (steps' + 2) * 2 ^ f.fractionBits := by
        rw [Nat.add_mul steps' 2]
        omega
      have hcount := Nat.lt_of_mul_lt_mul_right hlt
      omega
  refine ⟨M * 2 ^ (steps' - steps), ?_⟩
  have hplace : f.minExponent + (steps' : Int) =
      ((steps' - steps : Nat) : Int) + (f.minExponent + steps) := by omega
  rw [f.number_steps (Nat.le_of_lt hM) hsteps', hplace, Rat.zpow_add (by decide), Rat.zpow_natCast,
    Rat.natCast_mul, Rat.natCast_pow, Rat.mul_assoc]
  rfl

/-! ## Rounding -/

/-- What rounding works with: the number is `x` in units of the place that it keeps, and the mantissa
of the result is the integer nearest to that. -/
structure Scaled (m : Nat) (e : Int) (steps q : Nat) (x : Rat) : Prop where
  value : (m : Rat) * 2 ^ e = x * 2 ^ (f.minExponent + steps)
  nearest : Rounding.Nearest x (q : Nat)
  bound : x < (2 ^ (f.fractionBits + 1) : Nat)
  /-- Only at the last place of all the mantissa may be less than full. -/
  full : steps = 0 ∨ ((2 ^ f.fractionBits : Nat) : Rat) ≤ x
  result : f.round m e = min (steps * 2 ^ f.fractionBits + q) f.infinity

theorem exists_scaled {m : Nat} (hm : m ≠ 0) (e : Int) :
    ∃ steps q x, f.Scaled m e steps q x := by
  generalize hunit : max (m.log2 + e - f.fractionBits) f.minExponent = unit
  have hplace : f.minExponent + ((unit - f.minExponent).toNat : Int) = unit := by omega
  have hpow (k : Nat) : ((2 ^ k : Nat) : Rat) = 2 ^ (k : Int) := by
    rw [Rat.zpow_natCast]
    exact Rat.natCast_pow 2 k
  refine ⟨(unit - f.minExponent).toNat, scaleRoundEven m (e - unit), (m : Rat) * 2 ^ (e - unit), ?_⟩
  constructor
  case value => rw [hplace, Rat.mul_assoc, ← Rat.zpow_add (by decide), Int.sub_add_cancel]
  case nearest => exact Rounding.nearest_scaleRoundEven m (e - unit)
  case bound =>
    have hdigits : (m : Rat) < (2 ^ (m.log2 + 1) : Nat) :=
      Rat.natCast_lt_natCast.2 Nat.lt_log2_self
    have hpos : (0 : Rat) < 2 ^ (e - unit) := Rat.zpow_pos (by decide)
    have hbelow := Rat.mul_lt_mul_of_pos_right hdigits hpos
    rw [hpow, ← Rat.zpow_add (by decide)] at hbelow
    rw [hpow]
    exact Std.lt_of_lt_of_le hbelow (two_zpow_le (by omega))
  case full =>
    rcases Int.le_total (m.log2 + e - f.fractionBits) f.minExponent with hlow | hhigh
    · left
      omega
    · right
      have hsum : ((m.log2 : Nat) : Int) + (e - unit) = f.fractionBits := by omega
      have hleading : ((2 ^ m.log2 : Nat) : Rat) ≤ m :=
        Rat.natCast_le_natCast.2 (Nat.log2_self_le hm)
      have hpos : (0 : Rat) ≤ 2 ^ (e - unit) := Rat.le_of_lt (Rat.zpow_pos (by decide))
      calc ((2 ^ f.fractionBits : Nat) : Rat)
          = (2 ^ m.log2 : Nat) * 2 ^ (e - unit) := by
            rw [hpow, hpow, ← Rat.zpow_add (by decide), hsum]
        _ ≤ m * 2 ^ (e - unit) := Rat.mul_le_mul_of_nonneg_right hleading hpos
  case result => simp only [round, hm, if_false, hunit]

namespace Scaled

variable {f} {m : Nat} {e : Int} {steps q : Nat} {x : Rat} (h : f.Scaled m e steps q x)

include h

/-- Rounding does not leave the mantissas of the place, but for one that has run full. -/
theorem mantissa : q ≤ 2 ^ (f.fractionBits + 1) ∧ (steps = 0 ∨ 2 ^ f.fractionBits ≤ q) := by
  have hbelow := h.nearest.below
  have habove := h.nearest.above
  rw [Rat.intCast_natCast] at hbelow habove
  constructor
  · have hbound := h.bound
    refine Classical.byContradiction fun hnot => ?_
    have hq : ((2 ^ (f.fractionBits + 1) + 1 : Nat) : Rat) ≤ q :=
      Rat.natCast_le_natCast.2 (by omega)
    rw [Rat.natCast_add] at hq
    grind
  · rcases h.full with hnone | hfull
    · exact .inl hnone
    · right
      refine Classical.byContradiction fun hnot => ?_
      have hq : ((q + 1 : Nat) : Rat) ≤ (2 ^ f.fractionBits : Nat) :=
        Rat.natCast_le_natCast.2 (by omega)
      rw [Rat.natCast_add] at hq
      grind

theorem distance : ((m : Rat) * 2 ^ e - f.number (steps * 2 ^ f.fractionBits + q)).abs =
    (x - (q : Int)).abs * 2 ^ (f.minExponent + steps) := by
  obtain ⟨hq, hsteps⟩ := h.mantissa
  have hfactor : x * 2 ^ (f.minExponent + steps) - q * 2 ^ (f.minExponent + steps) =
      (x - (q : Int)) * 2 ^ (f.minExponent + steps) := by
    rw [Rat.intCast_natCast]
    grind
  rw [h.value, f.number_steps hq hsteps, hfactor, abs_mul_unit _ (Rat.zpow_pos (by decide))]

/-- Another magnitude is an integer in units of the place, or it lies below one that is and is not
above the number. -/
theorem apart (k : Nat) :
    (∃ j : Nat, ((m : Rat) * 2 ^ e - f.number k).abs =
        (x - (j : Int)).abs * 2 ^ (f.minExponent + steps) ∧
        (k ≠ steps * 2 ^ f.fractionBits + q → j ≠ q)) ∨
      ∃ j : Nat, (x - (j : Int)).abs * 2 ^ (f.minExponent + steps) <
        ((m : Rat) * 2 ^ e - f.number k).abs := by
  have hunit : (0 : Rat) < 2 ^ (f.minExponent + (steps : Int)) := Rat.zpow_pos (by decide)
  by_cases hmultiple : steps = 0 ∨ (steps + 1) * 2 ^ f.fractionBits ≤ k
  · left
    obtain ⟨j, hj⟩ := f.exists_multiple hmultiple
    have hfactor : x * 2 ^ (f.minExponent + steps) - j * 2 ^ (f.minExponent + steps) =
        (x - (j : Int)) * 2 ^ (f.minExponent + steps) := by
      rw [Rat.intCast_natCast]
      grind
    refine ⟨j, ?_, ?_⟩
    · rw [h.value, hj, hfactor, abs_mul_unit _ hunit]
    · rintro hne rfl
      obtain ⟨hq, hsteps⟩ := h.mantissa
      rw [← f.number_steps hq hsteps] at hj
      exact hne (number_inj hj)
  · right
    obtain ⟨hsome, hbelow⟩ := not_or.1 hmultiple
    have hfull := h.full.resolve_left hsome
    refine ⟨2 ^ f.fractionBits, ?_⟩
    -- the magnitude whose mantissa is just full
    have hleast : f.number (steps * 2 ^ f.fractionBits + 2 ^ f.fractionBits) =
        (2 ^ f.fractionBits : Nat) * 2 ^ (f.minExponent + steps) :=
      f.number_steps (Nat.pow_le_pow_right (by decide) (Nat.le_succ _)) (.inr (Nat.le_refl _))
    have hlt : f.number k < (2 ^ f.fractionBits : Nat) * 2 ^ (f.minExponent + steps) := by
      rw [← hleast, number_lt_iff, ← Nat.add_one_mul]
      omega
    have hle : (2 ^ f.fractionBits : Nat) * 2 ^ (f.minExponent + (steps : Int)) ≤
        x * 2 ^ (f.minExponent + (steps : Int)) :=
      Rat.mul_le_mul_of_nonneg_right hfull (Rat.le_of_lt hunit)
    rw [h.value, Rat.intCast_natCast, ← abs_mul_unit _ hunit, Rat.abs_of_nonneg (by grind),
      Rat.abs_of_nonneg (by grind)]
    grind

theorem nearest_magnitude (hf : 1 ≤ f.fractionBits) :
    f.Nearest ((m : Rat) * 2 ^ e) (steps * 2 ^ f.fractionBits + q) := by
  have hunit : (0 : Rat) < 2 ^ (f.minExponent + (steps : Int)) := Rat.zpow_pos (by decide)
  have hscaled {a b : Rat} (hab : a ≤ b) :
      a * 2 ^ (f.minExponent + (steps : Int)) ≤ b * 2 ^ (f.minExponent + (steps : Int)) :=
    Rat.mul_le_mul_of_nonneg_right hab (Rat.le_of_lt hunit)
  constructor
  case near =>
    intro k
    rw [h.distance]
    rcases h.apart k with ⟨j, hj, -⟩ | ⟨j, hj⟩
    · rw [hj]
      exact hscaled (h.nearest.abs_le j)
    · exact Rat.le_trans (hscaled (h.nearest.abs_le j)) (Rat.le_of_lt hj)
  case even =>
    intro k hne htie
    have hparity : (steps * 2 ^ f.fractionBits + q) % 2 = q % 2 := by
      have hhalf : 2 ^ f.fractionBits = 2 * 2 ^ (f.fractionBits - 1) := by
        rw [← Nat.pow_succ', Nat.succ_eq_add_one, Nat.sub_add_cancel hf]
      rw [hhalf, Nat.mul_left_comm, Nat.mul_add_mod]
    rw [h.distance] at htie
    rcases h.apart k with ⟨j, hj, hother⟩ | ⟨j, hj⟩
    · rw [hj] at htie
      have hsame : (x - (q : Int)).abs = (x - (j : Int)).abs := by
        apply Rat.le_antisymm (h.nearest.abs_le j)
        exact Rat.le_of_mul_le_mul_right (htie ▸ Rat.le_refl) hunit
      have hqj : ((q : Nat) : Int) ≠ j := by
        have hjq := hother hne
        omega
      have heven := h.nearest.even_of_abs_eq hqj hsame
      omega
    · -- a magnitude between the integers is farther away
      have hle := hscaled (h.nearest.abs_le j)
      rw [htie] at hle
      exact absurd hle (Rat.not_le.2 hj)

end Scaled

/-- Rounding gives the nearest magnitude, or infinity if that is not below infinity. -/
theorem exists_nearest (hf : 1 ≤ f.fractionBits) (m : Nat) (e : Int) :
    ∃ n, f.Nearest ((m : Rat) * 2 ^ e) n ∧ f.round m e = min n f.infinity := by
  by_cases hm : m = 0
  · subst hm
    have hzero : ((0 : Nat) : Rat) * 2 ^ e = 0 := Rat.zero_mul _
    refine ⟨0, ⟨?_, fun _ _ _ => rfl⟩, ?_⟩
    · intro k
      rw [hzero, number_zero, Rat.sub_self, Rat.abs_zero]
      exact Rat.abs_nonneg
    · rw [round_zero, Nat.zero_min]
  · obtain ⟨steps, q, x, hscaled⟩ := f.exists_scaled hm e
    exact ⟨_, hscaled.nearest_magnitude hf, hscaled.result⟩

end Format

end Broadway
