import Broadway.Proofs.Float.Exact

/-!
# The order of doubles

The next magnitude stands for the number that is one unit of the last place greater
(`Format.number_succ`), so magnitudes are ordered as their numbers are. The processor compares
doubles by their signs and magnitudes, and that decides the order of the numbers
(`Double.order_of_numbers`) and places the infinities around them (`Double.order_of_infinity`).
-/

namespace Broadway

namespace Format

variable (f : Format)

/-- The number that a magnitude stands for. -/
def number (n : Nat) : Rat := ((f.decode n).1 : Rat) * 2 ^ (f.decode n).2

/-- Every magnitude is put together from a mantissa and the place of its last digit. -/
theorem exists_steps (n : Nat) : ∃ steps M, n = steps * 2 ^ f.fractionBits + M ∧
    M < 2 ^ (f.fractionBits + 1) ∧ (steps = 0 ∨ 2 ^ f.fractionBits ≤ M) := by
  have hrest : n % 2 ^ f.fractionBits < 2 ^ f.fractionBits := Nat.mod_lt _ (Nat.two_pow_pos _)
  have hsplit : 2 ^ f.fractionBits * (n / 2 ^ f.fractionBits) + n % 2 ^ f.fractionBits = n :=
    Nat.div_add_mod n _
  rw [Nat.pow_succ]
  rcases Nat.eq_zero_or_pos (n / 2 ^ f.fractionBits) with hzero | hpos
  · rw [hzero, Nat.mul_zero, Nat.zero_add] at hsplit
    exact ⟨0, n, by omega, by omega, .inl rfl⟩
  · obtain ⟨steps, hsteps⟩ := Nat.exists_eq_succ_of_ne_zero (Nat.ne_of_gt hpos)
    rw [hsteps, Nat.mul_succ, Nat.mul_comm] at hsplit
    refine ⟨steps, 2 ^ f.fractionBits + n % 2 ^ f.fractionBits, ?_, ?_, ?_⟩
    · omega
    · omega
    · right
      omega

theorem number_succ (n : Nat) : f.number (n + 1) = f.number n + 2 ^ (f.decode n).2 := by
  obtain ⟨steps, M, rfl, hM, hsteps⟩ := f.exists_steps n
  have hpow : 2 ^ (f.fractionBits + 1) = 2 ^ f.fractionBits + 2 ^ f.fractionBits := by
    rw [Nat.pow_succ]
    omega
  have hdecode := f.decode_steps hM hsteps
  rcases Nat.lt_or_ge (M + 1) (2 ^ (f.fractionBits + 1)) with hroom | hfull
  · have hnext := f.decode_steps hroom (hsteps.imp_right fun h => Nat.le_succ_of_le h)
    rw [← Nat.add_assoc] at hnext
    rw [number, number, hnext, hdecode, Rat.natCast_add]
    grind
  · -- the mantissa has run full, so the last digit moves up
    have hcarry : steps * 2 ^ f.fractionBits + M + 1 =
        (steps + 1) * 2 ^ f.fractionBits + 2 ^ f.fractionBits := by
      rw [Nat.add_one_mul]
      omega
    have hnext : f.decode ((steps + 1) * 2 ^ f.fractionBits + 2 ^ f.fractionBits) =
        (2 ^ f.fractionBits, f.minExponent + (steps + 1 : Nat)) :=
      f.decode_steps (by omega) (.inr (Nat.le_refl _))
    have hdouble : 2 ^ f.fractionBits * 2 = M + 1 := by omega
    have hM' : ((2 ^ f.fractionBits : Nat) : Rat) * 2 = M + 1 := by
      exact_mod_cast hdouble
    have hexponent : f.minExponent + ((steps + 1 : Nat) : Int) = f.minExponent + steps + 1 := by
      omega
    have htwo : (2 : Rat) ^ (f.minExponent + (steps : Int) + 1) =
        2 * 2 ^ (f.minExponent + (steps : Int)) := by
      rw [Rat.zpow_add_one (by decide), Rat.mul_comm]
    rw [hcarry, number, number, hnext, hdecode, hexponent, htwo, ← Rat.mul_assoc, hM']
    grind

@[simp]
theorem number_zero : f.number 0 = 0 := by
  simp [number, decode]

theorem number_strictMono {a b : Nat} (h : a < b) : f.number a < f.number b := by
  have hnext (n : Nat) : f.number n < f.number (n + 1) := by
    have hunit : (0 : Rat) < 2 ^ (f.decode n).2 := Rat.zpow_pos (by decide)
    rw [number_succ]
    grind
  induction h with
  | refl => exact hnext a
  | @step n _ ih =>
      have hlast := hnext n
      grind

theorem number_nonneg (n : Nat) : 0 ≤ f.number n := mantissa_nonneg ..

end Format

namespace Double

/-- The number of a magnitude that has the sign of an integer. -/
def keyNumber (k : Int) : Rat :=
  if k < 0 then -Format.double.number k.natAbs else Format.double.number k.natAbs

theorem keyNumber_strictMono {a b : Int} (h : a < b) : keyNumber a < keyNumber b := by
  rw [keyNumber, keyNumber]
  split
  · next ha =>
    split
    · -- of two negative numbers the one with the greater magnitude is less
      have hlt := Format.double.number_strictMono (show b.natAbs < a.natAbs by omega)
      grind
    · have hpos := Format.double.number_strictMono (show 0 < a.natAbs by omega)
      have hnonneg := Format.double.number_nonneg b.natAbs
      rw [Format.number_zero] at hpos
      grind
  · rw [if_neg (by omega)]
    exact Format.double.number_strictMono (by omega)

theorem keyNumber_lt_iff {a b : Int} : keyNumber a < keyNumber b ↔ a < b := by
  constructor
  · intro h
    rcases Int.lt_trichotomy a b with hlt | heq | hgt
    · exact hlt
    · exact absurd (heq ▸ h) Rat.lt_irrefl
    · exact absurd (Rat.le_of_lt h) (Rat.not_le.2 (keyNumber_strictMono hgt))
  · exact keyNumber_strictMono

variable {x y : Double} {v w : Rat}

theorem isNaN_of_ne_nan (h : x.datum ≠ .nan) : x.isNaN = false := by
  cases hnan : x.isNaN with
  | false => rfl
  | true =>
      rw [datum, hnan] at h
      exact absurd rfl h

/-- The number of a finite double. -/
theorem value_eq (hx : x.datum.value? = some v) :
    x.magnitude < Format.double.infinity ∧ v = keyNumber x.orderKey := by
  have hnan := isNaN_of_ne_nan (ne_nan_of_value? hx)
  rw [datum, hnan, if_neg Bool.false_ne_true] at hx
  split at hx
  · contradiction
  · next hinfinite =>
    have hbelow : x.magnitude < Format.double.infinity := by
      simp only [isNaN, isInfinite, decide_eq_true_eq, decide_eq_false_iff_not] at hnan hinfinite
      omega
    refine ⟨hbelow, ?_⟩
    rw [← Option.some.inj hx, keyNumber, orderKey]
    show _ * Format.double.number x.magnitude = _
    cases x.negative with
    | false =>
        have hnonneg : ¬ (x.magnitude : Int) < 0 := by omega
        rw [if_neg Bool.false_ne_true, if_neg Bool.false_ne_true, if_neg hnonneg, Rat.one_mul]
        rfl
    | true =>
        rw [if_pos rfl, if_pos rfl, Int.natAbs_neg, Int.natAbs_natCast, Rat.neg_mul, Rat.one_mul]
        by_cases hzero : x.magnitude = 0
        · rw [hzero, Format.number_zero]
          rfl
        · rw [if_pos (by omega)]

/-- Comparing signs and magnitudes decides the order of the numbers. -/
theorem order_of_numbers (hx : x.datum.value? = some v) (hy : y.datum.value? = some w) :
    x.order y = some (if v < w then .lt else if v = w then .eq else .gt) := by
  have hv := (value_eq hx).2
  have hw := (value_eq hy).2
  have heq : v = w ↔ x.orderKey = y.orderKey := by
    constructor
    · intro h
      have hnot : ¬ x.orderKey < y.orderKey ∧ ¬ y.orderKey < x.orderKey := by
        rw [← keyNumber_lt_iff, ← keyNumber_lt_iff, ← hv, ← hw, h]
        exact ⟨Rat.lt_irrefl, Rat.lt_irrefl⟩
      omega
    · intro h
      rw [hv, hw, h]
  rw [order, isNaN_of_ne_nan (ne_nan_of_value? hx), isNaN_of_ne_nan (ne_nan_of_value? hy)]
  simp only [heq]
  rw [hv, hw]
  simp only [keyNumber_lt_iff]
  rfl

theorem magnitude_of_infinity {s : Bool} (hx : x.datum = .infinity s) :
    x.magnitude = Format.double.infinity := by
  rw [datum] at hx
  split at hx
  · contradiction
  · split at hx
    · next hinfinite => exact of_decide_eq_true hinfinite
    · contradiction

/-- An infinity lies beyond all numbers. -/
theorem order_of_infinity {s : Bool} (hx : x.datum = .infinity s) (hy : y.datum.value? = some w) :
    x.order y = some (if s then .lt else .gt) := by
  have hmagnitude := magnitude_of_infinity hx
  have hbelow := (value_eq hy).1
  have hnan : x.datum ≠ .nan := by
    rw [hx]
    nofun
  have hkey : -(Format.double.infinity : Int) < y.orderKey ∧
      y.orderKey < Format.double.infinity := by
    rw [orderKey]
    split <;> omega
  rw [order, isNaN_of_ne_nan hnan, isNaN_of_ne_nan (ne_nan_of_value? hy),
    orderKey, ← negative_of_infinity hx, hmagnitude]
  cases s with
  | true =>
      simp only [Bool.or_self, Bool.false_eq_true, if_false, if_true]
      rw [Int.compare_eq_lt.2 hkey.1]
  | false =>
      simp only [Bool.or_self, Bool.false_eq_true, if_false]
      rw [Int.compare_eq_gt.2 hkey.2]

end Double

end Broadway
