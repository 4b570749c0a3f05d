import Broadway.Float.Integer
import Broadway.Proofs.Float.Value

/-!
# Rounding to an integer

`Rounding.round` says for the four modes what integer a rational number is rounded to, by its floor
and its ceiling, and `Rounding.apply` says it for a quotient of natural numbers, by the division and
its remainder. Both give the same integer (`Rounding.round_eq`). Toward zero it is the one that a
datum is cut to (`Datum.cut_number`). To take halves away from zero and odd numbers back by one
after that is to take halves to the even number (`divRoundEven_eq`).
-/

namespace Broadway

namespace Rounding

/-- The integer that a number is rounded to. The nearest mode takes the even integer of two that are
equally near. -/
def round (mode : Rounding) (x : Rat) : Int :=
  match mode with
  | .nearestEven =>
    if 2 * (x - x.floor) < 1 then x.floor
    else if 1 < 2 * (x - x.floor) then x.floor + 1
    else x.floor + x.floor % 2
  | .towardZero => if x < 0 then x.ceil else x.floor
  | .up => x.ceil
  | .down => x.floor

/-- The integer that a quotient of natural numbers with a sign is rounded to, without its sign. -/
def apply (mode : Rounding) (negative : Bool) (n d : Nat) : Nat :=
  match mode with
  | .nearestEven => divRoundEven n d
  | .towardZero => n / d
  | .up => if negative then n / d else divRoundUp n d
  | .down => if negative then divRoundUp n d else n / d

/-! ## Floors and ceilings -/

theorem floor_eq {x : Rat} {k : Int} (hlow : k ≤ x) (hhigh : x < k + 1) : x.floor = k := by
  have hle : k ≤ x.floor := Rat.le_floor_iff.2 hlow
  have hlt : x.floor < k + 1 := Rat.floor_lt_iff.2 (by rw [Rat.intCast_add]; exact hhigh)
  omega

theorem ceil_eq {x : Rat} {k : Int} (hlow : k - 1 < x) (hhigh : x ≤ k) : x.ceil = k := by
  have hfloor : (-x).floor = -k := by
    apply floor_eq
    · rw [Rat.intCast_neg]
      grind
    · rw [Rat.intCast_neg]
      grind
  rw [Rat.ceil_eq_neg_floor_neg, hfloor]
  omega

/-! ## The nearest integer -/

/-- An integer lies within one half of a number, and is even if it lies that far from it. -/
structure Nearest (x : Rat) (r : Int) : Prop where
  below : 2 * (x - r) ≤ 1
  above : 2 * (r - x) ≤ 1
  tie : 2 * (x - r) = 1 ∨ 2 * (r - x) = 1 → r % 2 = 0

/-- Two integers are the same or lie one apart at least. -/
theorem apart_of_ne {j k : Int} (h : j ≠ k) : (j : Rat) + 1 ≤ k ∨ (k : Rat) + 1 ≤ j := by
  rcases Int.lt_or_gt_of_ne h with hlt | hgt
  · left
    exact_mod_cast (show j + 1 ≤ k by omega)
  · right
    exact_mod_cast (show k + 1 ≤ j by omega)

namespace Nearest

variable {x : Rat} {r : Int}

/-- Of two integers that lie within one half of a number one at most is even. -/
theorem unique (h : Nearest x r) {r' : Int} (h' : Nearest x r') : r = r' := by
  refine Classical.byContradiction fun hne => ?_
  obtain ⟨hbelow, habove, htie⟩ := h
  obtain ⟨hbelow', habove', htie'⟩ := h'
  rcases apart_of_ne hne with hlow | hhigh
  · -- the number lies in the middle between the two
    have hr : r % 2 = 0 := htie (.inl (by grind))
    have hr' : r' % 2 = 0 := htie' (.inr (by grind))
    have hnext : r' = r + 1 := by
      have hcast : (r' : Rat) = ((r + 1 : Int) : Rat) := by
        rw [Rat.intCast_add]
        grind
      exact Rat.intCast_inj.1 hcast
    omega
  · have hr : r % 2 = 0 := htie (.inr (by grind))
    have hr' : r' % 2 = 0 := htie' (.inl (by grind))
    have hnext : r = r' + 1 := by
      have hcast : (r : Rat) = ((r' + 1 : Int) : Rat) := by
        rw [Rat.intCast_add]
        grind
      exact Rat.intCast_inj.1 hcast
    omega

theorem neg (h : Nearest x r) : Nearest (-x) (-r) := by
  obtain ⟨hbelow, habove, htie⟩ := h
  refine ⟨?_, ?_, ?_⟩
  · rw [Rat.intCast_neg]
    grind
  · rw [Rat.intCast_neg]
    grind
  · rw [Rat.intCast_neg]
    intro hmiddle
    have hr : r % 2 = 0 := htie (by grind)
    omega

/-- No integer lies nearer. -/
theorem abs_le (h : Nearest x r) (k : Int) : (x - r).abs ≤ (x - k).abs := by
  obtain ⟨hbelow, habove, -⟩ := h
  by_cases hk : r = k
  · subst hk
    exact Rat.le_refl
  · have hapart := apart_of_ne hk
    simp only [Rat.abs]
    split <;> split <;> grind

/-- If another integer lies as near, then the number is in the middle between the two. -/
theorem even_of_abs_eq (h : Nearest x r) {k : Int} (hk : r ≠ k)
    (habs : (x - r).abs = (x - k).abs) : r % 2 = 0 := by
  obtain ⟨hbelow, habove, htie⟩ := h
  have hapart := apart_of_ne hk
  have hmiddle : 2 * (x - r) = 1 ∨ 2 * (r - x) = 1 := by
    simp only [Rat.abs] at habs
    split at habs <;> split at habs <;> grind
  exact htie hmiddle

end Nearest

theorem nearest_round (x : Rat) : Nearest x (round .nearestEven x) := by
  have hlow : (x.floor : Rat) ≤ x := Rat.floor_le x
  have hhigh : x < (x.floor : Rat) + 1 := by
    have hlt := Rat.lt_floor_add_one x
    rwa [Rat.intCast_add] at hlt
  rw [round]
  generalize x.floor = f at *
  split
  · next hbelow =>
    have hmiddle : ¬(2 * (x - f) = 1 ∨ 2 * (f - x) = 1) := by grind
    exact ⟨by grind, by grind, fun h => absurd h hmiddle⟩
  · split
    · next hbelow habove =>
      have hmiddle : ¬(2 * (x - (f + 1 : Int)) = 1 ∨ 2 * ((f + 1 : Int) - x) = 1) := by
        rw [Rat.intCast_add]
        grind
      refine ⟨?_, ?_, fun h => absurd h hmiddle⟩
      all_goals
        rw [Rat.intCast_add]
        grind
    · next hbelow habove =>
      have hparity : f % 2 = 0 ∨ f % 2 = 1 := by omega
      rcases hparity with heven | hodd
      · rw [heven, Int.add_zero]
        exact ⟨by grind, by grind, fun _ => heven⟩
      · rw [hodd]
        refine ⟨?_, ?_, fun _ => by omega⟩
        all_goals
          rw [Rat.intCast_add]
          grind

@[simp]
theorem towardZero_intCast (k : Int) : towardZero.round (k : Rat) = k := by
  rw [round, Rat.ceil_intCast, Rat.floor_intCast, ite_self]

/-! ## Quotients -/

/-- A quotient of natural numbers is the whole number of the division and a part below one, which
the remainder places against zero and one half. -/
theorem exists_fraction (n : Nat) {d : Nat} (hd : 0 < d) :
    ∃ t : Rat, (n : Rat) / d = ((n / d : Nat) : Rat) + t ∧ 0 ≤ t ∧ t < 1 ∧
      (t = 0 ↔ n % d = 0) ∧ (2 * t < 1 ↔ 2 * (n % d) < d) ∧ (1 < 2 * t ↔ d < 2 * (n % d)) := by
  have hpos : (0 : Rat) < d := Rat.natCast_pos.2 hd
  have hdiv : (n : Rat) = d * (n / d : Nat) + (n % d : Nat) := by
    rw [← Rat.natCast_mul, ← Rat.natCast_add, Nat.div_add_mod]
  have hrest : ((n % d : Nat) : Rat) < d := Rat.natCast_lt_natCast.2 (Nat.mod_lt n hd)
  have hnonneg : (0 : Rat) ≤ (n % d : Nat) := Rat.natCast_nonneg
  have hzero : ((n % d : Nat) : Rat) = 0 ↔ n % d = 0 := Rat.natCast_eq_zero_iff
  have hbelow : (2 : Rat) * (n % d : Nat) < d ↔ 2 * (n % d) < d := by
    rw [← Rat.natCast_lt_natCast, Rat.natCast_mul]
    rfl
  have habove : (d : Rat) < 2 * (n % d : Nat) ↔ d < 2 * (n % d) := by
    rw [← Rat.natCast_lt_natCast, Rat.natCast_mul]
    rfl
  have hpart : ((n % d : Nat) : Rat) / d * d = (n % d : Nat) := Rat.div_mul_cancel (by grind)
  refine ⟨((n % d : Nat) : Rat) / d, ?_, ?_, ?_, ?_, ?_, ?_⟩
  · rw [hdiv]
    grind
  · rw [← Rat.not_lt, Rat.div_lt_iff hpos]
    grind
  · rw [Rat.div_lt_iff hpos]
    grind
  · rw [← hzero]
    grind
  · have hscaled : 2 * (((n % d : Nat) : Rat) / d) = (2 * (n % d : Nat)) / d := by grind
    rw [hscaled, Rat.div_lt_iff hpos, ← hbelow]
    grind
  · have hscaled : 2 * (((n % d : Nat) : Rat) / d) = (2 * (n % d : Nat)) / d := by grind
    rw [hscaled, Rat.lt_div_iff hpos, ← habove]
    grind

variable (n : Nat) {d : Nat} (hd : 0 < d)

include hd

theorem floor_quotient : ((n : Rat) / d).floor = (n / d : Nat) := by
  obtain ⟨t, hquotient, hlow, hhigh, -⟩ := exists_fraction n hd
  rw [hquotient]
  apply floor_eq
  · rw [Rat.intCast_natCast]
    grind
  · rw [Rat.intCast_natCast]
    grind

theorem ceil_quotient : ((n : Rat) / d).ceil = (divRoundUp n d : Nat) := by
  obtain ⟨t, hquotient, hlow, hhigh, hzero, -⟩ := exists_fraction n hd
  rw [hquotient, divRoundUp]
  apply ceil_eq
  · rw [Rat.intCast_natCast, Rat.natCast_add]
    split <;> grind
  · rw [Rat.intCast_natCast, Rat.natCast_add]
    split <;> grind

/-- Rounding a division by its remainder gives the nearest integer to the quotient. -/
theorem nearest_divRoundEven : Nearest ((n : Rat) / d) (divRoundEven n d : Nat) := by
  obtain ⟨t, hquotient, hlow, hhigh, -, hbelow, habove⟩ := exists_fraction n hd
  rw [hquotient, divRoundEven]
  generalize n / d = q at *
  -- the part decides: below one half, above it, or in the middle
  split
  · next hr =>
    have ht : 2 * t < 1 := hbelow.2 hr
    have hmiddle : ¬(2 * ((q : Rat) + t - q) = 1 ∨ 2 * ((q : Rat) - (q + t)) = 1) := by grind
    rw [← Rat.intCast_natCast] at hmiddle ⊢
    exact ⟨by grind, by grind, fun h => absurd h hmiddle⟩
  · split
    · next hr hr' =>
      have ht : 1 < 2 * t := habove.2 hr'
      have hcast : (((q + 1 : Nat) : Int) : Rat) = q + 1 := by
        rw [Rat.intCast_natCast, Rat.natCast_add]
        rfl
      have hmiddle : ¬(2 * ((q : Rat) + t - (q + 1)) = 1 ∨ 2 * ((q : Rat) + 1 - (q + t)) = 1) := by
        grind
      refine ⟨?_, ?_, ?_⟩
      all_goals rw [hcast]
      · grind
      · grind
      · exact fun h => absurd h hmiddle
    · next hr hr' =>
      have ht : ¬2 * t < 1 := fun h => hr (hbelow.1 h)
      have ht' : ¬1 < 2 * t := fun h => hr' (habove.1 h)
      have hparity : q % 2 = 0 ∨ q % 2 = 1 := by omega
      rcases hparity with heven | hodd
      · rw [heven, Nat.add_zero]
        refine ⟨?_, ?_, fun _ => by omega⟩
        all_goals
          rw [Rat.intCast_natCast]
          grind
      · have hcast : (((q + 1 : Nat) : Int) : Rat) = q + 1 := by
          rw [Rat.intCast_natCast, Rat.natCast_add]
          rfl
        rw [hodd]
        refine ⟨?_, ?_, fun _ => by omega⟩
        all_goals
          rw [hcast]
          grind

/-- The mode rounds a number with a sign as the processor does with its parts. -/
theorem round_eq (mode : Rounding) (negative : Bool) :
    mode.round (if negative then -((n : Rat) / d) else (n : Rat) / d) =
      if negative then -((mode.apply negative n d : Nat) : Int)
      else (mode.apply negative n d : Nat) := by
  have hfloor := floor_quotient n hd
  have hceil := ceil_quotient n hd
  have hnonneg : (0 : Rat) ≤ (n : Rat) / d := by
    obtain ⟨t, hquotient, hlow, -⟩ := exists_fraction n hd
    have hwhole : (0 : Rat) ≤ (n / d : Nat) := Rat.natCast_nonneg
    rw [hquotient]
    grind
  cases mode with
  | nearestEven =>
      have hnearest := nearest_divRoundEven n hd
      cases negative with
      | false => exact (nearest_round _).unique hnearest
      | true => exact (nearest_round _).unique hnearest.neg
  | towardZero =>
      cases negative with
      | false =>
          show (if (n : Rat) / d < 0 then _ else _) = _
          rw [if_neg (Rat.not_lt.2 hnonneg)]
          exact hfloor
      | true =>
          show (if -((n : Rat) / d) < 0 then (-((n : Rat) / d)).ceil
            else (-((n : Rat) / d)).floor) = -((n / d : Nat) : Int)
          split
          · rw [Rat.ceil_eq_neg_floor_neg, Rat.neg_neg, hfloor]
          · next hsign =>
            have hzero : (n : Rat) / d = 0 := by grind
            rw [← hfloor, hzero]
            rfl
  | up =>
      cases negative with
      | false => exact hceil
      | true =>
          show (-((n : Rat) / d)).ceil = -((n / d : Nat) : Int)
          rw [Rat.ceil_eq_neg_floor_neg, Rat.neg_neg, hfloor]
  | down =>
      cases negative with
      | false => exact hfloor
      | true =>
          show (-((n : Rat) / d)).floor = -((divRoundUp n d : Nat) : Int)
          rw [← hceil, Rat.ceil_eq_neg_floor_neg, Int.neg_neg]

end Rounding

/-- A power of two for the unit of a number goes into the numerator or the denominator. -/
theorem Datum.mul_zpow_quotient (m : Nat) (e : Int) :
    (m : Rat) * 2 ^ e = ((m <<< e.toNat : Nat) : Rat) / (2 ^ (-e).toNat : Nat) := by
  have hpow (k : Nat) : ((2 ^ k : Nat) : Rat) = 2 ^ (k : Int) := by
    rw [Rat.zpow_natCast]
    exact Rat.natCast_pow 2 k
  have hsplit : e = (e.toNat : Int) + -((-e).toNat : Int) := by omega
  rw [Nat.shiftLeft_eq, Rat.natCast_mul, hpow, hpow, Rat.div_def, ← Rat.zpow_neg, Rat.mul_assoc,
    ← Rat.zpow_add (by decide), ← hsplit]

/-- A number with a power of two for its unit as a quotient of natural numbers. -/
theorem Datum.value?_quotient (negative : Bool) (m : Nat) (e : Int) :
    (finite negative m e).value? =
      some (if negative then -(((m <<< e.toNat : Nat) : Rat) / (2 ^ (-e).toNat : Nat))
        else ((m <<< e.toNat : Nat) : Rat) / (2 ^ (-e).toNat : Nat)) := by
  rw [value?, mul_zpow_quotient]
  cases negative with
  | false => exact congrArg some (Rat.one_mul _)
  | true => exact congrArg some (by grind)

/-- The integer that a number is cut to, brought into a range. -/
theorem Datum.cut_number {range : Int × Int} {d : Datum} {v : Rat} (h : d.value? = some v) :
    d.cut range = max range.1 (min range.2 (Rounding.towardZero.round v)) := by
  cases d with
  | nan | infinity => contradiction
  | finite s m e =>
      rw [value?_quotient] at h
      have hround := Rounding.round_eq (m <<< e.toNat) (Nat.two_pow_pos (-e).toNat) .towardZero s
      rw [Option.some.inj h] at hround
      rw [hround]
      rfl

end Broadway
