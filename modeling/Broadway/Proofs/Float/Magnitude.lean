import Broadway.Proofs.Float.FormatClass

/-!
# Numbers by sign and magnitude

A sign and a magnitude below infinity stand for one number (`Format.value?_datum`), and no two
magnitudes stand for the same (`Format.number_inj`). So a double is known by its number and its sign
(`Double.eq_of_value`), and whoever compares numbers of a format may compare magnitudes.
-/

namespace Broadway

theorem two_zpow_le {a b : Int} (h : a ≤ b) : (2 : Rat) ^ a ≤ 2 ^ b := by
  have hsplit : b = ((b - a).toNat : Int) + a := by omega
  have hone : ((1 : Nat) : Rat) ≤ (2 ^ (b - a).toNat : Nat) :=
    Rat.natCast_le_natCast.2 (Nat.two_pow_pos _)
  have hpos : (0 : Rat) ≤ 2 ^ a := Rat.le_of_lt (Rat.zpow_pos (by decide))
  calc (2 : Rat) ^ a = ((1 : Nat) : Rat) * 2 ^ a := (Rat.one_mul _).symm
    _ ≤ (2 ^ (b - a).toNat : Nat) * 2 ^ a := Rat.mul_le_mul_of_nonneg_right hone hpos
    _ = 2 ^ (((b - a).toNat : Int) + a) := by
      rw [Rat.zpow_add (by decide), Rat.zpow_natCast, Rat.natCast_pow]
      rfl
    _ = 2 ^ b := by rw [← hsplit]

namespace Format

variable {f : Format} {s : Bool} {n : Nat}

theorem datum_of_lt (s : Bool) (h : n < f.infinity) :
    f.datum s n = .finite s (f.decode n).1 (f.decode n).2 := by
  rw [datum, if_neg (by omega), if_neg (by omega)]

theorem datum_infinity (s : Bool) : f.datum s f.infinity = .infinity s := by
  rw [datum, if_neg (Nat.lt_irrefl _), if_pos rfl]

/-- The number of a sign and a magnitude below infinity. -/
theorem value?_datum (s : Bool) (h : n < f.infinity) :
    (f.datum s n).value? = some (if s then -f.number n else f.number n) := by
  rw [datum_of_lt s h]
  show some ((if s then -1 else 1) * f.number n) = _
  cases s with
  | false => rw [if_neg Bool.false_ne_true, if_neg Bool.false_ne_true, Rat.one_mul]
  | true => rw [if_pos rfl, if_pos rfl, Rat.neg_mul, Rat.one_mul]

/-- Only magnitudes below infinity have numbers. -/
theorem value_of_datum {v : Rat} (h : (f.datum s n).value? = some v) :
    n < f.infinity ∧ v = if s then -f.number n else f.number n := by
  have hbelow : n < f.infinity := by
    rw [datum] at h
    split at h
    · contradiction
    · split at h
      · contradiction
      · omega
  rw [value?_datum s hbelow] at h
  exact ⟨hbelow, (Option.some.inj h).symm⟩

theorem abs_number {v : Rat} (h : v = if s then -f.number n else f.number n) :
    v.abs = f.number n := by
  rw [h]
  cases s with
  | false => rw [if_neg Bool.false_ne_true, Rat.abs_of_nonneg (f.number_nonneg n)]
  | true => rw [if_pos rfl, Rat.abs_neg, Rat.abs_of_nonneg (f.number_nonneg n)]

theorem number_le_iff {a b : Nat} : f.number a ≤ f.number b ↔ a ≤ b := by
  rw [← Rat.not_lt, number_lt_iff, Nat.not_lt]

theorem number_inj {a b : Nat} (h : f.number a = f.number b) : a = b := by
  rcases Nat.lt_trichotomy a b with hlt | heq | hgt
  · exact absurd h (Rat.ne_of_lt (f.number_strictMono hlt))
  · exact heq
  · exact absurd h.symm (Rat.ne_of_lt (f.number_strictMono hgt))

/-- Below the magnitude after `b` there are only those up to `b`. -/
theorem le_of_number_lt_succ {a b : Nat} (h : f.number a < f.number (b + 1)) : a ≤ b :=
  Nat.le_of_lt_succ (number_lt_iff.1 h)

end Format

namespace Double

variable {x y : Double}

theorem toNat_eq_sign (x : Double) : x.toNat = x.negative.toNat * 2 ^ 63 + x.magnitude := by
  have hx := x.isLt
  rw [negative, BitVec.msb_eq_decide, magnitude]
  by_cases hneg : 2 ^ (64 - 1) ≤ x.toNat
  · rw [decide_eq_true hneg, Bool.toNat_true]
    omega
  · rw [decide_eq_false hneg, Bool.toNat_false]
    omega

theorem eq_of_parts (hsign : x.negative = y.negative) (hmagnitude : x.magnitude = y.magnitude) :
    x = y := by
  apply BitVec.eq_of_toNat_eq
  rw [toNat_eq_sign, toNat_eq_sign y, hsign, hmagnitude]

/-- A double is known by its number and its sign, which zero has as well. -/
theorem eq_of_value {v : Rat} (hx : x.datum.value? = some v) (hy : y.datum.value? = some v)
    (hsign : x.negative = y.negative) : x = y := by
  rw [datum_eq] at hx hy
  have hnumber := Format.abs_number (Format.value_of_datum hx).2
  rw [Format.abs_number (Format.value_of_datum hy).2] at hnumber
  exact eq_of_parts hsign (Format.number_inj hnumber.symm)

theorem eq_infinity {s : Bool} (h : x.datum = .infinity s) : x = infinity s := by
  apply eq_of_parts
  · rw [← negative_of_infinity h]
    exact (negative_ofMagnitude s (by decide)).symm
  · rw [magnitude_of_infinity h]
    exact (magnitude_ofMagnitude s (by decide)).symm

end Double

/-- The sign of a word whose parts are known. -/
theorem Single.msb_of_toNat {w : Word} {s : Bool} {n : Nat} (hn : n < 2 ^ 31)
    (h : w.toNat = s.toNat * 2 ^ 31 + n) : w.msb = s := by
  rw [BitVec.msb_eq_decide, h]
  cases s with
  | false => exact decide_eq_false (by simp only [Bool.toNat_false]; omega)
  | true => exact decide_eq_true (by simp only [Bool.toNat_true]; omega)

end Broadway
