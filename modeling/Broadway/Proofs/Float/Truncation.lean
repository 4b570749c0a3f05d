import Broadway.Proofs.Float.Magnitude
import Broadway.Proofs.Float.Storage

/-!
# Narrowing cuts numbers off

In the range of the single precision numbers narrowing has two recipes: the bits of a normal number
are picked from the double, and those of a denormal number are shifted into place, by more places
the smaller the number is. Both drop the low digits of the double and nothing else. What is left of
the digits is the mantissa of the word (`Single.narrow_parts`), so the number lies between the
magnitude of the word and the next one (`Single.between_narrow`), on both sides of the point where
the recipes meet.

* The word is the greatest one that is not greater than the number, apart from the sign
  (`Single.truncates_narrow`), and words are in the order of their numbers (`Single.narrow_mono`).
* The word stays between the same two powers of two (`Single.binade_narrow`). So every exponent of
  the double has words of its own (`Single.exponentField_of_narrow`), and together they have all
  that are numbers other than zero (`Single.inRange_widen`).
-/

namespace Broadway

namespace Double

variable (x : Double)

/-- The field of the exponent. -/
def exponentField : Nat := (x.extractLsb' 52 11).toNat

/-- The digits of a normal number: those of the fraction behind a leading one. -/
def digits : Nat := 2 ^ 52 + x.toNat % 2 ^ 52

theorem digits_bounds : 2 ^ 52 ≤ x.digits ∧ x.digits < 2 ^ 53 := by
  have hfraction : x.toNat % 2 ^ 52 < 2 ^ 52 := Nat.mod_lt _ (by decide)
  rw [digits]
  omega

theorem exponentField_eq : x.exponentField = x.magnitude / 2 ^ 52 := by
  rw [exponentField, BitVec.extractLsb'_toNat, Nat.shiftRight_eq_div_pow, magnitude]
  omega

/-- The magnitude of a normal number by its fields. -/
theorem magnitude_eq_fields (h : x.exponentField ≠ 0) :
    x.magnitude = (x.exponentField - 1) * 2 ^ 52 + x.digits := by
  rw [exponentField_eq] at h ⊢
  rw [digits]
  rw [magnitude] at h ⊢
  omega

end Double

namespace Single

variable {x y : Double}

/-- The doubles with the exponents of the single precision numbers, from the smallest denormal one
to the greatest normal one. -/
def InRange (x : Double) : Prop := 874 ≤ x.exponentField ∧ x.exponentField ≤ 1150

instance (x : Double) : Decidable (InRange x) := inferInstanceAs (Decidable (_ ∧ _))

/-! ## What is left of a number -/

/-- How many of the digits do not fit. -/
def lostDigits (x : Double) : Nat := 29 + (897 - x.exponentField)

/-- A denormal number: the leading one and the fraction are shifted down to the end of the word. -/
theorem toNat_narrow_of_denormal (h : 874 ≤ x.exponentField ∧ x.exponentField ≤ 896) :
    (narrow x).toNat = x.negative.toNat * 2 ^ 31 + x.digits / 2 ^ lostDigits x := by
  have hdigits : x.digits = 2 ^ 52 + x.toNat % 2 ^ 52 := rfl
  have hbound := x.digits_bounds.2
  have hplaces : lostDigits x = 21 + (905 - x.exponentField) := by
    rw [lostDigits]
    omega
  have hupper : (1#1 ++ x.extractLsb' 21 31).toNat = x.digits / 2 ^ 21 := by
    rw [toNat_append, BitVec.extractLsb'_toNat, Nat.shiftRight_eq_div_pow]
    show 1 * 2 ^ 31 + x.toNat / 2 ^ 21 % 2 ^ 31 = _
    omega
  have hshifted : ((1#1 ++ x.extractLsb' 21 31) >>> (905 - x.exponentField)).toNat =
      x.digits / 2 ^ lostDigits x := by
    rw [BitVec.toNat_ushiftRight, hupper, Nat.shiftRight_eq_div_pow, Nat.div_div_eq_div_mul,
      ← Nat.pow_add, hplaces]
  have hbelow : x.digits / 2 ^ lostDigits x < 2 ^ 31 := by
    rw [lostDigits, Nat.pow_add, ← Nat.div_div_eq_div_mul]
    exact Nat.lt_of_le_of_lt (Nat.div_le_self _ _) (by omega)
  have hsign : (BitVec.ofBool x.negative ++ 0#31).toNat = x.negative.toNat * 2 ^ 31 := by
    cases x.negative <;> rfl
  have hmsb : x.msb = x.negative := rfl
  have hexponent : (x.extractLsb' 52 11).toNat = x.exponentField := rfl
  rw [narrow]
  simp only [hexponent]
  rw [if_pos h, hmsb, BitVec.toNat_or, hshifted, hsign, Nat.or_comm, ← Nat.shiftLeft_eq,
    ← Nat.shiftLeft_add_eq_or_of_lt hbelow]

/-- A normal number: the exponent keeps its first bit and the last seven, and the fraction those that
fit. -/
theorem toNat_narrow_of_normal (hlow : 897 ≤ x.exponentField) (hhigh : x.exponentField ≤ 1150) :
    (narrow x).toNat = x.negative.toNat * 2 ^ 31 +
      ((x.exponentField - 897) * 2 ^ 23 + x.digits / 2 ^ 29) := by
  have hsign := x.negative.toNat_le
  have hx := x.toNat_eq_sign
  have hfields := x.magnitude_eq_fields (by omega)
  have hdigits : x.digits = 2 ^ 52 + x.toNat % 2 ^ 52 := rfl
  have hbound := x.digits_bounds.2
  have hnormal : ¬ (874 ≤ (x.extractLsb' 52 11).toNat ∧ (x.extractLsb' 52 11).toNat ≤ 896) := by
    show ¬ (874 ≤ x.exponentField ∧ x.exponentField ≤ 896)
    omega
  simp only [narrow]
  rw [if_neg hnormal, toNat_append, BitVec.extractLsb'_toNat, BitVec.extractLsb'_toNat,
    Nat.shiftRight_eq_div_pow, Nat.shiftRight_eq_div_pow]
  omega

/-- The word of a number: its sign, the place of its last digit and the digits that fit. -/
theorem toNat_narrow (h : InRange x) : (narrow x).toNat = x.negative.toNat * 2 ^ 31 +
    ((x.exponentField - 897) * 2 ^ 23 + x.digits / 2 ^ lostDigits x) := by
  obtain ⟨hlow, hhigh⟩ := h
  rcases Nat.lt_or_ge 896 x.exponentField with hnormal | hdenormal
  · have hlost : lostDigits x = 29 := by
      rw [lostDigits]
      omega
    rw [hlost, toNat_narrow_of_normal hnormal hhigh]
  · have hplace : x.exponentField - 897 = 0 := by omega
    rw [hplace, Nat.zero_mul, Nat.zero_add, toNat_narrow_of_denormal ⟨hlow, hdenormal⟩]

theorem kept_lt (x : Double) : x.digits / 2 ^ lostDigits x < 2 ^ 24 := by
  obtain ⟨-, hhigh⟩ := x.digits_bounds
  rw [lostDigits, Nat.pow_add, ← Nat.div_div_eq_div_mul]
  exact Nat.lt_of_le_of_lt (Nat.div_le_self _ _) (by omega)

theorem narrow_parts (h : InRange x) : (narrow x).msb = x.negative ∧
    (narrow x).toNat % 2 ^ 31 =
      (x.exponentField - 897) * 2 ^ 23 + x.digits / 2 ^ lostDigits x := by
  have hword := toNat_narrow h
  have hkept := kept_lt x
  have hsign := x.negative.toNat_le
  obtain ⟨hlow, hhigh⟩ := h
  generalize x.digits / 2 ^ lostDigits x = kept at *
  constructor
  · exact msb_of_toNat (by omega) hword
  · rw [hword]
    omega

/-! ## The numbers of the two formats -/

/-- What is kept and what is lost together are the digits. -/
theorem kept_bounds (h : InRange x) :
    2 ^ 52 ≤ x.digits / 2 ^ lostDigits x * 2 ^ lostDigits x ∧
      x.digits / 2 ^ lostDigits x * 2 ^ lostDigits x ≤ x.digits ∧
      x.digits < (x.digits / 2 ^ lostDigits x + 1) * 2 ^ lostDigits x := by
  obtain ⟨hleading, -⟩ := x.digits_bounds
  have hpos : 0 < 2 ^ lostDigits x := Nat.two_pow_pos _
  have hlost : lostDigits x ≤ 52 := by
    have hlow := h.1
    rw [lostDigits]
    omega
  have hsplit : 2 ^ 52 = 2 ^ (52 - lostDigits x) * 2 ^ lostDigits x := by
    rw [← Nat.pow_add, Nat.sub_add_cancel hlost]
  refine ⟨?_, Nat.div_mul_le_self _ _, ?_⟩
  · -- the leading one is among the digits that are kept
    have hkept : 2 ^ (52 - lostDigits x) ≤ x.digits / 2 ^ lostDigits x := by
      rw [Nat.le_div_iff_mul_le hpos, ← hsplit]
      exact hleading
    calc 2 ^ 52 = 2 ^ (52 - lostDigits x) * 2 ^ lostDigits x := hsplit
      _ ≤ x.digits / 2 ^ lostDigits x * 2 ^ lostDigits x := Nat.mul_le_mul_right _ hkept
  · rw [Nat.mul_comm]
    exact Nat.lt_mul_div_succ _ hpos

/-- The place of the last digit of the double. -/
def unit (x : Double) : Rat := 2 ^ ((x.exponentField : Int) - 1075)

theorem unit_pos (x : Double) : 0 < unit x := Rat.zpow_pos (by decide)

theorem mul_unit_le_iff {a b : Nat} : (a : Rat) * unit x ≤ b * unit x ↔ a ≤ b := by
  constructor
  · intro h
    exact Rat.natCast_le_natCast.1 (Rat.le_of_mul_le_mul_right h (unit_pos x))
  · intro h
    exact Rat.mul_le_mul_of_nonneg_right (Rat.natCast_le_natCast.2 h) (Rat.le_of_lt (unit_pos x))

theorem number_double (h : InRange x) :
    Format.double.number x.magnitude = x.digits * unit x := by
  obtain ⟨hlow, hhigh⟩ := h
  have hdecode : Format.double.decode ((x.exponentField - 1) * 2 ^ 52 + x.digits) =
      (x.digits, -1074 + ((x.exponentField - 1 : Nat) : Int)) :=
    Format.double.decode_steps x.digits_bounds.2 (.inr x.digits_bounds.1)
  have hplace : -1074 + ((x.exponentField - 1 : Nat) : Int) = x.exponentField - 1075 := by omega
  rw [x.magnitude_eq_fields (by omega), Format.number, hdecode, hplace, unit]

theorem number_single (h : InRange x) :
    Format.single.number ((narrow x).toNat % 2 ^ 31) =
        (x.digits / 2 ^ lostDigits x * 2 ^ lostDigits x : Nat) * unit x ∧
      Format.single.number ((narrow x).toNat % 2 ^ 31 + 1) =
        ((x.digits / 2 ^ lostDigits x + 1) * 2 ^ lostDigits x : Nat) * unit x := by
  have hleading : x.exponentField - 897 = 0 ∨ 2 ^ 23 ≤ x.digits / 2 ^ lostDigits x := by
    rcases Nat.le_total x.exponentField 897 with hsmall | hlarge
    · left
      omega
    · right
      have hnone : 897 - x.exponentField = 0 := by omega
      have hdigits := x.digits_bounds.1
      rw [lostDigits, hnone]
      omega
  have hdecode : Format.single.decode
      ((x.exponentField - 897) * 2 ^ 23 + x.digits / 2 ^ lostDigits x) =
      (x.digits / 2 ^ lostDigits x, -149 + ((x.exponentField - 897 : Nat) : Int)) :=
    Format.single.decode_steps (kept_lt x) hleading
  have hplace : (2 : Rat) ^ (-149 + ((x.exponentField - 897 : Nat) : Int)) =
      (2 ^ lostDigits x : Nat) * unit x := by
    have hsum : -149 + ((x.exponentField - 897 : Nat) : Int) =
        (lostDigits x : Int) + (x.exponentField - 1075) := by
      rw [lostDigits]
      omega
    rw [hsum, Rat.zpow_add (by decide), Rat.zpow_natCast, Rat.natCast_pow, unit]
    rfl
  rw [(narrow_parts h).2, Format.number_succ, Format.number, hdecode, hplace, Rat.natCast_mul,
    Rat.natCast_mul, Rat.natCast_add]
  constructor
  · rw [Rat.mul_assoc]
  · grind

/-- The number lies between the magnitude of its word and the next one. -/
theorem between_narrow (h : InRange x) :
    Format.single.number ((narrow x).toNat % 2 ^ 31) ≤ Format.double.number x.magnitude ∧
      Format.double.number x.magnitude < Format.single.number ((narrow x).toNat % 2 ^ 31 + 1) := by
  obtain ⟨-, hle, hlt⟩ := kept_bounds h
  obtain ⟨hnumber, hnext⟩ := number_single h
  rw [hnumber, hnext, number_double h, ← Rat.not_le, mul_unit_le_iff, mul_unit_le_iff, Nat.not_le]
  exact ⟨hle, hlt⟩

/-- The magnitude of the word lies between the same powers of two as the number. -/
theorem binade_narrow (h : InRange x) :
    2 ^ ((x.exponentField : Int) - 1023) ≤ Format.single.number ((narrow x).toNat % 2 ^ 31) ∧
      Format.single.number ((narrow x).toNat % 2 ^ 31) < 2 ^ ((x.exponentField : Int) - 1022) := by
  obtain ⟨hleading, hle, -⟩ := kept_bounds h
  have hhigh := x.digits_bounds.2
  have hpower (k : Nat) (e : Int) (he : e = k + ((x.exponentField : Int) - 1075)) :
      (2 : Rat) ^ e = (2 ^ k : Nat) * unit x := by
    rw [he, Rat.zpow_add (by decide), Rat.zpow_natCast, Rat.natCast_pow, unit]
    rfl
  rw [(number_single h).1, hpower 52 _ (by omega), hpower 53 _ (by omega), ← Rat.not_le,
    mul_unit_le_iff, mul_unit_le_iff]
  omega

/-! ## The range -/

theorem value?_double (h : InRange x) : x.datum.value? =
    some (if x.negative then -Format.double.number x.magnitude
      else Format.double.number x.magnitude) := by
  have hinfinity : Format.double.infinity = 2047 * 2 ^ 52 := by decide
  have hhigh := h.2
  rw [Double.exponentField_eq] at hhigh
  rw [Double.datum_eq]
  exact Format.value?_datum _ (by omega)

/-- The range by the size of the numbers. -/
theorem inRange_iff (x : Double) : InRange x ↔
    ∃ v, x.datum.value? = some v ∧ 2 ^ (-149 : Int) ≤ v.abs ∧ v.abs < 2 ^ (128 : Int) := by
  have hleast : Format.double.number (874 * 2 ^ 52) = 2 ^ (-149 : Int) := by decide +kernel
  have hbound : Format.double.number (1151 * 2 ^ 52) = 2 ^ (128 : Int) := by decide +kernel
  have hfields : InRange x ↔ 874 * 2 ^ 52 ≤ x.magnitude ∧ x.magnitude < 1151 * 2 ^ 52 := by
    rw [InRange, Double.exponentField_eq]
    omega
  constructor
  · intro h
    obtain ⟨hlow, hhigh⟩ := hfields.1 h
    refine ⟨_, value?_double h, ?_⟩
    rw [Format.abs_number rfl, ← hleast, ← hbound, Format.number_le_iff, Format.number_lt_iff]
    exact ⟨hlow, hhigh⟩
  · rintro ⟨v, hv, hlow, hhigh⟩
    rw [Double.datum_eq] at hv
    rw [Format.abs_number (Format.value_of_datum hv).2, ← hleast, Format.number_le_iff] at hlow
    rw [Format.abs_number (Format.value_of_datum hv).2, ← hbound, Format.number_lt_iff] at hhigh
    exact hfields.2 ⟨hlow, hhigh⟩

/-! ## Rounding toward zero -/

/-- A word takes the place of a number with a sign: it has this sign, and is the greatest of all
words that are not greater than the number, apart from the sign. -/
structure Truncates (w : Word) (negative : Bool) (v : Rat) : Prop where
  sign : w.msb = negative
  greatest : ∃ u, (datum w).value? = some u ∧ u.abs ≤ v.abs ∧
    ∀ w' u', (datum w').value? = some u' → u'.abs ≤ v.abs → u'.abs ≤ u.abs

/-- The number of the word that a double is narrowed to. -/
theorem value?_narrow (h : InRange x) : (datum (narrow x)).value? =
    some (if x.negative then -Format.single.number ((narrow x).toNat % 2 ^ 31)
      else Format.single.number ((narrow x).toNat % 2 ^ 31)) := by
  have hinfinity : Format.single.infinity = 255 * 2 ^ 23 := by decide
  have hkept := kept_lt x
  have hhigh := h.2
  rw [datum, (narrow_parts h).1]
  apply Format.value?_datum
  rw [(narrow_parts h).2]
  generalize x.digits / 2 ^ lostDigits x = kept at *
  omega

theorem truncates_narrow (h : InRange x) {v : Rat} (hv : x.datum.value? = some v) :
    Truncates (narrow x) x.negative v := by
  obtain ⟨hle, hlt⟩ := between_narrow h
  rw [value?_double h] at hv
  have habs : v.abs = Format.double.number x.magnitude :=
    Format.abs_number (Option.some.inj hv).symm
  refine ⟨(narrow_parts h).1, _, value?_narrow h, ?_, ?_⟩
  · rw [Format.abs_number rfl, habs]
    exact hle
  · -- a word that is not greater than the number lies below the next magnitude
    intro w' u' hu' hle'
    have habs' := Format.abs_number (Format.value_of_datum hu').2
    rw [habs, habs'] at hle'
    rw [Format.abs_number rfl, habs', Format.number_le_iff]
    exact Format.le_of_number_lt_succ (Std.lt_of_le_of_lt hle' hlt)

/-- Words are in the order of their numbers. -/
theorem narrow_mono (hx : InRange x) (hy : InRange y) {v v' u u' : Rat}
    (hv : x.datum.value? = some v) (hv' : y.datum.value? = some v') (hle : v ≤ v')
    (hu : (datum (narrow x)).value? = some u) (hu' : (datum (narrow y)).value? = some u') :
    u ≤ u' := by
  obtain ⟨hxle, hxlt⟩ := between_narrow hx
  obtain ⟨hyle, hylt⟩ := between_narrow hy
  have hpos := (binade_narrow hx).1
  have hpos' := (binade_narrow hy).1
  have hpower (e : Int) : (0 : Rat) < 2 ^ e := Rat.zpow_pos (by decide)
  have hxpower := hpower (x.exponentField - 1023)
  have hypower := hpower (y.exponentField - 1023)
  have hwords {a b : Double} (hab : Format.double.number a.magnitude ≤
      Format.double.number b.magnitude) (ha : InRange a) (hb : InRange b) :
      Format.single.number ((narrow a).toNat % 2 ^ 31) ≤
        Format.single.number ((narrow b).toNat % 2 ^ 31) := by
    have hle := Rat.le_trans (between_narrow ha).1 hab
    rw [Format.number_le_iff]
    exact Format.le_of_number_lt_succ (Std.lt_of_le_of_lt hle (between_narrow hb).2)
  rw [value?_double hx] at hv
  rw [value?_double hy] at hv'
  rw [value?_narrow hx] at hu
  rw [value?_narrow hy] at hu'
  rw [← Option.some.inj hv, ← Option.some.inj hv'] at hle
  rw [← Option.some.inj hu, ← Option.some.inj hu']
  cases hs : x.negative with
  | false =>
      cases ht : y.negative with
      | false =>
          rw [hs, ht] at hle
          exact hwords hle hx hy
      | true =>
          -- a positive number is not less than a negative one
          rw [hs, ht, if_neg Bool.false_ne_true, if_pos rfl] at hle
          grind
  | true =>
      cases ht : y.negative with
      | false =>
          rw [if_pos rfl, if_neg Bool.false_ne_true]
          grind
      | true =>
          rw [hs, ht, if_pos rfl, if_pos rfl] at hle
          have hswap := hwords (Rat.neg_le_neg_iff.1 hle) hy hx
          rw [if_pos rfl, if_pos rfl]
          exact Rat.neg_le_neg hswap

/-! ## The exponents -/

/-- The denormal words come from the exponents up to 896, and the normal ones from those above. -/
theorem denormal_narrow_iff (h : InRange x) :
    (datum (narrow x)).Denormal .single ↔ x.exponentField ≤ 896 := by
  have hleast : Format.single.leastNormal = 2 ^ (-126 : Int) := by decide +kernel
  have hvalue := value?_narrow h
  obtain ⟨hlow, hhigh⟩ := binade_narrow h
  have hpos : (0 : Rat) < 2 ^ ((x.exponentField : Int) - 1023) := Rat.zpow_pos (by decide)
  cases hdatum : datum (narrow x) with
  | nan | infinity =>
      rw [hdatum] at hvalue
      contradiction
  | finite s m e =>
      rw [hdatum] at hvalue
      rw [← Format.abs_number rfl, Datum.abs_value hvalue] at hlow hhigh
      show (m : Rat) * 2 ^ e ≠ 0 ∧ (m : Rat) * 2 ^ e < Format.single.leastNormal ↔ _
      rw [hleast]
      constructor
      · rintro ⟨-, hsmall⟩
        have hlt := Std.lt_of_le_of_lt hlow hsmall
        refine Classical.byContradiction fun hnormal => ?_
        exact Rat.not_le.2 hlt (two_zpow_le (by omega))
      · intro hdenormal
        have hle : (2 : Rat) ^ ((x.exponentField : Int) - 1022) ≤ 2 ^ (-126 : Int) :=
          two_zpow_le (by omega)
        constructor
        · intro hzero
          rw [hzero] at hlow
          exact Rat.not_le.2 hpos hlow
        · exact Std.lt_of_lt_of_le hhigh hle

theorem exponentField_le_of_narrow (hx : InRange x) (hy : InRange y)
    (h : narrow x = narrow y) : x.exponentField ≤ y.exponentField := by
  have hlow := (binade_narrow hx).1
  have hhigh := (binade_narrow hy).2
  rw [h] at hlow
  have hlt := Std.lt_of_le_of_lt hlow hhigh
  refine Classical.byContradiction fun hnot => ?_
  exact Rat.not_le.2 hlt (two_zpow_le (by omega))

/-- No word has its numbers at two exponents. -/
theorem exponentField_of_narrow (hx : InRange x) (hy : InRange y) (h : narrow x = narrow y) :
    x.exponentField = y.exponentField :=
  Nat.le_antisymm (exponentField_le_of_narrow hx hy h) (exponentField_le_of_narrow hy hx h.symm)

/-- Every word that is a number other than zero has a double in the range, which it is widened to. -/
theorem inRange_widen {w : Word} {u : Rat} (hu : (datum w).value? = some u) (hne : u ≠ 0) :
    InRange (widen w) := by
  have hleast : Format.single.number 1 = 2 ^ (-149 : Int) := by decide +kernel
  have hbound : Format.single.number Format.single.infinity = 2 ^ (128 : Int) := by decide +kernel
  obtain ⟨hbelow, hnumber⟩ := Format.value_of_datum hu
  refine (inRange_iff _).2 ⟨u, (value?_widen w).trans hu, ?_⟩
  rw [Format.abs_number hnumber, ← hleast, ← hbound, Format.number_le_iff, Format.number_lt_iff]
  refine ⟨?_, hbelow⟩
  have hzero : w.toNat % 2 ^ 31 ≠ 0 := by
    intro hzero
    have habs := Format.abs_number hnumber
    rw [hzero, Format.number_zero, Rat.abs_eq_zero_iff] at habs
    exact hne habs
  omega

/-! ## Narrowing in the range -/

/-- What narrowing does to a double in the range. -/
structure Narrows (x : Double) : Prop where
  truncates : ∀ v, x.datum.value? = some v → Truncates (narrow x) x.negative v
  /-- The magnitude stays between the powers of two of its exponent. -/
  binade : ∀ u, (datum (narrow x)).value? = some u →
    2 ^ ((x.exponentField : Int) - 1023) ≤ u.abs ∧ u.abs < 2 ^ ((x.exponentField : Int) - 1022)
  denormal : (datum (narrow x)).Denormal .single ↔ x.exponentField ≤ 896

theorem narrows (h : InRange x) : Narrows x := by
  constructor
  case truncates =>
    intro v hv
    exact truncates_narrow h hv
  case binade =>
    intro u hu
    rw [value?_narrow h] at hu
    rw [Format.abs_number (Option.some.inj hu).symm]
    exact binade_narrow h
  case denormal => exact denormal_narrow_iff h

end Single

end Broadway
