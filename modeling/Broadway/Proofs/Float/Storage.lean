import Broadway.Proofs.Checked.Single
import Broadway.Proofs.Encoding.Place
import Broadway.Proofs.Float.Value

/-!
# Widening and narrowing lose nothing

A single precision word that is widened has its fraction at the top of the double's, and an exponent
for the wider field. `widen_eq` says which: a number keeps its distance from one, the exponents of
zero and of infinity stay at the ends of the range, and a denormal number gets the exponent that its
leading one asks for. From this all else follows, for every word: it stands for the same number,
infinity or NaN when widened (`datum_widen`), and it comes back when narrowed (`narrow_widen`).
-/

namespace Broadway

namespace Double

/-- A double whose fraction is no longer than that of a single precision word. -/
def ofFields (negative : Bool) (exponent : BitVec 11) (fraction : BitVec 23) : Double :=
  BitVec.ofBool negative ++ exponent ++ fraction ++ 0#29

variable (s : Bool) (e : BitVec 11) (f : BitVec 23)

theorem toNat_ofFields :
    (ofFields s e f).toNat = s.toNat * 2 ^ 63 + e.toNat * 2 ^ 52 + f.toNat * 2 ^ 29 := by
  have hsign : (BitVec.ofBool s).toNat = s.toNat := by cases s <;> rfl
  rw [ofFields, toNat_append, toNat_append, toNat_append, hsign]
  show ((s.toNat * 2 ^ 11 + e.toNat) * 2 ^ 23 + f.toNat) * 2 ^ 29 + 0 = _
  omega

theorem negative_ofFields : (ofFields s e f).negative = s := by
  have hs := s.toNat_le
  have he := e.isLt
  have hf := f.isLt
  rw [negative, BitVec.msb_eq_decide, toNat_ofFields]
  cases s with
  | false => exact decide_eq_false (by simp only [Bool.toNat_false]; omega)
  | true => exact decide_eq_true (by simp only [Bool.toNat_true]; omega)

theorem magnitude_ofFields :
    (ofFields s e f).magnitude = e.toNat * 2 ^ 52 + f.toNat * 2 ^ 29 := by
  have he := e.isLt
  have hf := f.isLt
  rw [magnitude, toNat_ofFields]
  omega

theorem exponent_ofFields : (ofFields s e f).extractLsb' 52 11 = e := by
  apply BitVec.eq_of_toNat_eq
  have he := e.isLt
  have hf := f.isLt
  rw [BitVec.extractLsb'_toNat, toNat_ofFields, Nat.shiftRight_eq_div_pow]
  omega

theorem fraction_ofFields : (ofFields s e f).extractLsb' 0 52 = f ++ 0#29 := by
  apply BitVec.eq_of_toNat_eq
  have he := e.isLt
  have hf := f.isLt
  rw [BitVec.extractLsb'_toNat, toNat_ofFields, toNat_append, Nat.shiftRight_eq_div_pow]
  show _ = f.toNat * 2 ^ 29 + 0
  omega

/-- The datum of fields that are neither at the bottom nor at the top of the range. -/
theorem datum_ofFields {e : BitVec 11} (hzero : e.toNat ≠ 0) (hspecial : e.toNat ≠ 2047) :
    (ofFields s e f).datum =
      .finite s ((2 ^ 23 + f.toNat) * 2 ^ 29) (Format.double.minExponent + (e.toNat - 1 : Nat)) := by
  have hmantissa : (2 ^ 23 + f.toNat) * 2 ^ 29 = 2 ^ 52 + f.toNat * 2 ^ 29 := by omega
  have hfraction : f.toNat * 2 ^ 29 < 2 ^ 52 := by
    have hf := f.isLt
    omega
  rw [datum_eq, negative_ofFields, magnitude_ofFields, hmantissa]
  exact (Format.datum_fields .double s e.isLt hfraction).trans
    ((if_neg hspecial).trans (if_neg hzero))

theorem datum_ofFields_zero :
    (ofFields s 0 0).datum = .finite s 0 Format.double.minExponent := by
  rw [datum_eq, negative_ofFields, magnitude_ofFields]
  exact Format.datum_fields .double s (BitVec.isLt 0#11) (by decide)

theorem datum_ofFields_special :
    (ofFields s 2047 f).datum = if f.toNat = 0 then .infinity s else .nan := by
  have hfraction : f.toNat * 2 ^ 29 < 2 ^ 52 := by
    have hf := f.isLt
    omega
  have hzero : f.toNat * 2 ^ 29 = 0 ↔ f.toNat = 0 := by omega
  simp only [← hzero]
  rw [datum_eq, negative_ofFields, magnitude_ofFields]
  exact (Format.datum_fields .double s (BitVec.isLt 2047#11) hfraction).trans (if_pos rfl)

end Double

namespace Single

variable (w : Word)

/-- The fields that a word has when it is widened. -/
inductive Widens (w : Word) : (exponent : BitVec 11) → (fraction : BitVec 23) → Prop
  | zero (hexponent : w.extractLsb' 23 8 = 0) (hfraction : w.extractLsb' 0 23 = 0) : Widens w 0 0
  /-- The leading one of a denormal fraction is shifted out of it, and the exponent says how far. -/
  | denormal {n : Nat} {e : BitVec 11} {f : BitVec 23} (hexponent : w.extractLsb' 23 8 = 0)
      (hfraction : w.extractLsb' 0 23 ≠ 0) (hn : 1 ≤ n ∧ n ≤ 23) (he : e.toNat = 897 - n)
      (hf : 2 ^ 23 + f.toNat = (w.extractLsb' 0 23).toNat * 2 ^ n) : Widens w e f
  /-- A number keeps its distance from one. -/
  | number {e : BitVec 11} (hzero : w.extractLsb' 23 8 ≠ 0) (hspecial : w.extractLsb' 23 8 ≠ 255)
      (he : e.toNat = (w.extractLsb' 23 8).toNat + 896) : Widens w e (w.extractLsb' 0 23)
  | special (hexponent : w.extractLsb' 23 8 = 255) : Widens w 2047 (w.extractLsb' 0 23)

theorem toNat_msb : w.msb.toNat = w.toNat / 2 ^ 31 := by
  have hw := w.isLt
  rw [BitVec.msb_eq_decide]
  by_cases hneg : 2 ^ (32 - 1) ≤ w.toNat
  · rw [decide_eq_true hneg, Bool.toNat_true]
    omega
  · rw [decide_eq_false hneg, Bool.toNat_false]
    omega

theorem toNat_exponent : (w.extractLsb' 23 8).toNat = w.toNat / 2 ^ 23 % 2 ^ 8 := by
  rw [BitVec.extractLsb'_toNat, Nat.shiftRight_eq_div_pow]

/-- A word as its fields. -/
theorem toNat_eq_fields : w.toNat =
    w.msb.toNat * 2 ^ 31 + (w.extractLsb' 23 8).toNat * 2 ^ 23 + (w.extractLsb' 0 23).toNat := by
  have hw := w.isLt
  rw [toNat_msb, toNat_exponent, BitVec.extractLsb'_toNat, Nat.shiftRight_zero]
  omega

/-- A word whose fields move as they are: the new bits of the exponent are copies of one bit. -/
theorem spread_eq (y : Bool) {e : BitVec 11}
    (he : e.toNat = w.toNat / 2 ^ 30 % 2 * 2 ^ 10 + (if y then 7 * 2 ^ 7 else 0)
      + w.toNat / 2 ^ 23 % 2 ^ 7) :
    w.extractLsb' 30 2 ++ (BitVec.ofBool y).signExtend 3 ++ w.extractLsb' 0 30 ++ 0#29 =
      Double.ofFields w.msb e (w.extractLsb' 0 23) := by
  apply BitVec.eq_of_toNat_eq
  have hcopies : ((BitVec.ofBool y).signExtend 3).toNat = if y then 7 else 0 := by
    cases y <;> rfl
  have hw := w.isLt
  have htop : w.toNat / 2 ^ 30 % 2 ^ 2 = w.toNat / 2 ^ 31 * 2 + w.toNat / 2 ^ 30 % 2 := by omega
  have hrest : w.toNat % 2 ^ 30 = w.toNat / 2 ^ 23 % 2 ^ 7 * 2 ^ 23 + w.toNat % 2 ^ 23 := by omega
  rw [Double.toNat_ofFields, toNat_append, toNat_append, toNat_append, hcopies, toNat_msb, he]
  simp only [BitVec.extractLsb'_toNat, Nat.shiftRight_eq_div_pow, Nat.pow_zero, Nat.div_one,
    BitVec.toNat_zero, htop, hrest]
  cases y with
  | false =>
      simp only [Bool.false_eq_true, if_false]
      omega
  | true =>
      simp only [if_true]
      omega

/-- The shift that makes a denormal number normal takes its leading one out of the fraction. -/
theorem normalized_fraction {f : BitVec 23} (hf : f ≠ 0) :
    2 ^ 23 + (f <<< (23 - f.toNat.log2)).toNat = f.toNat * 2 ^ (23 - f.toNat.log2) := by
  have hpos : f.toNat ≠ 0 := fun h => hf (BitVec.eq_of_toNat_eq h)
  have hlog : f.toNat.log2 < 23 := (Nat.log2_lt hpos).2 f.isLt
  have hsteps : 22 - f.toNat.log2 + 1 = 23 - f.toNat.log2 := by omega
  obtain ⟨hlow, hhigh⟩ := Checked.denormal_bounds hpos f.isLt
  rw [hsteps] at hlow hhigh
  rw [BitVec.toNat_shiftLeft, Nat.shiftLeft_eq]
  omega

theorem getLsbD_top : w.getLsbD 30 = decide ((w.extractLsb' 23 8).toNat / 2 ^ 7 = 1) := by
  rw [toNat_exponent]
  refine Nat.testBit_eq_decide_div_mod_eq.trans ?_
  apply decide_eq_decide.2
  omega

variable {w}

theorem widen_of_zero (hexponent : w.extractLsb' 23 8 = 0) (hfraction : w.extractLsb' 0 23 = 0) :
    widen w = Double.ofFields w.msb 0 0 := by
  have hfield : w.toNat / 2 ^ 23 % 2 ^ 8 = 0 := by
    rw [← toNat_exponent, hexponent]
    rfl
  have hclear : w.getLsbD 30 = false := by
    rw [getLsbD_top, hexponent]
    rfl
  rw [widen, if_neg fun h => h.2 hfraction, if_pos (.inl hexponent), hclear, ← hfraction]
  apply spread_eq w false
  show 0 = _
  simp only [Bool.false_eq_true, if_false]
  omega

theorem widen_of_special (hspecial : w.extractLsb' 23 8 = 255) :
    widen w = Double.ofFields w.msb 2047 (w.extractLsb' 0 23) := by
  have hfield : w.toNat / 2 ^ 23 % 2 ^ 8 = 255 := by
    rw [← toNat_exponent, hspecial]
    rfl
  have hset : w.getLsbD 30 = true := by
    rw [getLsbD_top, hspecial]
    rfl
  have hzero : ¬(w.extractLsb' 23 8 = 0 ∧ w.extractLsb' 0 23 ≠ 0) := by
    rw [hspecial]
    exact fun h => absurd h.1 (by decide)
  rw [widen, if_neg hzero, if_pos (.inr hspecial), hset]
  apply spread_eq w true
  show 2047 = _
  simp only [if_true]
  omega

theorem exists_widen_number (hzero : w.extractLsb' 23 8 ≠ 0) (hspecial : w.extractLsb' 23 8 ≠ 255) :
    ∃ e, widen w = Double.ofFields w.msb e (w.extractLsb' 0 23) ∧
      e.toNat = (w.extractLsb' 23 8).toNat + 896 := by
  have hexponent := toNat_exponent w
  have hfield : w.toNat / 2 ^ 23 % 2 ^ 8 ≠ 255 := fun h =>
    hspecial (BitVec.eq_of_toNat_eq (hexponent.trans h))
  have hwide : (BitVec.ofNat 11 ((w.extractLsb' 23 8).toNat + 896)).toNat =
      (w.extractLsb' 23 8).toNat + 896 := by
    rw [BitVec.toNat_ofNat]
    omega
  refine ⟨_, ?_, hwide⟩
  rw [widen, if_neg fun h => hzero h.1, if_neg (not_or.2 ⟨hzero, hspecial⟩)]
  apply spread_eq w
  -- below one the new bits are ones, and make 896 by themselves
  rw [hwide, getLsbD_top]
  by_cases hbit : (w.extractLsb' 23 8).toNat / 2 ^ 7 = 1
  · rw [decide_eq_true hbit]
    simp only [Bool.not_true, Bool.false_eq_true, if_false]
    omega
  · rw [decide_eq_false hbit]
    simp only [Bool.not_false, if_true]
    omega

variable (w)

/-- The widened form of a word, whatever the word is. -/
theorem exists_widens : ∃ e f, widen w = Double.ofFields w.msb e f ∧ Widens w e f := by
  by_cases hzero : w.extractLsb' 23 8 = 0
  · by_cases hfraction : w.extractLsb' 0 23 = 0
    · exact ⟨0, 0, widen_of_zero hzero hfraction, .zero hzero hfraction⟩
    · have hpos : (w.extractLsb' 0 23).toNat ≠ 0 := fun h => hfraction (BitVec.eq_of_toNat_eq h)
      have hlog : (w.extractLsb' 0 23).toNat.log2 < 23 :=
        (Nat.log2_lt hpos).2 (w.extractLsb' 0 23).isLt
      rw [widen, if_pos ⟨hzero, hfraction⟩]
      refine ⟨_, _, rfl, .denormal (n := 23 - (w.extractLsb' 0 23).toNat.log2) hzero hfraction
        (by omega) ?_ (normalized_fraction hfraction)⟩
      rw [BitVec.toNat_ofNat]
      omega
  · by_cases hspecial : w.extractLsb' 23 8 = 255
    · exact ⟨2047, _, widen_of_special hspecial, .special hspecial⟩
    · obtain ⟨e, hwiden, he⟩ := exists_widen_number hzero hspecial
      exact ⟨e, _, hwiden, .number hzero hspecial he⟩

/-! ## Back to the word -/

section Narrow

variable (s : Bool) {e : BitVec 11} (f : BitVec 23)

/-- A double that is no denormal number of the narrow format keeps the bits that fit. -/
theorem toNat_narrow_of_cut (h : ¬(874 ≤ e.toNat ∧ e.toNat ≤ 896)) :
    (narrow (Double.ofFields s e f)).toNat =
      s.toNat * 2 ^ 31 + e.toNat / 2 ^ 10 * 2 ^ 30 + e.toNat % 2 ^ 7 * 2 ^ 23 + f.toNat := by
  have hs := s.toNat_le
  have he := e.isLt
  have hf := f.isLt
  rw [narrow]
  simp only [Double.exponent_ofFields]
  rw [if_neg h, toNat_append, BitVec.extractLsb'_toNat, BitVec.extractLsb'_toNat,
    Double.toNat_ofFields, Nat.shiftRight_eq_div_pow, Nat.shiftRight_eq_div_pow]
  omega

/-- A denormal number of the narrow format is shifted to where the narrow exponent ends. -/
theorem toNat_narrow_of_shift {n : Nat} (hn : 1 ≤ n ∧ n ≤ 23) (he : e.toNat = 897 - n) :
    (narrow (Double.ofFields s e f)).toNat =
      s.toNat * 2 ^ 31 + (2 ^ 23 + f.toNat) / 2 ^ n := by
  have hf := f.isLt
  have hplaces : 905 - e.toNat = 8 + n := by omega
  have hfraction : ((Double.ofFields s e f).extractLsb' 21 31).toNat = f.toNat * 2 ^ 8 := by
    rw [BitVec.extractLsb'_toNat, Double.toNat_ofFields, Nat.shiftRight_eq_div_pow]
    omega
  have hshifted : ((1#1 ++ (Double.ofFields s e f).extractLsb' 21 31) >>> (8 + n)).toNat =
      (2 ^ 23 + f.toNat) / 2 ^ n := by
    rw [BitVec.toNat_ushiftRight, toNat_append, hfraction, Nat.shiftRight_eq_div_pow, Nat.pow_add,
      ← Nat.div_div_eq_div_mul]
    congr 1
    show (1 * 2 ^ 31 + f.toNat * 2 ^ 8) / 2 ^ 8 = _
    omega
  have hmsb : (Double.ofFields s e f).msb = s := Double.negative_ofFields s e f
  have hsign : (BitVec.ofBool s ++ 0#31).toNat = s.toNat * 2 ^ 31 := by cases s <;> rfl
  have hlow : (2 ^ 23 + f.toNat) / 2 ^ n < 2 ^ 31 :=
    Nat.lt_of_le_of_lt (Nat.div_le_self _ _) (by omega)
  rw [narrow]
  simp only [Double.exponent_ofFields]
  rw [if_pos (by omega), hplaces, hmsb, BitVec.toNat_or, hshifted, hsign, Nat.or_comm,
    ← Nat.shiftLeft_eq, ← Nat.shiftLeft_add_eq_or_of_lt hlow]

end Narrow

/-- A word that has been widened comes back as it was. -/
theorem narrow_widen : narrow (widen w) = w := by
  apply BitVec.eq_of_toNat_eq
  obtain ⟨e, f, hwiden, hfields⟩ := exists_widens w
  have hexponent := (w.extractLsb' 23 8).isLt
  rw [hwiden, toNat_eq_fields w]
  cases hfields with
  | zero hzero hfraction =>
      rw [toNat_narrow_of_cut _ _ (by decide), hzero, hfraction]
      simp
  | denormal hzero hfraction hn he hf =>
      rw [toNat_narrow_of_shift _ _ hn he, hf, Nat.mul_div_cancel _ (Nat.two_pow_pos _), hzero]
      simp
  | number hzero hspecial he =>
      have hpos : (w.extractLsb' 23 8).toNat ≠ 0 := fun h => hzero (BitVec.eq_of_toNat_eq h)
      have hlt : (w.extractLsb' 23 8).toNat ≠ 255 := fun h => hspecial (BitVec.eq_of_toNat_eq h)
      rw [toNat_narrow_of_cut _ _ (by omega), he]
      omega
  | special hspecial =>
      have hones : (2047 : BitVec 11).toNat = 2047 := rfl
      have hones' : (255 : BitVec 8).toNat = 255 := rfl
      rw [toNat_narrow_of_cut _ _ (by decide), hspecial]
      omega

/-! ## The same number -/

/-- What the fields of a word stand for. -/
theorem datum_eq :
    datum w =
      if (w.extractLsb' 23 8).toNat = 255 then
        if (w.extractLsb' 0 23).toNat = 0 then .infinity w.msb else .nan
      else if (w.extractLsb' 23 8).toNat = 0 then
        .finite w.msb (w.extractLsb' 0 23).toNat Format.single.minExponent
      else .finite w.msb (2 ^ 23 + (w.extractLsb' 0 23).toNat)
        (Format.single.minExponent + ((w.extractLsb' 23 8).toNat - 1 : Nat)) := by
  have hmagnitude : w.toNat % 2 ^ 31 =
      (w.extractLsb' 23 8).toNat * 2 ^ 23 + (w.extractLsb' 0 23).toNat := by
    have hexponent := (w.extractLsb' 23 8).isLt
    have hfraction := (w.extractLsb' 0 23).isLt
    rw [toNat_eq_fields w]
    omega
  rw [datum, hmagnitude]
  exact Format.datum_fields .single w.msb (w.extractLsb' 23 8).isLt (w.extractLsb' 0 23).isLt

/-- A word that has been widened is the same number, and it is a number whenever the word is one. -/
theorem value?_widen : (widen w).datum.value? = (datum w).value? := by
  obtain ⟨e, f, hwiden, hfields⟩ := exists_widens w
  rw [hwiden, datum_eq]
  cases hfields with
  | zero hzero hfraction =>
      rw [Double.datum_ofFields_zero, hzero, hfraction]
      exact Datum.value?_zero w.msb _ _
  | denormal hzero hfraction hn he hf =>
      rename_i n
      have hunit : ((n + 29 : Nat) : Int) + (Format.double.minExponent + (e.toNat - 1 : Nat)) =
          Format.single.minExponent := by
        show ((n + 29 : Nat) : Int) + (-1074 + (e.toNat - 1 : Nat)) = -149
        omega
      rw [Double.datum_ofFields _ _ (by omega) (by omega), hf, Nat.mul_assoc, ← Nat.pow_add,
        Datum.value?_shift, hunit, hzero]
      rfl
  | number hzero hspecial he =>
      have hpos : (w.extractLsb' 23 8).toNat ≠ 0 := fun h => hzero (BitVec.eq_of_toNat_eq h)
      have hlt : (w.extractLsb' 23 8).toNat ≠ 255 := fun h => hspecial (BitVec.eq_of_toNat_eq h)
      have hexponent := (w.extractLsb' 23 8).isLt
      have hunit : ((29 : Nat) : Int) + (Format.double.minExponent + (e.toNat - 1 : Nat)) =
          Format.single.minExponent + ((w.extractLsb' 23 8).toNat - 1 : Nat) := by
        show ((29 : Nat) : Int) + (-1074 + (e.toNat - 1 : Nat)) =
          -149 + ((w.extractLsb' 23 8).toNat - 1 : Nat)
        omega
      rw [Double.datum_ofFields _ _ (by omega) (by omega), Datum.value?_shift, hunit,
        if_neg hlt, if_neg hpos]
  | special hspecial =>
      rw [Double.datum_ofFields_special, hspecial]
      split <;> rfl

/-! ## Infinities and NaNs -/

theorem fields_of_infinity {negative : Bool} (h : datum w = .infinity negative) :
    w.extractLsb' 23 8 = 255 ∧ w.extractLsb' 0 23 = 0 ∧ w.msb = negative := by
  rw [datum_eq] at h
  split at h
  · next hspecial =>
      split at h
      · next hzero =>
          exact ⟨BitVec.eq_of_toNat_eq hspecial, BitVec.eq_of_toNat_eq hzero,
            Datum.infinity.inj h⟩
      · contradiction
  · split at h <;> contradiction

theorem widen_infinity {negative : Bool} (h : datum w = .infinity negative) :
    widen w = Double.infinity negative := by
  obtain ⟨hspecial, hzero, hsign⟩ := fields_of_infinity w h
  rw [widen_of_special hspecial, hzero, hsign]
  cases negative <;> rfl

theorem special_of_nan (h : datum w = .nan) : w.extractLsb' 23 8 = 255 := by
  rw [datum_eq] at h
  split at h
  · next hspecial => exact BitVec.eq_of_toNat_eq hspecial
  · split at h <;> contradiction

/-- Zeros behind the fraction move its bits up by their number. -/
theorem getLsbD_widen_quiet (h : w.extractLsb' 23 8 = 255) :
    (widen w).getLsbD 51 = w.getLsbD 22 := by
  have hfraction : (widen w).extractLsb' 0 52 = w.extractLsb' 0 23 ++ 0#29 := by
    rw [widen_of_special h, Double.fraction_ofFields]
  have hbit : ((widen w).extractLsb' 0 52).getLsbD 51 = (w.extractLsb' 0 23 ++ 0#29).getLsbD 51 := by
    rw [hfraction]
  rw [BitVec.getLsbD_extractLsb', BitVec.getLsbD_append, BitVec.getLsbD_extractLsb'] at hbit
  exact hbit

/-- What becomes of a NaN when it is widened. -/
structure KeepsNaN (w : Word) : Prop where
  nan : (widen w).datum = .nan
  negative : (widen w).negative = w.msb
  /-- The payload is that of the word, twenty-nine bits further up. -/
  payload : (widen w).extractLsb' 0 52 = w.extractLsb' 0 23 ++ 0#29
  quiet : (widen w).getLsbD 51 = w.getLsbD 22
  signaling : (widen w).isSignaling = isSignaling w

theorem keepsNaN (h : datum w = .nan) : KeepsNaN w := by
  have hspecial := special_of_nan w h
  have hwiden := widen_of_special hspecial
  have hquiet := getLsbD_widen_quiet w hspecial
  have hones : (w.extractLsb' 23 8).toNat = 255 := by rw [hspecial]; rfl
  have hfraction : (w.extractLsb' 0 23).toNat ≠ 0 := by
    intro hzero
    rw [datum_eq, if_pos hones, if_pos hzero] at h
    contradiction
  have hnan : (widen w).datum = .nan := by
    rw [hwiden, Double.datum_ofFields_special, if_neg hfraction]
  constructor
  case nan => exact hnan
  case negative => rw [hwiden, Double.negative_ofFields]
  case payload => rw [hwiden, Double.fraction_ofFields]
  case quiet => exact hquiet
  case signaling => rw [Double.isSignaling_eq, isSignaling, hnan, h, hquiet]

/-! ## The loop that normalises -/

/-- The loop shifts a denormal fraction up at most twenty-three times, until its leading one is bit
23, and the exponent says how often. -/
def Normalizes (fraction : BitVec 23) : Prop :=
  ∃ n, 1 ≤ n ∧ n ≤ 23 ∧
    2 ^ 23 ≤ fraction.toNat * 2 ^ n ∧ fraction.toNat * 2 ^ n < 2 ^ 24 ∧
    Checked.normalize 897 (fraction.setWidth 64) = .ok (897 - n, fraction.setWidth 64 <<< n)

theorem normalizes {f : BitVec 23} (hf : f ≠ 0) : Normalizes f := by
  have hpos : f.toNat ≠ 0 := fun h => hf (BitVec.eq_of_toNat_eq h)
  have hlog : f.toNat.log2 < 23 := (Nat.log2_lt hpos).2 f.isLt
  have hwide : (f.setWidth 64).toNat = f.toNat := BitVec.toNat_setWidth_of_le (by decide)
  have hstart : 897 = 897 - (22 - f.toNat.log2 + 1) + (22 - f.toNat.log2 + 1) := by omega
  obtain ⟨hlow, hhigh⟩ := Checked.denormal_bounds hpos f.isLt
  refine ⟨22 - f.toNat.log2 + 1, by omega, by omega, hlow, hhigh, ?_⟩
  have hloop := Checked.normalize_eq (897 - (22 - f.toNat.log2 + 1))
    (by rwa [hwide]) (by rwa [hwide])
  rwa [← hstart] at hloop

/-! ## Lossless storage -/

/-- What it means that widening loses nothing of a word. -/
structure Lossless (w : Word) : Prop where
  back : narrow (widen w) = w
  /-- A number stays the same number, and a zero keeps its sign as well. -/
  value : ∀ x, (datum w).value? = some x →
    (widen w).datum.value? = some x ∧ (widen w).negative = w.msb
  infinity : ∀ s, datum w = .infinity s → widen w = Double.infinity s
  nan : datum w = .nan → KeepsNaN w
  denormal : w.extractLsb' 23 8 = 0 → w.extractLsb' 0 23 ≠ 0 → Normalizes (w.extractLsb' 0 23)

theorem negative_widen : (widen w).negative = w.msb := by
  obtain ⟨e, f, hwiden, -⟩ := exists_widens w
  rw [hwiden, Double.negative_ofFields]

theorem lossless : Lossless w := by
  constructor
  case back => exact narrow_widen w
  case value =>
    intro x hx
    exact ⟨(value?_widen w).trans hx, negative_widen w⟩
  case infinity =>
    intro s hs
    exact widen_infinity w hs
  case nan => exact keepsNaN w
  case denormal =>
    intro _ hfraction
    exact normalizes hfraction

end Single

end Broadway
