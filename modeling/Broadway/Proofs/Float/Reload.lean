import Broadway.Proofs.Float.Nearest
import Broadway.Proofs.Float.Storage

/-!
# What is rounded to single precision is a widened word

Rounding to single precision delivers the widened form of a word, whatever it rounds
(`Single.exists_widen_round`): of the word with the magnitude that the number is rounded to, of an
infinity, or of a quiet NaN that keeps the sign and the upper bits of the payload. A widened word
comes back when it is narrowed, so what was rounded loses nothing in memory
(`Single.widen_narrow_round`), and nothing when it is rounded again (`Single.round_round`).

`Single.RoundsNearest` says what rounding is: to the nearest number that single precision has, with
halves to the even magnitude and what is too large to infinity.
-/

namespace Broadway

namespace Single

variable {x : Double}

/-! ## Numbers -/

/-- The word of a sign and a magnitude. -/
def ofMagnitude (s : Bool) (n : Nat) : Word := BitVec.ofBool s ++ BitVec.ofNat 31 n

variable (s : Bool)

theorem toNat_ofMagnitude {n : Nat} (h : n < 2 ^ 31) :
    (ofMagnitude s n).toNat = s.toNat * 2 ^ 31 + n := by
  have hsign : (BitVec.ofBool s).toNat = s.toNat := by cases s <;> rfl
  rw [ofMagnitude, toNat_append, BitVec.toNat_ofNat, Nat.mod_eq_of_lt h, hsign]

theorem msb_ofMagnitude {n : Nat} (h : n < 2 ^ 31) : (ofMagnitude s n).msb = s :=
  msb_of_toNat h (toNat_ofMagnitude s h)

theorem datum_ofMagnitude {n : Nat} (h : n < 2 ^ 31) :
    datum (ofMagnitude s n) = Format.single.datum s n := by
  have hmagnitude : (ofMagnitude s n).toNat % 2 ^ 31 = n := by
    rw [toNat_ofMagnitude s h]
    omega
  rw [datum, msb_ofMagnitude s h, hmagnitude]

/-- What a number is rounded to leaves room for the sign. -/
theorem single_round_lt (m : Nat) (e : Int) : Format.single.round m e < 2 ^ 31 :=
  Nat.lt_of_le_of_lt (Format.round_le_infinity .single m e) (by decide)

variable {s} {m : Nat} {e : Int}

/-- A number is rounded to a magnitude of single precision, and the word of that is widened. -/
theorem round_of_finite (h : x.datum = .finite s m e) :
    round x = widen (ofMagnitude s (Format.single.round m e)) := by
  have hle := Format.round_le_infinity .single m e
  have hlt := single_round_lt m e
  have hround : round x =
      if Format.single.round m e = Format.single.infinity then Double.infinity s
      else Double.ofMagnitude s
        (Format.double.round (Format.single.decode (Format.single.round m e)).1
          (Format.single.decode (Format.single.round m e)).2) := by
    rw [round, h]
  rw [hround]
  generalize Format.single.round m e = n at *
  have hword := datum_ofMagnitude s hlt
  split
  · next hinfinite =>
    rw [hinfinite, Format.datum_infinity] at hword
    rw [hinfinite]
    exact (widen_infinity _ hword).symm
  · next hne =>
    have hbelow : n < Format.single.infinity := by omega
    have hfits := Format.fits_decode .single (by decide) hbelow
    have hvalue := Format.value?_datum s hbelow
    apply Double.eq_of_value (v := if s then -Format.single.number n else Format.single.number n)
    · rw [Double.value?_of_fits s (fits_double hfits), ← Format.datum_of_lt s hbelow, hvalue]
    · rw [value?_widen, hword, hvalue]
    · have hbound : Format.double.infinity < 2 ^ 63 := by decide
      have hround := Format.round_le_infinity .double (Format.single.decode n).1
        (Format.single.decode n).2
      rw [Double.negative_ofMagnitude s (by omega), negative_widen, msb_ofMagnitude s hlt]

theorem round_of_infinity (h : x.datum = .infinity s) : round x = x := by
  rw [round, h]

/-! ## NaNs -/

theorem quiet_ofFields (s : Bool) (e : BitVec 11) (f : BitVec 23) :
    (Double.ofFields s e f).quiet = Double.ofFields s e (f ||| 0x400000#23) := by
  have hbit : Double.quietBit = BitVec.ofBool false ++ 0#11 ++ 0x400000#23 ++ 0#29 := by decide
  rw [Double.quiet, hbit, Double.ofFields, Double.ofFields, BitVec.or_append, BitVec.or_append,
    BitVec.or_append, BitVec.or_zero, BitVec.or_zero]
  cases s <;> rfl

/-- A NaN keeps its sign and what fits of its payload, with the quiet bit set. -/
theorem round_of_nan (h : x.datum = .nan) : round x =
    Double.ofFields x.negative 2047 (x.extractLsb' 29 23 ||| 0x400000#23) := by
  have hnan := (Double.isNaN_iff x).2 h
  have hmagnitude : Format.double.infinity < x.magnitude := of_decide_eq_true hnan
  have hinfinity : Format.double.infinity = 2047 * 2 ^ 52 := by decide
  have hones : (2047 : BitVec 11).toNat = 2047 := rfl
  have hx := x.toNat_eq_sign
  have hsign := x.negative.toNat_le
  have hmod : x.magnitude = x.toNat % 2 ^ 63 := rfl
  have hcut : x &&& payloadMask = Double.ofFields x.negative 2047 (x.extractLsb' 29 23) := by
    apply BitVec.eq_of_toNat_eq
    rw [Double.and_payloadMask, Double.toNat_ofFields, BitVec.toNat_shiftLeft,
      BitVec.toNat_ushiftRight, Nat.shiftLeft_eq, Nat.shiftRight_eq_div_pow,
      BitVec.extractLsb'_toNat, Nat.shiftRight_eq_div_pow]
    omega
  rw [round_of_isNaN hnan, hcut, quiet_ofFields]

theorem datum_round_of_nan (h : x.datum = .nan) : (round x).datum = .nan :=
  (Double.isNaN_iff _).1 (isNaN_round_of_isNaN ((Double.isNaN_iff x).2 h))

/-- A NaN or an infinity that has nothing in its low bits comes back from a word. -/
theorem widen_narrow_special (s : Bool) (f : BitVec 23) :
    widen (narrow (Double.ofFields s 2047 f)) = Double.ofFields s 2047 f := by
  have hsign := s.toNat_le
  have hf := f.isLt
  have hword : (narrow (Double.ofFields s 2047 f)).toNat =
      s.toNat * 2 ^ 31 + (255 * 2 ^ 23 + f.toNat) := by
    have hones : (2047 : BitVec 11).toNat = 2047 := rfl
    rw [toNat_narrow_of_cut s f (by decide)]
    omega
  have hspecial : (narrow (Double.ofFields s 2047 f)).extractLsb' 23 8 = 255 := by
    have hones : (255 : BitVec 8).toNat = 255 := rfl
    apply BitVec.eq_of_toNat_eq
    rw [toNat_exponent, hword]
    omega
  have hfraction : (narrow (Double.ofFields s 2047 f)).extractLsb' 0 23 = f := by
    apply BitVec.eq_of_toNat_eq
    rw [BitVec.extractLsb'_toNat, Nat.shiftRight_zero, hword]
    omega
  rw [widen_of_special hspecial, hfraction, msb_of_toNat (by omega) hword]

/-! ## Memory and a second rounding -/

theorem exists_widen_round (x : Double) : ∃ w, round x = widen w := by
  cases hdatum : x.datum with
  | nan => exact ⟨_, (round_of_nan hdatum).trans (widen_narrow_special _ _).symm⟩
  | infinity s =>
      have hword := datum_ofMagnitude s (n := Format.single.infinity) (by decide)
      have hinfinite : datum (ofMagnitude s Format.single.infinity) = .infinity s := by
        rw [hword, Format.datum_infinity]
      refine ⟨_, Eq.trans ?_ (widen_infinity _ hinfinite).symm⟩
      rw [round_of_infinity hdatum, Double.eq_infinity hdatum]
  | finite s m e => exact ⟨_, round_of_finite hdatum⟩

/-- What was rounded to single precision survives in memory. -/
theorem widen_narrow_round (x : Double) : widen (narrow (round x)) = round x := by
  obtain ⟨w, hw⟩ := exists_widen_round x
  rw [hw, narrow_widen]

/-- The number that a finite number is rounded to, if that is not too large. -/
theorem value?_round (h : x.datum = .finite s m e)
    (hbelow : Format.single.round m e < Format.single.infinity) : (round x).datum.value? =
      some (if s then -Format.single.number (Format.single.round m e)
        else Format.single.number (Format.single.round m e)) := by
  rw [round_of_finite h, value?_widen, datum_ofMagnitude s (single_round_lt m e)]
  exact Format.value?_datum s hbelow

theorem negative_round_of_finite (h : x.datum = .finite s m e) : (round x).negative = s := by
  rw [round_of_finite h, negative_widen, msb_ofMagnitude s (single_round_lt m e)]

theorem round_of_large (h : x.datum = .finite s m e)
    (hlarge : Format.single.round m e = Format.single.infinity) :
    round x = Double.infinity s := by
  rw [round, h]
  exact if_pos hlarge

/-- What was rounded is not changed when it is rounded again. -/
theorem round_round (x : Double) : round (round x) = round x := by
  cases hdatum : x.datum with
  | nan =>
      have hfraction (f : BitVec 23) :
          (Double.ofFields x.negative 2047 f).extractLsb' 29 23 = f := by
        apply BitVec.eq_of_toNat_eq
        have hf := f.isLt
        rw [BitVec.extractLsb'_toNat, Double.toNat_ofFields, Nat.shiftRight_eq_div_pow]
        omega
      have hsign := negative_round_of_isNaN ((Double.isNaN_iff x).2 hdatum)
      rw [round_of_nan (datum_round_of_nan hdatum), hsign, round_of_nan hdatum, hfraction,
        BitVec.or_assoc, BitVec.or_self]
  | infinity s => rw [round_of_infinity hdatum, round_of_infinity hdatum]
  | finite s m e =>
      rcases Nat.lt_or_eq_of_le (Format.round_le_infinity .single m e) with hbelow | hlarge
      · -- the second rounding finds a number that single precision has
        have hvalue := value?_round hdatum hbelow
        obtain ⟨m', e', hfinite⟩ := Double.finite_of_value? hvalue
        rw [negative_round_of_finite hdatum] at hfinite
        have hsame : (m' : Rat) * 2 ^ e' = Format.single.number (Format.single.round m e) := by
          rw [hfinite] at hvalue
          rw [← Datum.abs_value hvalue, Format.abs_number rfl]
        have hround : Format.single.round m' e' = Format.single.round m e :=
          (Format.single.round_congr hsame).trans (Format.single.round_decode hbelow)
        rw [round_of_finite hfinite, hround, round_of_finite hdatum]
      · rw [round_of_large hdatum hlarge, round_of_infinity (Double.datum_infinity s)]

/-! ## What rounding is -/

/-- Rounding to single precision. Magnitudes are counted on beyond infinity, and a number whose
nearest magnitude is not below it is too large; a NaN is made quiet and keeps its sign and the bits
of its payload that there is room for. -/
structure RoundsNearest (x : Double) : Prop where
  number : ∀ v, x.datum.value? = some v → ∃ n, Format.single.Nearest v.abs n ∧
    (n < Format.single.infinity → (round x).negative = x.negative ∧ (round x).datum.value? =
      some (if x.negative then -Format.single.number n else Format.single.number n)) ∧
    (Format.single.infinity ≤ n → round x = Double.infinity x.negative)
  infinity : ∀ s, x.datum = .infinity s → round x = x
  nan : x.datum = .nan → (round x).datum = .nan ∧ (round x).negative = x.negative ∧
    (round x).extractLsb' 0 52 = (x.extractLsb' 29 23 ||| 0x400000#23) ++ 0#29

theorem roundsNearest (x : Double) : RoundsNearest x := by
  constructor
  case number =>
    intro v hv
    obtain ⟨m, e, hdatum⟩ := Double.finite_of_value? hv
    have habs : v.abs = m * 2 ^ e := by
      rw [hdatum] at hv
      exact Datum.abs_value hv
    obtain ⟨n, hnearest, hround⟩ := Format.single.exists_nearest (by decide) m e
    refine ⟨n, habs ▸ hnearest, ?_, ?_⟩
    · intro hbelow
      have hn : Format.single.round m e = n := by omega
      refine ⟨negative_round_of_finite hdatum, ?_⟩
      rw [value?_round hdatum (by omega), hn]
    · intro hlarge
      exact round_of_large hdatum (by omega)
  case infinity =>
    intro s hs
    exact round_of_infinity hs
  case nan =>
    intro hnan
    refine ⟨datum_round_of_nan hnan, negative_round_of_isNaN ((Double.isNaN_iff x).2 hnan), ?_⟩
    rw [round_of_nan hnan, Double.fraction_ofFields]

end Single

end Broadway
