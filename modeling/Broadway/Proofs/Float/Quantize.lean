import Broadway.Float.Quantize
import Broadway.Proofs.Bytes
import Broadway.Proofs.Float.Order
import Broadway.Proofs.Float.Storage

/-!
# Quantization is exact

A lane is multiplied by a power of two and clamped to the range of a type, both in the arithmetic of
doubles, before it is cut to an integer. The product is exact unless it is beyond all doubles or has
digits below the last place of all doubles (`Double.Scaled`); in both cases the integer of the range
is the one that the exact product would give. Clamping first is no different from cutting first
(`QuantizeType.cut_clamp`). So a lane is stored as the rule on rational numbers says
(`Quantizer.toInteger_number`), and an element that was made a lane is stored as itself
(`Quantizer.quantize_dequantize`).
-/

namespace Broadway

namespace Rounding

variable {x y : Rat}

/-- Cutting off fractions keeps the order. -/
theorem towardZero_mono (h : x ≤ y) : towardZero.round x ≤ towardZero.round y := by
  rw [round, round]
  by_cases hx : x < 0
  · rw [if_pos hx]
    split
    · exact Rat.ceil_le_iff.2 (Rat.le_trans h (Rat.ceil_le_iff.1 (Int.le_refl _)))
    · next hy =>
      have hneg : x.ceil ≤ 0 := Rat.ceil_le_iff.2 (Rat.le_of_lt hx)
      have hpos : 0 ≤ y.floor := Rat.le_floor_iff.2 (Rat.not_lt.1 hy)
      omega
  · have hy : ¬ y < 0 := by grind
    rw [if_neg hx, if_neg hy]
    exact Rat.floor_monotone h

/-- What lies between minus one and one is cut to zero. -/
theorem towardZero_fraction (hlow : -1 < x) (hhigh : x < 1) : towardZero.round x = 0 := by
  rw [round]
  split
  · next hx =>
    apply ceil_eq
    · rw [Rat.intCast_zero]
      grind
    · rw [Rat.intCast_zero]
      exact Rat.le_of_lt hx
  · next hx =>
    apply floor_eq
    · rw [Rat.intCast_zero]
      exact Rat.not_lt.1 hx
    · rw [Rat.intCast_zero]
      grind

end Rounding

/-! ## Scaled numbers -/

namespace Datum

variable {s : Bool} {m : Nat} {e : Int} {v : Rat}

theorem value?_scaled (h : (finite s m e).value? = some v) (k : Int) :
    (finite s m (e + k)).value? = some (v * 2 ^ k) := by
  rw [value?] at h ⊢
  rw [← Option.some.inj h, Rat.zpow_add (by decide), Rat.mul_assoc, Rat.mul_assoc]

/-- A number of fifty-three digits at most, all of them behind the point. -/
theorem fraction_of_small (h : (finite s m e).value? = some v) (hm : m < 2 ^ 53) (he : e ≤ -53) :
    -1 < v ∧ v < 1 := by
  have hzero : e.toNat = 0 := by omega
  have hpow : 2 ^ 53 ≤ 2 ^ (-e).toNat := Nat.pow_le_pow_right (by decide) (by omega)
  have hpos : (0 : Rat) < (2 ^ (-e).toNat : Nat) := Rat.natCast_pos.2 (Nat.two_pow_pos _)
  have hbelow : (m : Rat) / (2 ^ (-e).toNat : Nat) < 1 := by
    rw [Rat.div_lt_iff hpos, Rat.one_mul]
    exact Rat.natCast_lt_natCast.2 (by omega)
  have hnonneg : (0 : Rat) ≤ (m : Rat) / (2 ^ (-e).toNat : Nat) := by
    rw [← Rat.not_lt, Rat.div_lt_iff hpos, Rat.zero_mul, Rat.not_lt]
    exact Rat.natCast_nonneg
  rw [value?_quotient, hzero, Nat.shiftLeft_zero] at h
  have hv := Option.some.inj h
  cases s with
  | true =>
      rw [if_pos rfl] at hv
      grind
  | false =>
      rw [if_neg Bool.false_ne_true] at hv
      grind

/-- A number of fifty-three digits at most that is beyond all doubles is beyond all integers of
sixty-four bits. -/
theorem beyond_of_large (h : (finite s m e).value? = some v) (hm : m ≠ 0) (hdigits : m < 2 ^ 53)
    (hlarge : 1024 ≤ (m.log2 : Int) + e) :
    if s then v ≤ ((-2 ^ 64 : Int) : Rat) else ((2 ^ 64 : Int) : Rat) ≤ v := by
  have hlog : m.log2 < 53 := (Nat.log2_lt hm).2 hdigits
  have hunit : (-e).toNat = 0 := by omega
  have hshift : 2 ^ 64 ≤ m <<< e.toNat := by
    calc 2 ^ 64
        ≤ 2 ^ (m.log2 + e.toNat) := Nat.pow_le_pow_right (by decide) (by omega)
      _ = 2 ^ m.log2 * 2 ^ e.toNat := Nat.pow_add 2 _ _
      _ ≤ m * 2 ^ e.toNat := Nat.mul_le_mul_right _ (Nat.log2_self_le hm)
      _ = m <<< e.toNat := (Nat.shiftLeft_eq m _).symm
  have hcast : ((2 ^ 64 : Int) : Rat) ≤ (m <<< e.toNat : Nat) := by
    rw [← Rat.intCast_natCast]
    exact Rat.intCast_le_intCast.2 (by exact_mod_cast hshift)
  have hone (x : Rat) : x / (2 ^ 0 : Nat) = x := by
    show x / 1 = x
    grind
  rw [value?_quotient, hunit, hone] at h
  have hv := Option.some.inj h
  cases s with
  | true =>
      rw [if_pos rfl] at hv
      rw [if_pos rfl, Rat.intCast_neg]
      grind
  | false =>
      rw [if_neg Bool.false_ne_true] at hv
      rw [if_neg Bool.false_ne_true, ← hv]
      exact hcast

end Datum

namespace Double

/-- What comes out of a product that is the number `v` when it is exact. -/
inductive Scaled (v : Rat) (y : Double) : Prop
  | exact (hy : y.datum.value? = some v)
  /-- The number is beyond all doubles, and so beyond all integers of sixty-four bits. -/
  | overflow {s : Bool} (hy : y.datum = .infinity s)
      (hv : if s then v ≤ ((-2 ^ 64 : Int) : Rat) else ((2 ^ 64 : Int) : Rat) ≤ v)
  /-- The number has digits below the last place of all doubles. It is a fraction then, and so is
  what it is rounded to. -/
  | underflow {w : Rat} (hy : y.datum.value? = some w) (hw : -1 < w ∧ w < 1) (hv : -1 < v ∧ v < 1)

variable {x : Double} {v : Rat} {k : Int}

theorem exists_scaled (hx : x.datum.value? = some v) (hlow : -1074 ≤ k) (hhigh : k < 1024) :
    ∃ y, x.mul? (twoPow k) = some y ∧ Scaled (v * 2 ^ k) y := by
  obtain ⟨m, e, hdatum⟩ := finite_of_value? hx
  obtain ⟨hdigits, hplace, hsize⟩ := fits_datum hdatum
  rw [hdatum] at hx
  have hvalue := Datum.value?_scaled hx k
  refine ⟨_, mul?_twoPow hlow hhigh hdatum, ?_⟩
  by_cases hm : m = 0
  · -- zero comes out as zero in every unit
    subst hm
    have hsame : Format.double.round 0 (e + k) = Format.double.round 0 e := by simp
    refine .exact ?_
    rw [hsame, value?_of_fits _ ⟨hdigits, hplace, hsize⟩, Datum.value?_zero _ e (e + k)]
    exact hvalue
  · by_cases hunit : -1074 ≤ e + k
    · by_cases hrange : (m.log2 : Int) + (e + k) < 1024
      · refine .exact ?_
        rw [value?_of_fits _ ⟨hdigits, hunit, hrange⟩]
        exact hvalue
      · have hinfinity : Format.double.round m (e + k) = Format.double.infinity :=
          Format.round_of_large (by decide) hm hdigits hunit (Int.not_lt.1 hrange)
        refine .overflow (s := x.negative) ?_ ?_
        · rw [hinfinity]
          exact datum_infinity _
        · exact Datum.beyond_of_large hvalue hm hdigits (Int.not_lt.1 hrange)
    · have hbelow : e + k ≤ Format.double.minExponent := Int.le_of_lt (Int.not_le.1 hunit)
      obtain ⟨hle, hdecode⟩ := Format.double.round_of_small hdigits hbelow
      have hbound : Format.double.infinity > 2 ^ 53 := by decide
      have hround : Format.double.round m (e + k) < 2 ^ 53 := Nat.lt_of_le_of_lt hle hdigits
      have hy : (ofMagnitude x.negative (Format.double.round m (e + k))).datum =
          .finite x.negative (Format.double.round m (e + k)) Format.double.minExponent := by
        rw [datum_of_lt_infinity _ (by omega), hdecode]
      refine .underflow (congrArg Datum.value? hy) ?_ ?_
      · exact Datum.fraction_of_small (s := x.negative) rfl hround (by decide)
      · exact Datum.fraction_of_small hvalue hdigits (by omega)

end Double

/-! ## Integers of a type -/

namespace QuantizeType

/-- Whether the integers of a type have a sign. -/
def signed : QuantizeType → Bool
  | .s8 | .s16 => true
  | .float | .u8 | .u16 => false

/-- The integer that the bytes of an element are. -/
def integer (t : QuantizeType) (bytes : List Byte) : Int :=
  if t.signed then (Bytes.toWord t.size bytes).toInt else (Bytes.toWord t.size bytes).toNat

/-- The least and the greatest integer that the bytes of an element can be. -/
def ends (t : QuantizeType) : Int × Int :=
  if t.signed then (-2 ^ (8 * t.size - 1), 2 ^ (8 * t.size - 1) - 1) else (0, 2 ^ (8 * t.size) - 1)

variable {t : QuantizeType}

/-- What an integer type clamps to are the ends of its integers. -/
theorem range_eq_ends (ht : t ≠ .float) : t.range = t.ends := by
  cases t with
  | float => contradiction
  | _ => rfl

theorem range_bounds (t : QuantizeType) : -2 ^ 16 < t.range.1 ∧ t.range.1 ≤ 0 ∧ 0 ≤ t.range.2 ∧
    t.range.2 < 2 ^ 16 := by
  cases t <;> decide

/-- The integer of an element lies in the range of its type. -/
theorem integer_within (ht : t ≠ .float) (bytes : List Byte) :
    t.range.1 ≤ t.integer bytes ∧ t.integer bytes ≤ t.range.2 := by
  cases t with
  | float => contradiction
  | u8 =>
      have hlt := (Bytes.toWord 1 bytes).isLt
      simp only [integer, signed, size, range, Bool.false_eq_true, if_false]
      omega
  | u16 =>
      have hlt := (Bytes.toWord 2 bytes).isLt
      simp only [integer, signed, size, range, Bool.false_eq_true, if_false]
      omega
  | s8 =>
      have hle := BitVec.le_toInt (Bytes.toWord 1 bytes)
      have hlt := BitVec.toInt_lt (x := Bytes.toWord 1 bytes)
      simp only [integer, signed, size, range, if_true]
      omega
  | s16 =>
      have hle := BitVec.le_toInt (Bytes.toWord 2 bytes)
      have hlt := BitVec.toInt_lt (x := Bytes.toWord 2 bytes)
      simp only [integer, signed, size, range, if_true]
      omega

/-- An integer is its own element. -/
theorem ofInt_integer (t : QuantizeType) (bytes : List Byte) :
    BitVec.ofInt (8 * t.size) (t.integer bytes) = Bytes.toWord t.size bytes := by
  rw [integer]
  split
  · exact BitVec.ofInt_toInt
  · rw [BitVec.ofInt_natCast, BitVec.ofNat_toNat, BitVec.setWidth_eq]

/-- An integer of the range is read back from its element, so it does not wrap. -/
theorem integer_ofInt {n : Int} (hlow : t.range.1 ≤ n) (hhigh : n ≤ t.range.2) :
    t.integer (Bytes.ofWord t.size (BitVec.ofInt (8 * t.size) n)) = n := by
  rw [integer, Bytes.toWord_ofWord]
  cases t with
  | float | u8 | u16 =>
      simp only [range, size, signed] at *
      simp only [Bool.false_eq_true, if_false, BitVec.toNat_ofInt]
      omega
  | s8 | s16 =>
      simp only [range, size, signed] at *
      simp only [if_true, BitVec.toInt_ofInt]
      rw [Int.bmod_eq_of_le (by omega) (by omega)]

end QuantizeType

/-! ## Lanes that are stored -/

namespace Datum

variable {range : Int × Int}

theorem cut_within (hlow : range.1 ≤ 0) (hhigh : 0 ≤ range.2) (d : Datum) :
    range.1 ≤ d.cut range ∧ d.cut range ≤ range.2 := by
  cases d with
  | nan => exact ⟨hlow, hhigh⟩
  | infinity s =>
      cases s with
      | true => exact ⟨Int.le_refl _, Int.le_trans hlow hhigh⟩
      | false => exact ⟨Int.le_trans hlow hhigh, Int.le_refl _⟩
  | finite s m e =>
      simp only [cut]
      omega

end Datum

namespace QuantizeType

/-- The ends of a range are doubles. -/
theorem value?_range (t : QuantizeType) :
    (Double.ofInt t.range.1).datum.value? = some (t.range.1 : Rat) ∧
      (Double.ofInt t.range.2).datum.value? = some (t.range.2 : Rat) := by
  obtain ⟨hleast, hneg, hpos, hgreatest⟩ := t.range_bounds
  exact ⟨Double.value?_ofInt (by omega), Double.value?_ofInt (by omega)⟩

/-- Clamping before the fraction is cut off comes to the same integer as clamping after it. -/
theorem cut_clamp (t : QuantizeType) {y : Double} {v : Rat} (hy : y.datum.value? = some v) :
    (y.clamp (.ofInt t.range.1) (.ofInt t.range.2)).datum.cut t.range =
      max t.range.1 (min t.range.2 (Rounding.towardZero.round v)) := by
  obtain ⟨hlow, hhigh⟩ := t.value?_range
  obtain ⟨-, hneg, hpos, -⟩ := t.range_bounds
  rw [Double.clamp, Double.order_of_numbers hy hlow, Double.order_of_numbers hy hhigh]
  by_cases hbelow : v < t.range.1
  · have hround := Rounding.towardZero_mono (Rat.le_of_lt hbelow)
    rw [Rounding.towardZero_intCast] at hround
    rw [if_pos hbelow, if_pos rfl, Datum.cut_number hlow, Rounding.towardZero_intCast]
    omega
  · have hlowest : some
        (if v < t.range.1 then Ordering.lt else if v = t.range.1 then .eq else .gt) ≠
          some .lt := by
      rw [if_neg hbelow]
      split <;> nofun
    rw [if_neg hlowest]
    by_cases habove : (t.range.2 : Rat) < v
    · have hround := Rounding.towardZero_mono (Rat.le_of_lt habove)
      rw [Rounding.towardZero_intCast] at hround
      have hnotBelow : ¬ v < t.range.2 := by grind
      have hnotEqual : v ≠ t.range.2 := by grind
      rw [if_neg hnotBelow, if_neg hnotEqual, if_pos rfl, Datum.cut_number hhigh,
        Rounding.towardZero_intCast]
      omega
    · have hhighest : some
          (if v < t.range.2 then Ordering.lt else if v = t.range.2 then .eq else .gt) ≠
            some .gt := by
        by_cases hlt : v < t.range.2
        · rw [if_pos hlt]
          nofun
        · have heq : v = t.range.2 := by grind
          rw [if_neg hlt, if_pos heq]
          nofun
      rw [if_neg hhighest, Datum.cut_number hy]

theorem cut_clamp_infinity (t : QuantizeType) {y : Double} {s : Bool} (hy : y.datum = .infinity s) :
    (y.clamp (.ofInt t.range.1) (.ofInt t.range.2)).datum.cut t.range =
      if s then t.range.1 else t.range.2 := by
  obtain ⟨hlow, hhigh⟩ := t.value?_range
  obtain ⟨-, hneg, hpos, -⟩ := t.range_bounds
  rw [Double.clamp, Double.order_of_infinity hy hlow, Double.order_of_infinity hy hhigh]
  cases s with
  | true =>
      rw [if_pos rfl, if_pos rfl, if_pos rfl, Datum.cut_number hlow, Rounding.towardZero_intCast]
      omega
  | false =>
      simp only [Bool.false_eq_true, if_false, Option.some.injEq, reduceCtorEq, if_true]
      rw [Datum.cut_number hhigh, Rounding.towardZero_intCast]
      omega

end QuantizeType

namespace Quantizer

variable {q : Quantizer}

/-- The scale is a number of six bits, as it is in every half of a quantization register. -/
def ScaleFits (q : Quantizer) : Prop := -32 ≤ q.scale ∧ q.scale ≤ 31

theorem toInteger_within (q : Quantizer) (x : Double) :
    q.type.range.1 ≤ q.toInteger x ∧ q.toInteger x ≤ q.type.range.2 := by
  obtain ⟨-, hlow, hhigh, -⟩ := q.type.range_bounds
  exact Datum.cut_within hlow hhigh _

theorem toInteger_of_product {x y : Double} (h : x.mul? (.twoPow q.scale) = some y) :
    q.toInteger x =
      (y.clamp (.ofInt q.type.range.1) (.ofInt q.type.range.2)).datum.cut q.type.range := by
  rw [toInteger, saturate, h]

/-- A number is stored as the integer that the exact product is cut and clamped to. -/
theorem toInteger_number (hq : q.ScaleFits) {x : Double} {v : Rat} (hx : x.datum.value? = some v) :
    q.toInteger x =
      max q.type.range.1 (min q.type.range.2 (Rounding.towardZero.round (v * 2 ^ q.scale))) := by
  obtain ⟨hlow, hhigh⟩ := hq
  obtain ⟨hleast, hneg, hpos, hgreatest⟩ := q.type.range_bounds
  obtain ⟨y, hmul, hscaled⟩ := Double.exists_scaled hx (k := q.scale) (by omega) (by omega)
  rw [toInteger_of_product hmul]
  cases hscaled with
  | exact hy => exact q.type.cut_clamp hy
  | @overflow s hy hv =>
      have hclamp := q.type.cut_clamp_infinity hy
      cases s with
      | true =>
          have hround := Rounding.towardZero_mono hv
          rw [Rounding.towardZero_intCast] at hround
          rw [if_pos rfl] at hclamp
          omega
      | false =>
          have hround := Rounding.towardZero_mono hv
          rw [Rounding.towardZero_intCast] at hround
          rw [if_neg Bool.false_ne_true] at hclamp
          omega
  | underflow hy hw hv =>
      have hclamp := q.type.cut_clamp hy
      rw [Rounding.towardZero_fraction hw.1 hw.2] at hclamp
      rw [Rounding.towardZero_fraction hv.1 hv.2]
      exact hclamp

theorem toInteger_infinity (hq : q.ScaleFits) {x : Double} {s : Bool} (hx : x.datum = .infinity s) :
    q.toInteger x = if s then q.type.range.1 else q.type.range.2 := by
  obtain ⟨hlow, hhigh⟩ := hq
  obtain ⟨m, e, hpower, hunit⟩ :=
    Double.exists_datum_twoPow (k := q.scale) (by omega) (by omega)
  have hm : m ≠ 0 := by
    intro hzero
    have hpos : (0 : Rat) < 2 ^ q.scale := Rat.zpow_pos (by decide)
    rw [← hunit, hzero] at hpos
    simp at hpos
  have hmul : x.mul? (.twoPow q.scale) = some (.infinity s) := by
    rw [Double.mul?, hx, hpower]
    simp [Datum.mul, hm, Double.ofDatum?]
  rw [toInteger_of_product hmul]
  exact q.type.cut_clamp_infinity (Double.datum_infinity s)

theorem toInteger_nan {x : Double} (hx : x.datum = .nan) : q.toInteger x = q.type.range.1 := by
  obtain ⟨-, hneg, hpos, -⟩ := q.type.range_bounds
  have hmul : x.mul? (.twoPow q.scale) = none := by
    rw [Double.mul?, hx]
    rfl
  rw [toInteger, saturate, hmul]
  show (Double.ofInt q.type.range.1).datum.cut q.type.range = q.type.range.1
  rw [Datum.cut_number q.type.value?_range.1, Rounding.towardZero_intCast]
  omega

/-- An integer type stores a lane as the bytes of its integer, the most significant one first. -/
theorem quantize_eq (hq : q.type ≠ .float) (x : Double) :
    q.quantize x = Bytes.ofWord q.type.size (BitVec.ofInt (8 * q.type.size) (q.toInteger x)) := by
  rw [quantize]
  generalize q.toInteger x = n
  cases htype : q.type with
  | float => exact absurd htype hq
  | _ => rfl

theorem integer_quantize (hq : q.type ≠ .float) (x : Double) :
    q.type.integer (q.quantize x) = q.toInteger x := by
  obtain ⟨hlow, hhigh⟩ := q.toInteger_within x
  rw [quantize_eq hq, QuantizeType.integer_ofInt hlow hhigh]

/-! ## Elements that are loaded -/

/-- The lane of an integer is the exact product. -/
theorem value?_dequantize (hq : q.ScaleFits) (htype : q.type ≠ .float) (bytes : List Byte) :
    (q.dequantize bytes).datum.value? =
      some ((q.type.integer bytes : Rat) * 2 ^ (-q.scale)) := by
  obtain ⟨hlow, hhigh⟩ := hq
  obtain ⟨hleast, -, -, hgreatest⟩ := q.type.range_bounds
  obtain ⟨hmin, hmax⟩ := QuantizeType.integer_within htype bytes
  have hlane : q.dequantize bytes =
      ((Double.ofInt (q.type.integer bytes)).mul? (.twoPow (-q.scale))).getD .defaultNaN := by
    rw [dequantize]
    cases htype' : q.type with
    | float => exact absurd htype' htype
    | _ => rfl
  rw [hlane]
  generalize q.type.integer bytes = n at *
  have habs : n.natAbs < 2 ^ 16 := by omega
  have hlog : n.natAbs.log2 ≤ 16 := by
    by_cases hzero : n.natAbs = 0
    · simp [hzero]
    · exact Nat.le_of_lt ((Nat.log2_lt hzero).2 habs)
  have hfits : Format.double.Fits n.natAbs (0 + -q.scale) := by
    refine ⟨?_, ?_, ?_⟩
    · show n.natAbs < 2 ^ 53
      omega
    · show -1074 ≤ 0 + -q.scale
      omega
    · show (n.natAbs.log2 : Int) + (0 + -q.scale) < 1024
      omega
  have hinteger : (n : Rat) = (n.natAbs : Rat) * 2 ^ (0 : Int) ∨
      (n : Rat) = -((n.natAbs : Rat) * 2 ^ (0 : Int)) := by
    rw [show (2 : Rat) ^ (0 : Int) = 1 from rfl, Rat.mul_one, ← Rat.intCast_natCast,
      ← Rat.intCast_neg, Rat.intCast_inj, Rat.intCast_inj]
    omega
  obtain ⟨y, hmul, hy⟩ := Double.exists_mul?_twoPow (k := -q.scale) (by omega) (by omega)
    (Double.value?_ofInt (by omega)) hinteger hfits
  rw [hmul]
  exact hy

/-- An element that was made a lane is stored as it was. -/
theorem quantize_dequantize (hq : q.ScaleFits) {bytes : List Byte}
    (h : bytes.length = q.type.size) : q.quantize (q.dequantize bytes) = bytes := by
  by_cases htype : q.type = .float
  · rw [htype] at h
    rw [quantize, dequantize, htype]
    show Bytes.ofWord 4 (Single.narrow (Single.widen (Bytes.toWord 4 bytes))) = bytes
    rw [Single.narrow_widen]
    exact Bytes.ofWord_toWord h
  · obtain ⟨hmin, hmax⟩ := QuantizeType.integer_within htype bytes
    have hunit : (2 : Rat) ^ (-q.scale) * 2 ^ q.scale = 1 := by
      rw [← Rat.zpow_add (by decide), Int.add_left_neg]
      rfl
    have hsame : q.toInteger (q.dequantize bytes) = q.type.integer bytes := by
      rw [toInteger_number hq (value?_dequantize hq htype bytes), Rat.mul_assoc, hunit, Rat.mul_one,
        Rounding.towardZero_intCast]
      omega
    rw [quantize_eq htype, hsame, QuantizeType.ofInt_integer, Bytes.ofWord_toWord h]

end Quantizer

end Broadway
