import Broadway.Float.Single
import Broadway.Proofs.Checked.Arithmetic

/-!
# Single precision with checked arithmetic

Widening and narrowing move the fields of a number by shifts and masks. Two of the shifts depend on
the number: a denormal number is shifted up until its leading one is in place, the exponent counting
down with each step, and a number that becomes denormal is shifted down by what its exponent lacks.

* Both conversions go through for every word and every double (`Checked.widen_eq`,
  `Checked.narrow_eq`).
-/

namespace Broadway.Checked

/-! ## Widening -/

/-- Shifts a fraction up until bit 23 is set, at least once, and counts the exponent down. -/
def normalize : (exponent : Nat) → (fraction : BitVec 64) → Checked (Nat × BitVec 64)
  | 0, _ => .error .overflow
  | e + 1, fraction => do
    let fraction ← shl fraction 1
    if fraction &&& 0x800000#64 ≠ 0 then return (e, fraction) else normalize e fraction

/-- Puts three copies of a bit behind the first two bits of a word. -/
def insertThree (x y : BitVec 64) : Checked Double := do
  let first ← shl y 61
  let second ← shl y 60
  let third ← shl y 59
  let high ← shl (x &&& 0xC0000000#64) 32
  let low ← shl (x &&& 0x3FFFFFFF#64) 29
  return high ||| (first ||| second ||| third) ||| low

def widen (w : Word) : Checked Double := do
  let x := w.setWidth 64
  let exponent := (← shr x 23) &&& 0xFF#64
  let fraction := x &&& 0x7FFFFF#64
  if 0 < exponent.toNat ∧ exponent.toNat < 255 then
    let top ← shr exponent 7
    insertThree x (if top = 0 then 1 else 0)
  else if exponent = 0 ∧ fraction ≠ 0 then
    let (e, fraction) ← normalize (1023 - 126) fraction
    let sign ← shl (x &&& 0x80000000#64) 32
    let exponent ← shl (BitVec.ofNat 64 e) 52
    let fraction ← shl (fraction &&& 0x7FFFFF#64) 29
    return sign ||| exponent ||| fraction
  else insertThree x (← shr exponent 7)

/-! ## Narrowing -/

/-- The bits of a double that a single precision word has. -/
def cut (x : Double) : Checked Word := do
  let high ← shr x 32
  let low ← shr x 29
  return (high &&& 0xC0000000#64 ||| low &&& 0x3FFFFFFF#64).setWidth 32

def narrow (x : Double) : Checked Word := do
  let exponent := ((← shr x 52) &&& 0x7FF#64).setWidth 32
  if 896 < exponent.toNat ∨ x &&& ~~~0x8000000000000000#64 = 0 then cut x
  else if 874 ≤ exponent.toNat then
    let fraction ← shr (x &&& 0x000FFFFFFFFFFFFF#64) 21
    let places ← sub 905#32 exponent
    let magnitude ← shr ((0x80000000#64 ||| fraction).setWidth 32) places.toNat
    let sign ← shr x 32
    return magnitude ||| (sign &&& 0x80000000#64).setWidth 32
  else cut x

/-! ## Fields moved by shifts and masks -/

section Fields

variable {w n m : Nat}

theorem shr_and_mask (x : BitVec w) (lo n : Nat) :
    x >>> lo &&& BitVec.ofNat w (2 ^ n - 1) = (x.extractLsb' lo n).setWidth w := by
  apply BitVec.eq_of_getLsbD_eq
  intro i hi
  simp only [BitVec.getLsbD_setWidth, BitVec.getLsbD_and, BitVec.getLsbD_ushiftRight,
    BitVec.getLsbD_ofNat, BitVec.getLsbD_extractLsb', Nat.testBit_two_pow_sub_one, hi, decide_true,
    Bool.true_and, Bool.and_comm]

theorem and_mask (x : BitVec w) (lo n : Nat) :
    x &&& BitVec.ofNat w (2 ^ n - 1) <<< lo = (x.extractLsb' lo n).setWidth w <<< lo := by
  apply BitVec.eq_of_getLsbD_eq
  intro i hi
  simp only [BitVec.getLsbD_and, BitVec.getLsbD_shiftLeft, BitVec.getLsbD_ofNat,
    BitVec.getLsbD_setWidth, BitVec.getLsbD_extractLsb', Nat.testBit_two_pow_sub_one]
  by_cases hlow : i < lo
  · simp [hlow]
  · have hplace : lo + (i - lo) = i := by omega
    rw [hplace]
    grind

/-- Neighbouring fields are one field. -/
theorem or_neighbours (a : BitVec n) (b : BitVec m) (lo : Nat) :
    a.setWidth w <<< (m + lo) ||| b.setWidth w <<< lo = (a ++ b).setWidth w <<< lo := by
  apply BitVec.eq_of_getLsbD_eq
  intro i hi
  simp only [BitVec.getLsbD_or, BitVec.getLsbD_shiftLeft, BitVec.getLsbD_setWidth,
    BitVec.getLsbD_append]
  by_cases hout : i < lo
  · have hout' : i < m + lo := by omega
    simp [hout, hout']
  · have hword : i - lo < w := by omega
    by_cases hlow : i - lo < m
    · have hlow' : i < m + lo := by omega
      simp [hi, hout, hword, hlow, hlow']
    · have hhigh : ¬i < m + lo := by omega
      have hhigh' : i - lo - m < w := by omega
      have hplace : i - (m + lo) = i - lo - m := by omega
      have hb : b.getLsbD (i - lo) = false := BitVec.getLsbD_of_ge b _ (by omega)
      simp [hi, hout, hword, hlow, hhigh, hhigh', hplace, hb]

/-- A field at the top of a word, with zeros behind it. -/
theorem setWidth_shiftLeft (a : BitVec n) : a.setWidth (n + m) <<< m = a ++ BitVec.ofNat m 0 := by
  apply BitVec.eq_of_getLsbD_eq
  intro i hi
  simp only [BitVec.getLsbD_shiftLeft, BitVec.getLsbD_setWidth, BitVec.getLsbD_append,
    BitVec.getLsbD_zero]
  by_cases hlow : i < m
  · simp [hlow]
  · have hplace : i - m < n + m := by omega
    simp [hi, hlow, hplace]

/-- Three neighbouring fields that fill a word down to its low zeros. -/
theorem or_three {k : Nat} (a : BitVec n) (b : BitVec m) (c : BitVec k) (lo : Nat) :
    a.setWidth (n + m + k + lo) <<< (m + (k + lo)) ||| b.setWidth (n + m + k + lo) <<< (k + lo)
      ||| c.setWidth (n + m + k + lo) <<< lo = a ++ b ++ c ++ BitVec.ofNat lo 0 := by
  rw [or_neighbours a b (k + lo), or_neighbours (a ++ b) c lo, setWidth_shiftLeft]

end Fields

/-- The fields of a word are those of the word in a doubleword. -/
theorem extractLsb'_setWidth {lo n : Nat} (h : lo + n ≤ 64) (w : Word) :
    (w.setWidth 64).extractLsb' lo n = w.extractLsb' lo n := by
  apply BitVec.eq_of_getLsbD_eq
  intro i hi
  have hlong : lo + i < 64 := by omega
  simp only [BitVec.getLsbD_extractLsb', BitVec.getLsbD_setWidth, hlong, decide_true,
    Bool.true_and]

/-! ## Widening does not stop -/

/-- Whether bit 23 of a fraction that has no higher one is set. -/
theorem leading_clear_iff {x : BitVec 64} (hx : x.toNat < 2 ^ 24) :
    x &&& 0x800000#64 = 0 ↔ x.toNat < 2 ^ 23 := by
  have hmask : 0x800000#64 = BitVec.twoPow 64 23 := rfl
  have hnonzero : BitVec.twoPow 64 23 ≠ 0 := by decide
  have hbit : x.getLsbD 23 = decide (x.toNat / 2 ^ 23 % 2 = 1) :=
    Nat.testBit_eq_decide_div_mod_eq
  rw [hmask, BitVec.and_twoPow, hbit]
  by_cases hlow : x.toNat < 2 ^ 23
  · have hclear : ¬x.toNat / 2 ^ 23 % 2 = 1 := by omega
    simp [hclear, hlow]
  · have hset : x.toNat / 2 ^ 23 % 2 = 1 := by omega
    simp only [hset, hlow, decide_true, if_true, iff_false]
    exact hnonzero

/-- A fraction is shifted until its leading one is bit 23, and the exponent lasts for that. -/
theorem normalize_eq {fraction : BitVec 64} {d : Nat} (e : Nat)
    (hlow : 2 ^ 23 ≤ fraction.toNat * 2 ^ (d + 1))
    (hhigh : fraction.toNat * 2 ^ (d + 1) < 2 ^ 24) :
    normalize (e + (d + 1)) fraction = .ok (e, fraction <<< (d + 1)) := by
  induction d generalizing fraction with
  | zero =>
      have hshifted : (fraction <<< 1).toNat = fraction.toNat * 2 := by
        rw [BitVec.toNat_shiftLeft, Nat.shiftLeft_eq, Nat.mod_eq_of_lt (by omega)]
      have hset : fraction <<< 1 &&& 0x800000#64 ≠ 0 := by
        rw [Ne, leading_clear_iff (by omega)]
        omega
      rw [normalize, shl_eq (by decide), ok_bind, if_pos hset, pure_eq]
  | succ d ih =>
      have hpow : fraction.toNat * 2 ^ (d + 1 + 1) = fraction.toNat * 2 * 2 ^ (d + 1) := by
        rw [Nat.pow_succ' (n := d + 1), Nat.mul_assoc]
      have htwo : 2 ≤ 2 ^ (d + 1) := Nat.le_self_pow (by omega) 2
      have hle : fraction.toNat * 2 * 2 ≤ fraction.toNat * 2 * 2 ^ (d + 1) :=
        Nat.mul_le_mul_left _ htwo
      have hshifted : (fraction <<< 1).toNat = fraction.toNat * 2 := by
        rw [BitVec.toNat_shiftLeft, Nat.shiftLeft_eq, Nat.mod_eq_of_lt (by omega)]
      have hclear : fraction <<< 1 &&& 0x800000#64 = 0 := by
        rw [leading_clear_iff (by omega)]
        omega
      have hrest := ih (by rw [hshifted]; omega) (by rw [hshifted]; omega)
      rw [← Nat.add_assoc, normalize, shl_eq (by decide), ok_bind, if_neg (not_not_intro hclear),
        hrest, ← BitVec.shiftLeft_add, Nat.add_comm 1]

/-- The bits of a word that three copies of a bit are put between. -/
theorem insertThree_eq (w : Word) (b : Bool) :
    insertThree (w.setWidth 64) ((BitVec.ofBool b).setWidth 64) =
      .ok (w.extractLsb' 30 2 ++ (BitVec.ofBool b).signExtend 3 ++ w.extractLsb' 0 30 ++ 0#29) := by
  have hcopies : (BitVec.ofBool b).setWidth 64 <<< 61 ||| (BitVec.ofBool b).setWidth 64 <<< 60
      ||| (BitVec.ofBool b).setWidth 64 <<< 59
      = ((BitVec.ofBool b).signExtend 3).setWidth 64 <<< 59 := by
    cases b <;> decide
  have hhighMask : 0xC0000000#64 = BitVec.ofNat 64 (2 ^ 2 - 1) <<< 30 := by decide
  have hlowMask : 0x3FFFFFFF#64 = BitVec.ofNat 64 (2 ^ 30 - 1) <<< 0 := by decide
  have hhigh : (w.setWidth 64 &&& 0xC0000000#64) <<< 32
      = (w.extractLsb' 30 2).setWidth 64 <<< 62 := by
    rw [hhighMask, and_mask, extractLsb'_setWidth (by decide), ← BitVec.shiftLeft_add]
  have hlow : w.setWidth 64 &&& 0x3FFFFFFF#64 = (w.extractLsb' 0 30).setWidth 64 := by
    rw [hlowMask, and_mask, extractLsb'_setWidth (by decide), BitVec.shiftLeft_zero]
  simp (disch := decide) only [insertThree, shl_eq, ok_bind, pure_eq, hcopies]
  rw [hhigh, hlow]
  exact congrArg _
    (or_three (w.extractLsb' 30 2) ((BitVec.ofBool b).signExtend 3) (w.extractLsb' 0 30) 29)

/-- The number of places by which a denormal fraction is shifted, less one. -/
theorem denormal_bounds {m : Nat} (hpos : m ≠ 0) (hlt : m < 2 ^ 23) :
    2 ^ 23 ≤ m * 2 ^ (22 - m.log2 + 1) ∧ m * 2 ^ (22 - m.log2 + 1) < 2 ^ 24 := by
  have hlog : m.log2 < 23 := (Nat.log2_lt hpos).2 hlt
  have hlow : 2 ^ m.log2 ≤ m := Nat.log2_self_le hpos
  have hhigh : m < 2 ^ (m.log2 + 1) := (Nat.log2_lt hpos).1 (Nat.lt_succ_self _)
  have hplaces : m.log2 + (22 - m.log2 + 1) = 23 := by omega
  have hplaces' : m.log2 + 1 + (22 - m.log2 + 1) = 24 := by omega
  refine ⟨?_, ?_⟩
  · calc 2 ^ 23
        = 2 ^ m.log2 * 2 ^ (22 - m.log2 + 1) := by rw [← Nat.pow_add, hplaces]
      _ ≤ m * 2 ^ (22 - m.log2 + 1) := Nat.mul_le_mul_right _ hlow
  · calc m * 2 ^ (22 - m.log2 + 1)
        < 2 ^ (m.log2 + 1) * 2 ^ (22 - m.log2 + 1) :=
          Nat.mul_lt_mul_of_pos_right hhigh (Nat.two_pow_pos _)
      _ = 2 ^ 24 := by rw [← Nat.pow_add, hplaces']

/-- The normalised number of a denormal word: the steps that its fraction was shifted by are taken
from the exponent. -/
theorem denormal_eq (w : Word) {e d : Nat} (he : e < 2 ^ 11) :
    (w.setWidth 64 &&& 0x80000000#64) <<< 32 ||| BitVec.ofNat 64 e <<< 52
        ||| ((w.extractLsb' 0 23).setWidth 64 <<< d &&& 0x7FFFFF#64) <<< 29
      = BitVec.ofBool w.msb ++ BitVec.ofNat 11 e ++ w.extractLsb' 0 23 <<< d ++ 0#29 := by
  have hsignMask : 0x80000000#64 = BitVec.ofNat 64 (2 ^ 1 - 1) <<< 31 := by decide
  have hfractionMask : 0x7FFFFF#64 = BitVec.ofNat 64 (2 ^ 23 - 1) <<< 0 := by decide
  have hmsb : w.extractLsb' 31 1 = BitVec.ofBool w.msb := by
    apply BitVec.eq_of_getLsbD_eq
    intro i hi
    obtain rfl : i = 0 := by omega
    simp [BitVec.msb_eq_getLsbD_last]
  have hsign : (w.setWidth 64 &&& 0x80000000#64) <<< 32
      = (BitVec.ofBool w.msb).setWidth 64 <<< 63 := by
    rw [hsignMask, and_mask, extractLsb'_setWidth (by decide), hmsb, ← BitVec.shiftLeft_add]
  have hexponent : BitVec.ofNat 64 e = (BitVec.ofNat 11 e).setWidth 64 := by
    apply BitVec.eq_of_toNat_eq
    rw [BitVec.toNat_setWidth_of_le (by decide), toNat_ofNat_of_lt he, toNat_ofNat_of_lt (by omega)]
  have hfraction : (w.extractLsb' 0 23).setWidth 64 <<< d &&& 0x7FFFFF#64
      = (w.extractLsb' 0 23 <<< d).setWidth 64 := by
    rw [hfractionMask, and_mask, BitVec.shiftLeft_zero]
    apply BitVec.eq_of_getLsbD_eq
    intro i hi
    simp only [BitVec.getLsbD_setWidth, BitVec.getLsbD_extractLsb', BitVec.getLsbD_shiftLeft,
      Nat.zero_add]
    by_cases hfield : i < 23
    · have hplace : i - d < 64 := by omega
      simp [hi, hfield, hplace]
    · simp [hfield]
  rw [hsign, hexponent, hfraction]
  exact or_three (BitVec.ofBool w.msb) (BitVec.ofNat 11 e) (w.extractLsb' 0 23 <<< d) 29

/-- A denormal word is normalised within the exponent that it starts with. -/
theorem widen_denormal (w : Word) (h : w.extractLsb' 0 23 ≠ 0) :
    (do
      let (e, fraction) ← normalize (1023 - 126) ((w.extractLsb' 0 23).setWidth 64)
      let sign ← shl (w.setWidth 64 &&& 0x80000000#64) 32
      let exponent ← shl (BitVec.ofNat 64 e) 52
      let fraction ← shl (fraction &&& 0x7FFFFF#64) 29
      return sign ||| exponent ||| fraction) =
      (.ok (BitVec.ofBool w.msb
        ++ BitVec.ofNat 11 (897 - (23 - (w.extractLsb' 0 23).toNat.log2))
        ++ w.extractLsb' 0 23 <<< (23 - (w.extractLsb' 0 23).toNat.log2) ++ 0#29) :
        Checked Double) := by
  have hpos : (w.extractLsb' 0 23).toNat ≠ 0 := by
    intro hzero
    exact h (BitVec.eq_of_toNat_eq hzero)
  have hlt : (w.extractLsb' 0 23).toNat < 2 ^ 23 := BitVec.isLt _
  have hlog : (w.extractLsb' 0 23).toNat.log2 < 23 := (Nat.log2_lt hpos).2 hlt
  have hwide : ((w.extractLsb' 0 23).setWidth 64).toNat = (w.extractLsb' 0 23).toNat :=
    BitVec.toNat_setWidth_of_le (by decide)
  obtain ⟨hlow, hhigh⟩ := denormal_bounds hpos hlt
  have hsteps : 23 - (w.extractLsb' 0 23).toNat.log2
      = 22 - (w.extractLsb' 0 23).toNat.log2 + 1 := by omega
  have hstart : 1023 - 126 = 897 - (23 - (w.extractLsb' 0 23).toNat.log2)
      + (22 - (w.extractLsb' 0 23).toNat.log2 + 1) := by omega
  rw [hstart, normalize_eq _ (by rwa [hwide]) (by rwa [hwide]), ← hsteps]
  simp (disch := decide) only [ok_bind, shl_eq, pure_eq]
  rw [denormal_eq w (by omega)]

theorem exponent_eq (w : Word) :
    w.setWidth 64 >>> 23 &&& 0xFF#64 = (w.extractLsb' 23 8).setWidth 64 := by
  rw [← extractLsb'_setWidth (by decide) w]
  exact shr_and_mask (w.setWidth 64) 23 8

theorem fraction_eq (w : Word) :
    w.setWidth 64 &&& 0x7FFFFF#64 = (w.extractLsb' 0 23).setWidth 64 := by
  have hmask : 0x7FFFFF#64 = BitVec.ofNat 64 (2 ^ 23 - 1) <<< 0 := by decide
  rw [hmask, and_mask, extractLsb'_setWidth (by decide), BitVec.shiftLeft_zero]

/-- The first bit of an exponent, on its own. -/
theorem exponent_top (w : Word) :
    (w.extractLsb' 23 8).setWidth 64 >>> 7 = (BitVec.ofBool (w.getLsbD 30)).setWidth 64 := by
  apply BitVec.eq_of_getLsbD_eq
  intro i hi
  by_cases hfirst : i = 0
  · subst hfirst
    simp
  · have hout : ¬7 + i < 8 := by omega
    simp [hfirst, hout]

/-- The exponents that no normal number has. -/
theorem special_iff (e : BitVec 8) : e = 0 ∨ e = 255 ↔ ¬(0 < e.toNat ∧ e.toNat < 255) := by
  have hlt : e.toNat < 2 ^ 8 := e.isLt
  have h0 : (0 : BitVec 8).toNat = 0 := rfl
  have h255 : (255 : BitVec 8).toNat = 255 := rfl
  rw [← BitVec.toNat_inj, ← BitVec.toNat_inj]
  omega

/-- A value of fewer bits is zero if it is zero in a doubleword. -/
theorem setWidth_eq_zero_iff {n : Nat} (hn : n ≤ 64) (x : BitVec n) :
    x.setWidth 64 = 0 ↔ x = 0 := by
  rw [← BitVec.toNat_inj, ← BitVec.toNat_inj, BitVec.toNat_setWidth_of_le hn]
  simp

@[simp]
theorem widen_eq (w : Word) : widen w = .ok (Single.widen w) := by
  have hnumber : ((w.extractLsb' 23 8).setWidth 64).toNat = (w.extractLsb' 23 8).toNat :=
    BitVec.toNat_setWidth_of_le (by decide)
  have hflip : (if BitVec.ofBool (w.getLsbD 30) = 0 then (1 : BitVec 64) else 0)
      = (BitVec.ofBool (!w.getLsbD 30)).setWidth 64 := by
    cases w.getLsbD 30 <;> rfl
  simp (disch := decide) only [widen, shr_eq, ok_bind, exponent_eq, fraction_eq, exponent_top,
    hnumber, setWidth_eq_zero_iff, Ne, hflip, insertThree_eq, Single.widen]
  -- the two sides ask their questions in another order
  by_cases hdenormal : w.extractLsb' 23 8 = 0 ∧ ¬w.extractLsb' 0 23 = 0
  · have hsmall : ¬(0 < (w.extractLsb' 23 8).toNat ∧ (w.extractLsb' 23 8).toNat < 255) :=
      (special_iff _).1 (.inl hdenormal.1)
    rw [if_neg hsmall, if_pos hdenormal, if_pos hdenormal]
    exact widen_denormal w hdenormal.2
  · rw [if_neg hdenormal, if_neg hdenormal]
    by_cases hnormal : 0 < (w.extractLsb' 23 8).toNat ∧ (w.extractLsb' 23 8).toNat < 255
    · rw [if_pos hnormal, if_neg fun h => (special_iff _).1 h hnormal]
    · rw [if_neg hnormal, if_pos ((special_iff _).2 hnormal)]

/-! ## Narrowing does not stop -/

/-- The bits that a single precision word has, put together. -/
theorem cut_eq (x : Double) : cut x = .ok (x.extractLsb' 62 2 ++ x.extractLsb' 29 30) := by
  have hhighMask : 0xC0000000#64 = BitVec.ofNat 64 (2 ^ 2 - 1) <<< 30 := by decide
  have hlowMask : 0x3FFFFFFF#64 = BitVec.ofNat 64 (2 ^ 30 - 1) := by decide
  have hhigh : x >>> 32 &&& 0xC0000000#64 = (x.extractLsb' 62 2).setWidth 64 <<< 30 := by
    rw [hhighMask, and_mask]
    congr 2
  have hlow : x >>> 29 &&& 0x3FFFFFFF#64 = (x.extractLsb' 29 30).setWidth 64 := by
    rw [hlowMask, shr_and_mask]
  simp (disch := decide) only [cut, shr_eq, ok_bind, pure_eq, hhigh, hlow]
  have hjoin := or_neighbours (w := 64) (x.extractLsb' 62 2) (x.extractLsb' 29 30) 0
  rw [Nat.add_zero, BitVec.shiftLeft_zero, BitVec.shiftLeft_zero] at hjoin
  rw [hjoin, BitVec.setWidth_setWidth_of_le _ (by decide), BitVec.setWidth_eq]

/-- A number with an exponent is not zero. -/
theorem ne_zero_of_exponent {x : Double} (h : (x.extractLsb' 52 11).toNat ≠ 0) :
    x &&& ~~~0x8000000000000000#64 ≠ 0 := by
  intro hzero
  apply h
  have hmask : (~~~0x8000000000000000#64).extractLsb' 52 11 = BitVec.allOnes 11 := by decide
  have hfield : (x &&& ~~~0x8000000000000000#64).extractLsb' 52 11 = x.extractLsb' 52 11 := by
    rw [BitVec.extractLsb'_and, hmask, BitVec.and_allOnes]
  rw [← hfield, hzero]
  rfl

/-- The significand of a double above the bits that a single precision word has no room for. -/
theorem significand_eq (x : Double) :
    (0x80000000#64 ||| (x &&& 0x000FFFFFFFFFFFFF#64) >>> 21).setWidth 32
      = 1#1 ++ x.extractLsb' 21 31 := by
  have hmask : 0x000FFFFFFFFFFFFF#64 >>> 21 = BitVec.ofNat 64 (2 ^ 31 - 1) := by decide
  have hone : 0x80000000#64 = (1#1).setWidth 64 <<< (31 + 0) := by decide
  have hfraction : (x &&& 0x000FFFFFFFFFFFFF#64) >>> 21
      = (x.extractLsb' 21 31).setWidth 64 <<< 0 := by
    rw [BitVec.ushiftRight_and_distrib, hmask, shr_and_mask, BitVec.shiftLeft_zero]
  rw [hfraction, hone, or_neighbours, BitVec.shiftLeft_zero,
    BitVec.setWidth_setWidth_of_le _ (by decide), BitVec.setWidth_eq]

/-- The sign of a double as the sign of a word. -/
theorem sign_eq (x : Double) :
    (x >>> 32 &&& 0x80000000#64).setWidth 32 = BitVec.ofBool x.msb ++ 0#31 := by
  have hmask : 0x80000000#64 = BitVec.twoPow 64 31 := rfl
  have hlast : x.getLsbD 63 = x.msb := rfl
  rw [hmask, BitVec.and_twoPow, BitVec.getLsbD_ushiftRight, hlast]
  cases x.msb <;> rfl

@[simp]
theorem narrow_eq (x : Double) : narrow x = .ok (Single.narrow x) := by
  have hexponent : (x >>> 52 &&& 0x7FF#64).setWidth 32 = (x.extractLsb' 52 11).setWidth 32 := by
    have hmask : 0x7FF#64 = BitVec.ofNat 64 (2 ^ 11 - 1) := by decide
    rw [hmask, shr_and_mask, BitVec.setWidth_setWidth_of_le _ (by decide)]
  have hnumber : ((x.extractLsb' 52 11).setWidth 32).toNat = (x.extractLsb' 52 11).toNat :=
    BitVec.toNat_setWidth_of_le (by decide)
  simp (disch := decide) only [narrow, shr_eq, ok_bind, pure_eq, hexponent, hnumber, cut_eq,
    significand_eq, sign_eq, Single.narrow]
  by_cases hdenormal : 874 ≤ (x.extractLsb' 52 11).toNat ∧ (x.extractLsb' 52 11).toNat ≤ 896
  · have hzero : x &&& ~~~0x8000000000000000#64 ≠ 0 := ne_zero_of_exponent (by omega)
    have hcut : ¬(896 < (x.extractLsb' 52 11).toNat ∨ x &&& ~~~0x8000000000000000#64 = 0) := by
      rw [not_or]
      exact ⟨by omega, hzero⟩
    have hplaces : sub 905#32 ((x.extractLsb' 52 11).setWidth 32)
        = .ok (BitVec.ofNat 32 (905 - (x.extractLsb' 52 11).toNat)) := by
      rw [← BitVec.ofNat_toNat]
      exact sub_ofNat (by decide) (by omega)
    have hshift : (BitVec.ofNat 32 (905 - (x.extractLsb' 52 11).toNat)).toNat
        = 905 - (x.extractLsb' 52 11).toNat := toNat_ofNat_of_lt (by omega)
    rw [if_neg hcut, if_pos hdenormal.1, if_pos hdenormal, hplaces, ok_bind, hshift,
      shr_eq (by omega), ok_bind]
  · rw [if_neg hdenormal]
    by_cases hcut : 896 < (x.extractLsb' 52 11).toNat ∨ x &&& ~~~0x8000000000000000#64 = 0
    · rw [if_pos hcut]
    · have hsmall : ¬874 ≤ (x.extractLsb' 52 11).toNat := by omega
      rw [if_neg hcut, if_neg hsmall]

end Broadway.Checked
