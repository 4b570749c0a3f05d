import Broadway.Proofs.Float.SingleRound

/-!
# The class of a number in a format

The class of a number depends on the format that it is read in, as the smallest normal numbers of
two formats differ. `Datum.classIn` says what the class is by what a double stands for.

The class on record goes by the bits of a double, so it is the class in double precision
(`Fpscr.classify_eq`). Of what single precision delivers it is the class in single precision as
well, but for the denormal numbers of that format, which are normal doubles
(`Fpscr.classify_of_rounded`).
-/

namespace Broadway

open Fpscr (classify)

namespace Fpscr.Class

def infinity (negative : Bool) : BitVec 5 :=
  if negative then negativeInfinity else positiveInfinity

def zero (negative : Bool) : BitVec 5 := if negative then negativeZero else positiveZero

def denormal (negative : Bool) : BitVec 5 :=
  if negative then negativeDenormal else positiveDenormal

def normal (negative : Bool) : BitVec 5 := if negative then negativeNormal else positiveNormal

end Fpscr.Class

/-- The smallest normal number of a format. -/
def Format.leastNormal (f : Format) : Rat := 2 ^ (f.minExponent + f.fractionBits)

namespace Datum

/-- Whether a datum is a number other than zero that is smaller than the normal numbers of a
format. -/
def Denormal (f : Format) : Datum → Prop
  | .finite _ m e => (m : Rat) * 2 ^ e ≠ 0 ∧ (m : Rat) * 2 ^ e < f.leastNormal
  | .infinity _ | .nan => False

instance (f : Format) : (d : Datum) → Decidable (d.Denormal f)
  | .finite .. => inferInstanceAs (Decidable (_ ∧ _))
  | .infinity _ | .nan => inferInstanceAs (Decidable False)

/-- The class of a datum among the numbers of a format. -/
def classIn (f : Format) : Datum → BitVec 5
  | .nan => Fpscr.Class.quietNaN
  | .infinity negative => Fpscr.Class.infinity negative
  | .finite negative m e =>
    if (m : Rat) * 2 ^ e = 0 then Fpscr.Class.zero negative
    else if (m : Rat) * 2 ^ e < f.leastNormal then Fpscr.Class.denormal negative
    else Fpscr.Class.normal negative

end Datum

namespace Format

variable {f : Format} {a b : Nat}

theorem number_lt_iff : f.number a < f.number b ↔ a < b := by
  constructor
  · intro h
    rcases Nat.lt_trichotomy a b with hlt | heq | hgt
    · exact hlt
    · exact absurd (heq ▸ h) Rat.lt_irrefl
    · exact absurd (Rat.le_of_lt h) (Rat.not_le.2 (number_strictMono f hgt))
  · exact number_strictMono f

theorem number_eq_zero_iff : f.number a = 0 ↔ a = 0 := by
  constructor
  · intro h
    have hnone : ¬ 0 < a := by
      rw [← f.number_lt_iff, number_zero, h]
      exact Rat.lt_irrefl
    omega
  · rintro rfl
    exact f.number_zero

end Format

namespace Fpscr

/-- The class that goes by the bits is the class in double precision. -/
theorem classify_eq (x : Double) : classify x = x.datum.classIn .double := by
  have hleast : Format.double.number (2 ^ 52) = Format.double.leastNormal := by decide +kernel
  rw [classify, Double.datum]
  split
  · rfl
  · split
    · rfl
    · show _ = if Format.double.number x.magnitude = 0 then Class.zero x.negative
        else if Format.double.number x.magnitude < Format.double.leastNormal then
          Class.denormal x.negative
        else Class.normal x.negative
      rw [← hleast]
      simp only [Format.number_eq_zero_iff, Format.number_lt_iff, Double.isZero, decide_eq_true_eq]
      rfl

/-- The denormal numbers of single precision are normal doubles. Any other number that single
precision delivers has one class in both formats. -/
theorem classify_of_rounded {x : Double} (h : Single.Rounded x) : classify x =
    if x.datum.Denormal .single then Class.normal x.negative else x.datum.classIn .single := by
  rw [classify_eq]
  cases hdatum : x.datum with
  | nan | infinity => rfl
  | finite s m e =>
      by_cases hzero : (m : Rat) * 2 ^ e = 0
      · rw [if_neg (fun hdenormal => hdenormal.1 hzero), Datum.classIn, Datum.classIn, if_pos hzero,
          if_pos hzero]
      · have hrange : Format.double.leastNormal ≤ 2 ^ (-149 : Int) := by decide +kernel
        have hnormal : ¬ (m : Rat) * 2 ^ e < Format.double.leastNormal :=
          Rat.not_lt.2 (Rat.le_trans hrange (h.least hdatum hzero))
        rw [Datum.classIn, Datum.classIn, if_neg hzero, if_neg hzero, if_neg hnormal,
          ← Double.negative_of_finite hdatum]
        by_cases hsmall : (m : Rat) * 2 ^ e < Format.single.leastNormal
        · rw [if_pos ⟨hzero, hsmall⟩]
        · rw [if_neg (fun hdenormal => hsmall hdenormal.2), if_neg hsmall]

end Fpscr

end Broadway
