import Broadway.Encoding.Form

/-!
# Fields at their places

A form is laid out by placing its components side by side and is read by extracting them again.
Two families of facts make the codec of every form a matter of rewriting:

* what was placed is read back at its place (`extractLsb'_place`) and is not seen anywhere else
  (`extractLsb'_place_of_disjoint`), so the components of a form do not disturb each other;
* a field that is put back where it was read keeps those bits of its word (`kept`), and neighbours
  join to one longer run of kept bits (`kept_or_kept`), up to the whole word (`kept_whole`).
-/

namespace Broadway

/-- Neighbouring fields as one number. -/
theorem toNat_append {n m : Nat} (x : BitVec n) (y : BitVec m) :
    (x ++ y).toNat = x.toNat * 2 ^ m + y.toNat := by
  rw [BitVec.toNat_append, ← Nat.shiftLeft_add_eq_or_of_lt y.isLt, Nat.shiftLeft_eq]

theorem getLsbD_place {n : Nat} (v : BitVec n) (lo i : Nat) :
    (place v lo).getLsbD i = (decide (i < 32) && decide (lo ≤ i) && v.getLsbD (i - lo)) := by
  rw [place, BitVec.getLsbD_shiftLeft, BitVec.getLsbD_setWidth]
  by_cases hlo : lo ≤ i
  · by_cases hi : i < 32
    · have hsub : i - lo < 32 := by omega
      simp [hlo, hi, hsub, Nat.not_lt.2 hlo]
    · simp [hi]
  · simp [hlo, Nat.lt_of_not_le hlo]

/-! ## Reading what was placed -/

@[simp]
theorem extractLsb'_place {n lo : Nat} (v : BitVec n) (h : lo + n ≤ 32) :
    (place v lo).extractLsb' lo n = v := by
  apply BitVec.eq_of_getLsbD_eq
  intro i hi
  have hin : lo + i < 32 := by omega
  rw [BitVec.getLsbD_extractLsb', getLsbD_place, Nat.add_sub_cancel_left]
  simp [hi, hin]

/-- A bit outside the place of a value is clear. -/
theorem getLsbD_place_of_disjoint {n lo i : Nat} (v : BitVec n) (h : i < lo ∨ lo + n ≤ i) :
    (place v lo).getLsbD i = false := by
  rw [getLsbD_place]
  by_cases hlo : lo ≤ i
  · have hout : n ≤ i - lo := by omega
    simp [BitVec.getLsbD_of_ge v _ hout]
  · simp [hlo]

@[simp]
theorem extractLsb'_place_of_disjoint {m n lo s : Nat} (v : BitVec m)
    (h : s + n ≤ lo ∨ lo + m ≤ s) : (place v lo).extractLsb' s n = 0#n := by
  apply BitVec.eq_of_getLsbD_eq
  intro i hi
  rw [BitVec.getLsbD_extractLsb', getLsbD_place_of_disjoint v (by omega), BitVec.getLsbD_zero,
    Bool.and_false]

@[simp]
theorem extractLsb'_placeBit_of_disjoint {n lo s : Nat} (b : Bool) (h : s + n ≤ lo ∨ lo + 1 ≤ s) :
    (placeBit b lo).extractLsb' s n = 0#n :=
  extractLsb'_place_of_disjoint _ h

@[simp]
theorem getElem_placeBit {lo : Nat} (b : Bool) (h : lo < 32) : (placeBit b lo)[lo] = b := by
  rw [← BitVec.getLsbD_eq_getElem, placeBit, getLsbD_place, Nat.sub_self, BitVec.getLsbD_ofBool]
  simp [h]

@[simp]
theorem getElem_place_of_disjoint {n lo i : Nat} (v : BitVec n) (hi : i < 32)
    (h : i < lo ∨ lo + n ≤ i) : (place v lo)[i] = false := by
  rw [← BitVec.getLsbD_eq_getElem, getLsbD_place_of_disjoint v h]

@[simp]
theorem getElem_placeBit_of_disjoint {lo i : Nat} (b : Bool) (hi : i < 32)
    (h : i < lo ∨ lo + 1 ≤ i) : (placeBit b lo)[i] = false :=
  getElem_place_of_disjoint _ hi h

/-! ## Placing what was read -/

/-- The `n` bits of a word from place `lo` on, where they were; all others are clear. -/
def kept (w : Word) (lo n : Nat) : Word := place (w.extractLsb' lo n) lo

theorem getLsbD_kept (w : Word) (lo n i : Nat) :
    (kept w lo n).getLsbD i = (decide (lo ≤ i) && decide (i < lo + n) && w.getLsbD i) := by
  rw [kept, getLsbD_place, BitVec.getLsbD_extractLsb']
  by_cases hi : i < 32
  · by_cases hlo : lo ≤ i
    · have hsub : (i - lo < n) = (i < lo + n) := propext (by omega)
      rw [Nat.add_sub_cancel' hlo]
      simp [hi, hlo, hsub]
    · simp [hlo]
  · simp [hi, BitVec.getLsbD_of_ge w i (by omega)]

theorem place_extractLsb' (w : Word) (lo n : Nat) : place (w.extractLsb' lo n) lo = kept w lo n :=
  rfl

@[simp]
theorem placeBit_getElem (w : Word) {lo : Nat} (h : lo < 32) :
    placeBit w[lo] lo = kept w lo 1 := by
  apply BitVec.eq_of_getLsbD_eq
  intro i hi
  rw [placeBit, getLsbD_place, getLsbD_kept, BitVec.getLsbD_ofBool]
  by_cases heq : i = lo
  · subst heq
    simp [hi]
  · by_cases hlo : lo ≤ i
    · have hsub : i - lo ≠ 0 := by omega
      have hge : ¬ i < lo + 1 := by omega
      simp [hsub, hge]
    · simp [hlo]

/-- Neighbouring fields are one longer field. -/
@[simp]
theorem kept_or_kept {w : Word} {hi lo m n : Nat} (h : hi = lo + n) :
    kept w hi m ||| kept w lo n = kept w lo (n + m) := by
  subst h
  apply BitVec.eq_of_getLsbD_eq
  intro i _
  rw [BitVec.getLsbD_or, getLsbD_kept, getLsbD_kept, getLsbD_kept]
  cases w.getLsbD i with
  | false => simp
  | true =>
      rw [Bool.eq_iff_iff]
      simp
      omega

@[simp]
theorem kept_whole (w : Word) : kept w 0 32 = w := by
  apply BitVec.eq_of_getLsbD_eq
  intro i hi
  rw [getLsbD_kept]
  simp [hi]

/-- Keeping bits is masking with as many ones. -/
theorem kept_eq_and (w : Word) (lo n : Nat) :
    kept w lo n = w &&& kept (BitVec.allOnes 32) lo n := by
  apply BitVec.eq_of_getLsbD_eq
  intro i hi
  rw [BitVec.getLsbD_and, getLsbD_kept, getLsbD_kept, BitVec.getLsbD_allOnes]
  simp [hi, Bool.and_comm]

end Broadway
