import Broadway.Exec.Condition
import Broadway.Proofs.Encoding.Place

/-!
# The condition register bit by bit

Fields, single bits and rows of fields under a mask are written with different shifts and masks.
Here each of them is told by bits: those of a word are numbered from the most significant one, and
bit `k` of field `n` has the number that `n` and `k` make side by side (`n ++ k`), which is four
times `n` and `k` (`toNat_number`).

* A field reads its four bits (`getMsbD_field`), and a write to it replaces them and no others
  (`getMsbD_setField`), whatever was written to it before (`setField_setField`). The eight fields
  make up the word (`ext_field`).
* A write to a bit replaces this bit (`getMsbD_setBit`).
* A blend takes the fields that its mask names from the new word, and all others from the old one
  (`getMsbD_blend`, `field_blend`).
-/

namespace Broadway.Condition

variable (cr : Word) (n : BitVec 3) (k : BitVec 2)

/-- The bits of a word from both ends. -/
theorem getMsbD_word (x : Word) {i : Nat} (hi : i < 32) : x.getMsbD i = x.getLsbD (31 - i) := by
  rw [BitVec.getMsbD_eq_getLsbD, decide_eq_true hi, Bool.true_and]

theorem toNat_number : (n ++ k).toNat = 4 * n.toNat + k.toNat := by
  rw [toNat_append, Nat.mul_comm]

theorem getMsbD_field : (field cr n).getMsbD k.toNat = cr.getMsbD (n ++ k).toNat := by
  have hn : n.toNat < 8 := n.isLt
  have hk : k.toNat < 4 := k.isLt
  have hword : 4 * n.toNat + k.toNat < 32 := by omega
  have hplace : shift n + (3 - k.toNat) = 31 - (4 * n.toNat + k.toNat) := by
    unfold shift
    omega
  have hinside : 3 - k.toNat < 4 := by omega
  rw [toNat_number, getMsbD_word cr hword, BitVec.getMsbD_eq_getLsbD, decide_eq_true hk,
    Bool.true_and, field, BitVec.getLsbD_extractLsb', decide_eq_true hinside, Bool.true_and,
    hplace]

theorem ext_field {a b : Word} (h : ∀ n, field a n = field b n) : a = b := by
  apply BitVec.eq_of_getMsbD_eq
  intro i hi
  -- the number of a bit is that of its field and its place in it
  have hbit : (BitVec.ofNat 3 (i / 4) ++ BitVec.ofNat 2 (i % 4)).toNat = i := by
    rw [toNat_number, BitVec.toNat_ofNat, BitVec.toNat_ofNat]
    omega
  rw [← hbit, ← getMsbD_field, ← getMsbD_field, h]

theorem getMsbD_setField (f : BitVec 3) (v : BitVec 4) :
    (setField cr f v).getMsbD (n ++ k).toNat =
      if n = f then v.getMsbD k.toNat else cr.getMsbD (n ++ k).toNat := by
  rw [← getMsbD_field, ← getMsbD_field]
  by_cases h : n = f
  · rw [if_pos h, h, field_setField_self]
  · rw [if_neg h, field_setField_of_ne cr v (Ne.symm h)]

theorem setField_setField (f : BitVec 3) (v v' : BitVec 4) :
    setField (setField cr f v) f v' = setField cr f v' := by
  have hcleared : v.setWidth 32 <<< shift f &&& ~~~(0xF#32 <<< shift f) = 0#32 := by
    revert v f
    decide
  rw [setField, setField, setField, BitVec.and_or_distrib_right, hcleared, BitVec.or_zero,
    BitVec.and_assoc, BitVec.and_self]

theorem getMsbD_setBit (b i : BitVec 5) (v : Bool) :
    (setBit cr b v).getMsbD i.toNat = if i = b then v else cr.getMsbD i.toNat := by
  have hi : i.toNat < 32 := i.isLt
  have hb : b.toNat < 32 := b.isLt
  have hbit : (1#32 <<< (31 - b.toNat)).getLsbD (31 - i.toNat) = decide (i = b) := by
    have hsame : 31 - b.toNat = 31 - i.toNat ↔ i = b := by
      rw [← BitVec.toNat_inj]
      omega
    have hplace : 31 - b.toNat < 32 := by omega
    show (BitVec.twoPow 32 (31 - b.toNat)).getLsbD (31 - i.toNat) = _
    rw [BitVec.getLsbD_twoPow, decide_eq_true hplace, Bool.true_and]
    exact decide_eq_decide.2 hsame
  have hplace : 31 - i.toNat < 32 := by omega
  rw [getMsbD_word _ hi, getMsbD_word _ hi, setBit]
  cases v with
  | true =>
      show (cr ||| _).getLsbD (31 - i.toNat) = _
      rw [BitVec.getLsbD_or, hbit]
      by_cases h : i = b <;> simp [h]
  | false =>
      show (cr &&& ~~~_).getLsbD (31 - i.toNat) = _
      rw [BitVec.getLsbD_and, BitVec.getLsbD_not, hbit]
      by_cases h : i = b <;> simp [h, hplace]

/-- All four bits of a field are ones or none of them, as its mask bit says. -/
theorem getLsbD_spread (mask : BitVec 8) {j : Nat} (hj : j < 32) :
    (spread mask).getLsbD j = mask.getLsbD (j / 4) := by
  have hnibble (x : Bool) {i : Nat} (hi : i < 4) :
      ((BitVec.ofBool x).signExtend 4).getLsbD i = x := by
    obtain rfl | rfl | rfl | rfl : i = 0 ∨ i = 1 ∨ i = 2 ∨ i = 3 := by omega
    all_goals cases x <;> rfl
  simp only [spread, BitVec.getLsbD_append]
  repeat' split
  all_goals
    rw [hnibble _ (by omega)]
    congr 1
    omega

theorem getMsbD_blend (mask : BitVec 8) (new : Word) :
    (blend mask cr new).getMsbD (n ++ k).toNat =
      if mask.getMsbD n.toNat then new.getMsbD (n ++ k).toNat
      else cr.getMsbD (n ++ k).toNat := by
  have hn : n.toNat < 8 := n.isLt
  have hk : k.toNat < 4 := k.isLt
  have hword : 4 * n.toNat + k.toNat < 32 := by omega
  have hplace : 31 - (4 * n.toNat + k.toNat) < 32 := by omega
  have hmask : (spread mask).getLsbD (31 - (4 * n.toNat + k.toNat)) = mask.getMsbD n.toNat := by
    have hfield : (31 - (4 * n.toNat + k.toNat)) / 4 = 7 - n.toNat := by omega
    rw [getLsbD_spread mask hplace, hfield, BitVec.getMsbD_eq_getLsbD, decide_eq_true hn,
      Bool.true_and]
  rw [toNat_number, getMsbD_word _ hword, getMsbD_word _ hword, getMsbD_word _ hword, blend,
    BitVec.getLsbD_or, BitVec.getLsbD_and, BitVec.getLsbD_and, BitVec.getLsbD_not, hmask,
    decide_eq_true hplace, Bool.true_and]
  cases mask.getMsbD n.toNat <;> simp

theorem field_blend (mask : BitVec 8) (new : Word) :
    field (blend mask cr new) n =
      if mask.getMsbD n.toNat then field new n else field cr n := by
  apply BitVec.eq_of_getMsbD_eq
  intro i hi
  have hplace : (BitVec.ofNat 2 i).toNat = i := by
    rw [BitVec.toNat_ofNat]
    omega
  rw [← hplace, getMsbD_field, getMsbD_blend]
  split
  · exact (getMsbD_field new n _).symm
  · exact (getMsbD_field cr n _).symm

end Broadway.Condition
