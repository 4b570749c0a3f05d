import Broadway.Word

/-!
# Values and their bytes

What the conversions between a value and its bytes do, byte by byte: the byte at place `i` of a
value of `k` bytes is the one that `k - 1 - i` bytes stand below (`Bytes.getElem_ofWord`), the
conversions are inverse in the other direction too (`Bytes.ofWord_toWord`), and consecutive bytes
of a value are the bytes of a slice of it (`Bytes.drop_take_ofWord`).
-/

namespace Broadway.Bytes

/-- The byte at place `i`, counted from the most significant one. -/
theorem getElem_ofWord (k : Nat) (w : BitVec (8 * k)) (i : Nat) (h : i < (ofWord k w).length) :
    (ofWord k w)[i] = w.extractLsb' (8 * (k - 1 - i)) 8 := by
  induction k generalizing i with
  | zero => simp at h
  | succ k ih =>
      cases i with
      | zero => rfl
      | succ i =>
          have hi : i < k := by simpa using h
          simp only [ofWord, List.getElem_cons_succ]
          rw [ih]
          rw [show k + 1 - 1 - (i + 1) = k - 1 - i by omega]
          -- the byte lies below the top one, where narrowing changes nothing
          apply BitVec.eq_of_getLsbD_eq
          intro j hj
          have hlt : 8 * (k - 1 - i) + j < 8 * k := by omega
          simp only [BitVec.getLsbD_extractLsb', BitVec.getLsbD_setWidth, hlt, decide_true,
            Bool.true_and]

theorem foldl_toNat (bytes : List Byte) (n : Nat) :
    bytes.foldl (fun n b => 256 * n + b.toNat) n = 2 ^ (8 * bytes.length) * n + toNat bytes := by
  induction bytes generalizing n with
  | nil => simp [toNat]
  | cons b rest ih =>
      have hpow : 2 ^ (8 * (rest.length + 1)) = 2 ^ (8 * rest.length) * 256 := by
        rw [Nat.mul_add, Nat.pow_add]
      rw [toNat, List.foldl_cons, List.foldl_cons, ih, ih (256 * 0 + b.toNat), List.length_cons,
        hpow, Nat.mul_add, Nat.mul_assoc, Nat.mul_zero, Nat.zero_add, Nat.add_assoc]

/-- The first byte is the most significant one. -/
theorem toNat_cons (b : Byte) (rest : List Byte) :
    toNat (b :: rest) = 2 ^ (8 * rest.length) * b.toNat + toNat rest := by
  rw [toNat, List.foldl_cons, foldl_toNat, Nat.mul_zero, Nat.zero_add]

theorem toNat_lt (bytes : List Byte) : toNat bytes < 2 ^ (8 * bytes.length) := by
  induction bytes with
  | nil => simp [toNat]
  | cons b rest ih =>
      have hb : b.toNat < 256 := b.isLt
      have hpow : 2 ^ (8 * (rest.length + 1)) = 2 ^ (8 * rest.length) * 256 := by
        rw [Nat.mul_add, Nat.pow_add]
      have hmul : 2 ^ (8 * rest.length) * (b.toNat + 1) ≤ 2 ^ (8 * rest.length) * 256 :=
        Nat.mul_le_mul_left _ hb
      rw [toNat_cons, List.length_cons, hpow]
      rw [Nat.mul_add, Nat.mul_one] at hmul
      omega

theorem toNat_toWord {k : Nat} {bytes : List Byte} (h : bytes.length = k) :
    (toWord k bytes).toNat = toNat bytes := by
  subst h
  rw [toWord, BitVec.toNat_ofNat, Nat.mod_eq_of_lt (toNat_lt bytes)]

/-- A single byte is its own value. -/
theorem toWord_singleton (b : Byte) : toWord 1 [b] = b := by
  apply BitVec.eq_of_toNat_eq
  rw [toNat_toWord List.length_singleton]
  show 256 * 0 + b.toNat = b.toNat
  omega

theorem ofWord_one (b : Byte) : ofWord 1 b = [b] := by
  show [b.extractLsb' 0 8] = [b]
  rw [BitVec.extractLsb'_eq_self]

/-- Bytes that were read as a value are the bytes of that value. -/
theorem ofWord_toWord {k : Nat} {bytes : List Byte} (h : bytes.length = k) :
    ofWord k (toWord k bytes) = bytes := by
  subst h
  induction bytes with
  | nil => rfl
  | cons b rest ih =>
      have hrest : toNat rest < 2 ^ (8 * rest.length) := toNat_lt rest
      have hpos : 0 < 2 ^ (8 * rest.length) := Nat.two_pow_pos _
      have htop : (toWord (rest.length + 1) (b :: rest)).toNat = toNat (b :: rest) :=
        toNat_toWord rfl
      simp only [List.length_cons, ofWord, List.cons.injEq]
      refine ⟨?_, ?_⟩
      · apply BitVec.eq_of_toNat_eq
        rw [BitVec.extractLsb'_toNat, htop, toNat_cons, Nat.shiftRight_eq_div_pow,
          Nat.mul_add_div hpos, Nat.div_eq_of_lt hrest, Nat.add_zero, Nat.mod_eq_of_lt b.isLt]
      · have hlow : (toWord (rest.length + 1) (b :: rest)).setWidth (8 * rest.length)
            = toWord rest.length rest := by
          apply BitVec.eq_of_toNat_eq
          rw [toNat_toWord rfl, BitVec.toNat_setWidth, htop, toNat_cons, Nat.mul_add_mod,
            Nat.mod_eq_of_lt hrest]
        rw [hlow, ih]

/-- Consecutive bytes of a value are the bytes of a slice of the value. -/
theorem drop_take_ofWord {k o j : Nat} (w : BitVec (8 * k)) (h : o + j ≤ k) :
    ((ofWord k w).drop o).take j = ofWord j (w.extractLsb' (8 * (k - o - j)) (8 * j)) := by
  apply List.ext_getElem
  · simp only [List.length_take, List.length_drop, length_ofWord]
    omega
  · intro i hi hj
    have hij : i < j := by simpa using hj
    rw [List.getElem_take, List.getElem_drop, getElem_ofWord, getElem_ofWord]
    apply BitVec.eq_of_getLsbD_eq
    intro b hb
    have hlt : 8 * (j - 1 - i) + b < 8 * j := by omega
    have hplace : 8 * (k - 1 - (o + i)) + b = 8 * (k - o - j) + (8 * (j - 1 - i) + b) := by omega
    simp only [BitVec.getLsbD_extractLsb', hb, hlt, hplace, decide_true, Bool.true_and]

end Broadway.Bytes
