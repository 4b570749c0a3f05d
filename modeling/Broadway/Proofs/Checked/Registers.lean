import Broadway.Exec.Float
import Broadway.Proofs.Checked.Arithmetic

/-!
# Registers with checked arithmetic

How fields and bits of the condition register, halves of the time base and cells of a bank are
found: each place is worked out from a number, and each has its own bound. The numbers have three,
five and ten bits, and that is just enough for every place to exist.

* Fields, bits and special registers are read and written without a stop (`Checked.readField_eq`,
  `Checked.writeBit_eq`, `Checked.special_eq`, `Checked.setSpecial_eq`).
* So is a row of fields under a mask (`Checked.spread_eq`).
-/

namespace Broadway.Checked

/-! ## Fields and bits of a word -/

/-- How far a field lies above the least significant bit. -/
def fieldShift (n : BitVec 3) : Checked Word := do
  let below ← mul (BitVec.ofNat 32 n.toNat) 4#32
  sub 28#32 below

/-- The same for the status register, where the fields are counted from the other end. -/
def statusShift (n : BitVec 3) : Checked Word := do
  let fields ← sub 7#32 (BitVec.ofNat 32 n.toNat)
  mul 4#32 fields

def readField (w : Word) (n : BitVec 3) : Checked (BitVec 4) := do
  let s ← fieldShift n
  let x ← shr w s.toNat
  return x.setWidth 4

def writeField (w : Word) (n : BitVec 3) (v : BitVec 4) : Checked Word := do
  let s ← fieldShift n
  let mask ← shl 0xF#32 s.toNat
  let value ← shl (v.setWidth 32) s.toNat
  return (w &&& ~~~mask) ||| value

def readBit (w : Word) (b : BitVec 5) : Checked Bool := do
  let s ← sub 31#32 (BitVec.ofNat 32 b.toNat)
  flag w s.toNat

def writeBit (w : Word) (b : BitVec 5) (v : Bool) : Checked Word := do
  let s ← sub 31#32 (BitVec.ofNat 32 b.toNat)
  let mask ← shl 1#32 s.toNat
  return if v then w ||| mask else w &&& ~~~mask

/-- The fields of a mask, each at the place that `place` gives it. -/
def spread (place : BitVec 3 → Checked Word) (mask : Byte) : Checked Word :=
  (List.range 8).foldlM
    (fun fields i => do
      let bit ← shr 0x80#8 i
      if mask &&& bit = 0 then return fields
      let s ← place (BitVec.ofNat 3 i)
      let field ← shl 0xF#32 s.toNat
      return fields ||| field)
    0

theorem fieldShift_eq (n : BitVec 3) :
    fieldShift n = .ok (BitVec.ofNat 32 (Condition.shift n)) := by
  have hn : n.toNat < 8 := n.isLt
  simp (disch := omega) only [fieldShift, mul_ofNat, sub_ofNat, ok_bind, Condition.shift,
    Nat.mul_comm]

theorem statusShift_eq (n : BitVec 3) :
    statusShift n = .ok (BitVec.ofNat 32 (Condition.shift n)) := by
  have hn : n.toNat < 8 := n.isLt
  have hshift : 4 * (7 - n.toNat) = Condition.shift n := by
    unfold Condition.shift; omega
  simp (disch := omega) only [statusShift, mul_ofNat, sub_ofNat, ok_bind, hshift]

theorem toNat_shift (n : BitVec 3) :
    (BitVec.ofNat 32 (Condition.shift n)).toNat = Condition.shift n := by
  refine toNat_ofNat_of_lt ?_
  unfold Condition.shift; omega

theorem shift_lt (n : BitVec 3) : Condition.shift n < 32 := by
  unfold Condition.shift; omega

@[simp]
theorem readField_eq (w : Word) (n : BitVec 3) : readField w n = .ok (Condition.field w n) := by
  rw [readField, fieldShift_eq, ok_bind, toNat_shift, shr_eq (shift_lt n), ok_bind, pure_eq]
  rfl

@[simp]
theorem writeField_eq (w : Word) (n : BitVec 3) (v : BitVec 4) :
    writeField w n v = .ok (Condition.setField w n v) := by
  rw [writeField, fieldShift_eq, ok_bind, toNat_shift, shl_eq (shift_lt n), ok_bind,
    shl_eq (shift_lt n), ok_bind, pure_eq, Condition.setField]

theorem bitShift_eq (b : BitVec 5) :
    sub 31#32 (BitVec.ofNat 32 b.toNat) = .ok (BitVec.ofNat 32 (31 - b.toNat)) :=
  sub_ofNat (by decide) (by omega)

theorem toNat_bitShift (b : BitVec 5) : (BitVec.ofNat 32 (31 - b.toNat)).toNat = 31 - b.toNat :=
  toNat_ofNat_of_lt (by omega)

@[simp]
theorem readBit_eq (w : Word) (b : BitVec 5) : readBit w b = .ok (Condition.bit w b) := by
  rw [readBit, bitShift_eq, ok_bind, toNat_bitShift, flag_eq (by omega), Condition.bit]

@[simp]
theorem writeBit_eq (w : Word) (b : BitVec 5) (v : Bool) :
    writeBit w b v = .ok (Condition.setBit w b v) := by
  rw [writeBit, bitShift_eq, ok_bind, toNat_bitShift, shl_eq (by omega), ok_bind, pure_eq,
    Condition.setBit]

/-- Fields are spread alike whichever end they are counted from. -/
theorem spread_eq {place : BitVec 3 → Checked Word}
    (h : ∀ n, place n = .ok (BitVec.ofNat 32 (Condition.shift n))) (mask : Byte) :
    spread place mask = .ok (Condition.spread mask) := by
  let step (fields : Word) (i : Nat) : Word :=
    if mask &&& 0x80#8 >>> i = 0 then fields
    else fields ||| 0xF#32 <<< Condition.shift (BitVec.ofNat 3 i)
  have hfold : spread place mask = .ok ((List.range 8).foldl step 0) := by
    refine foldlM_ok (fun fields i hi => ?_) 0
    have hbyte : i < 8 := List.mem_range.1 hi
    rw [shr_eq hbyte, ok_bind]
    show (if _ then _ else _) = Except.ok (if _ then _ else _)
    split
    · rfl
    · rw [h, ok_bind, toNat_shift, shl_eq (shift_lt _), ok_bind, pure_eq]
  -- once nothing can stop, the fields depend on the mask alone, and there are 256 masks
  have hall : ∀ mask : Byte, (List.range 8).foldl
      (fun (fields : Word) i =>
        if mask &&& 0x80#8 >>> i = 0 then fields
        else fields ||| 0xF#32 <<< Condition.shift (BitVec.ofNat 3 i)) 0
      = Condition.spread mask := by
    decide +kernel
  rw [hfold]
  exact congrArg _ (hall mask)

/-! ## The condition register -/

def setCrField (r : Registers) (n : BitVec 3) (v : BitVec 4) : Checked Registers := do
  return { r with cr := ← writeField r.cr n v }

def setCrBit (r : Registers) (b : BitVec 5) (v : Bool) : Checked Registers := do
  return { r with cr := ← writeBit r.cr b v }

/-- Records an order in a field. -/
def recordOrder (r : Registers) (n : BitVec 3) (o : Option Ordering) : Checked Registers :=
  setCrField r n (Condition.ofOrder o ||| if r.summaryOverflow then Condition.so else 0)

def compareSigned (r : Registers) (n : BitVec 3) (a b : Word) : Checked Registers :=
  recordOrder r n (some (compare a.toInt b.toInt))

def compareUnsigned (r : Registers) (n : BitVec 3) (a b : Word) : Checked Registers :=
  recordOrder r n (some (compare a.toNat b.toNat))

/-- Records the sign of a result, if asked to. -/
def recordResultIf (r : Registers) (rc : Bool) (result : Word) : Checked Registers :=
  if rc then compareSigned r 0 result 0 else .ok r

/-- Records the exception summaries, if asked to. -/
def recordStatusIf (r : Registers) (rc : Bool) : Checked Registers := do
  if rc then
    let x ← shr r.fpscr 28
    setCrField r 1 (x.setWidth 4)
  else return r

/-! ## Special registers -/

/-- The quantization register of a special register number. -/
def quantizationNumber (n : Nat) : Checked (BitVec 3) := do
  let i ← sub (BitVec.ofNat 16 n) (BitVec.ofNat 16 Spr.gqr0)
  index 3 i.toNat

/-- The special registers that have a component of their own and are read and written whole. -/
def components : List Nat :=
  [Spr.xer, Spr.lr, Spr.ctr, Spr.dsisr, Spr.dar, Spr.srr0, Spr.srr1, Spr.tblRead, Spr.tblWrite]

def special (r : Registers) (n : Nat) : Checked Word := do
  if n ∈ components then return r.special n
  else if n = Spr.tbuRead ∨ n = Spr.tbuWrite then
    let high ← shr r.tb 32
    return high.setWidth 32
  else if Spr.gqr0 ≤ n ∧ n ≤ Spr.gqr7 then return r.gqr.read (← quantizationNumber n)
  else return r.spr.read (← index 10 (n % Spr.count))

def setSpecial (r : Registers) (n : Nat) (v : Word) : Checked Registers := do
  if n ∈ components then return r.setSpecial n v
  else if n = Spr.tbuRead ∨ n = Spr.tbuWrite then
    let high ← shl (v.setWidth 64) 32
    return { r with tb := (r.tb &&& 0xFFFFFFFF#64) ||| high }
  else if Spr.gqr0 ≤ n ∧ n ≤ Spr.gqr7 then
    return { r with gqr := r.gqr.write (← quantizationNumber n) v }
  else return { r with spr := r.spr.write (← index 10 (n % Spr.count)) v }

/-! ## No register stops -/

@[simp]
theorem setCrField_eq (r : Registers) (n : BitVec 3) (v : BitVec 4) :
    setCrField r n v = .ok (r.setCrField n v) := by
  rw [setCrField, writeField_eq, ok_bind, pure_eq, Registers.setCrField]

@[simp]
theorem setCrBit_eq (r : Registers) (b : BitVec 5) (v : Bool) :
    setCrBit r b v = .ok (r.setCrBit b v) := by
  rw [setCrBit, writeBit_eq, ok_bind, pure_eq, Registers.setCrBit]

@[simp]
theorem recordResultIf_eq (r : Registers) (rc : Bool) (result : Word) :
    recordResultIf r rc result = .ok (if rc then r.recordResult result else r) := by
  cases rc with
  | false => rfl
  | true => exact setCrField_eq _ _ _

@[simp]
theorem recordStatusIf_eq (r : Registers) (rc : Bool) :
    recordStatusIf r rc = .ok (r.recordStatusIf rc) := by
  cases rc with
  | false => rfl
  | true =>
      show (shr r.fpscr 28 >>= fun x => setCrField r 1 (x.setWidth 4)) = _
      rw [shr_eq (by decide), ok_bind, setCrField_eq]
      rfl

theorem quantizationNumber_eq {n : Nat} (hlow : Spr.gqr0 ≤ n) (hhigh : n ≤ Spr.gqr7) :
    quantizationNumber n = .ok (BitVec.ofNat 3 (n - Spr.gqr0)) := by
  have hlow' : 912 ≤ n := hlow
  have hhigh' : n ≤ 919 := hhigh
  have hnumber : (BitVec.ofNat 16 (n - Spr.gqr0)).toNat = n - Spr.gqr0 :=
    toNat_ofNat_of_lt (by omega)
  rw [quantizationNumber, sub_ofNat (by omega) hlow, ok_bind, hnumber]
  exact index_eq (by unfold Spr.gqr0; omega)

theorem index_mod (n : Nat) : index 10 (n % Spr.count) = .ok (BitVec.ofNat 10 n) := by
  have hlt : n % Spr.count < 1024 := Nat.mod_lt _ (by decide)
  rw [index_eq hlt]
  congr 1
  apply BitVec.eq_of_toNat_eq
  simp [Spr.count]

/-- A special register without a component of its own is found in its bank. -/
theorem special_of_not_component {n : Nat} (h : n ∉ components) (r : Registers) :
    r.special n =
      if n = Spr.tbuRead ∨ n = Spr.tbuWrite then r.tb.extractLsb' 32 32
      else if Spr.gqr0 ≤ n ∧ n ≤ Spr.gqr7 then r.gqr.read (BitVec.ofNat 3 (n - Spr.gqr0))
      else r.spr.read (BitVec.ofNat 10 n) := by
  simp only [components, List.mem_cons, List.not_mem_nil, or_false, not_or] at h
  obtain ⟨hxer, hlr, hctr, hdsisr, hdar, hsrr0, hsrr1, htblRead, htblWrite⟩ := h
  simp only [Registers.special, hxer, hlr, hctr, hdsisr, hdar, hsrr0, hsrr1, htblRead, htblWrite,
    or_self, if_false]

theorem setSpecial_of_not_component {n : Nat} (h : n ∉ components) (r : Registers) (v : Word) :
    r.setSpecial n v =
      if n = Spr.tbuRead ∨ n = Spr.tbuWrite then { r with tb := v ++ r.tb.extractLsb' 0 32 }
      else if Spr.gqr0 ≤ n ∧ n ≤ Spr.gqr7 then
        { r with gqr := r.gqr.write (BitVec.ofNat 3 (n - Spr.gqr0)) v }
      else { r with spr := r.spr.write (BitVec.ofNat 10 n) v } := by
  simp only [components, List.mem_cons, List.not_mem_nil, or_false, not_or] at h
  obtain ⟨hxer, hlr, hctr, hdsisr, hdar, hsrr0, hsrr1, htblRead, htblWrite⟩ := h
  simp only [Registers.setSpecial, hxer, hlr, hctr, hdsisr, hdar, hsrr0, hsrr1, htblRead,
    htblWrite, or_self, if_false]

@[simp]
theorem special_eq (r : Registers) (n : Nat) : special r n = .ok (r.special n) := by
  unfold special
  split
  · rfl
  · next hn =>
    rw [special_of_not_component hn]
    split
    · rw [shr_eq (by decide), ok_bind, pure_eq]
      rfl
    · split
      · next hgqr => rw [quantizationNumber_eq hgqr.1 hgqr.2, ok_bind, pure_eq]
      · rw [index_mod, ok_bind, pure_eq]

@[simp]
theorem setSpecial_eq (r : Registers) (n : Nat) (v : Word) :
    setSpecial r n v = .ok (r.setSpecial n v) := by
  have htb : (r.tb &&& 0xFFFFFFFF#64) ||| v.setWidth 64 <<< 32 = v ++ r.tb.extractLsb' 0 32 := by
    apply BitVec.eq_of_getLsbD_eq
    intro i hi
    rw [BitVec.getLsbD_or, BitVec.getLsbD_and, BitVec.getLsbD_ofNat, BitVec.getLsbD_shiftLeft,
      BitVec.getLsbD_append, Nat.testBit_two_pow_sub_one 32 i]
    by_cases hlow : i < 32
    · simp [hi, hlow]
    · have hhigh : i - 32 < 64 := by omega
      simp [hi, hlow, hhigh]
  unfold setSpecial
  split
  · rfl
  · next hn =>
    rw [setSpecial_of_not_component hn]
    split
    · rw [shl_eq (by decide), ok_bind, pure_eq, htb]
    · split
      · next hgqr => rw [quantizationNumber_eq hgqr.1 hgqr.2, ok_bind, pure_eq]
      · rw [index_mod, ok_bind, pure_eq]

end Broadway.Checked
