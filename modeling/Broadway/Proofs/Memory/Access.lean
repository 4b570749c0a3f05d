import Broadway.Memory.Ram

/-!
# Accesses to guest memory

An access succeeds exactly when its bytes lie inside memory that is connected (`Ram.Holds`). One
equation says what each access does, reads (`readBytes_eq`) and writes (`writeBytes_eq`); all that
is proved about guest memory later starts from these two and from what a single byte is after a
write (`Ram.byte_put`).
-/

namespace Broadway

namespace Window

/-- The offset is the address without its most significant bit. -/
theorem toNat_physical (a : Word) : (physical a).toNat = a.toNat % 2 ^ 31 := by
  rw [physical, BitVec.toNat_and]
  exact Nat.and_two_pow_sub_one_eq_mod a.toNat 31

/-- An address and its mirror stand for the same offset. -/
theorem physical_mirror (a : Word) : physical (a ^^^ 0x80000000#32) = physical a := by
  have hmask : (0x80000000#32 &&& physicalMask).toNat = 0 := rfl
  rw [BitVec.toNat_and] at hmask
  apply BitVec.eq_of_toNat_eq
  rw [physical, physical, BitVec.toNat_and, BitVec.toNat_and, BitVec.toNat_xor,
    Nat.and_xor_distrib_right, hmask, Nat.xor_zero]

end Window

namespace Ram

/-- The access of `n` bytes at an effective address lies inside memory that is connected. -/
def Holds (r : Ram) (a : Word) (n : Nat) : Prop :=
  r.connected = true ∧ a.toNat % 2 ^ 31 + n ≤ r.size

instance (r : Ram) (a : Word) (n : Nat) : Decidable (r.Holds a n) :=
  inferInstanceAs (Decidable (_ ∧ _))

/-- The error of an access that memory does not hold. -/
def outside (r : Ram) (a : Word) (n : Nat) : MemoryError :=
  if r.connected then .outOfBounds a n else .disconnected a

@[simp]
theorem address_outside (r : Ram) (a : Word) (n : Nat) : (r.outside a n).address = a := by
  unfold outside
  split <;> rfl

/-- Memory with the bytes from an offset on replaced. -/
def put (r : Ram) (offset : Nat) (data : List Byte) : Ram :=
  { r with bytes := putBytes r.bytes offset data }

@[simp]
theorem size_put (r : Ram) (offset : Nat) (data : List Byte) : (r.put offset data).size = r.size :=
  size_putBytes r.bytes offset data

@[simp]
theorem connected_put (r : Ram) (offset : Nat) (data : List Byte) :
    (r.put offset data).connected = r.connected := rfl

theorem byte_put {r : Ram} {offset : Nat} {data : List Byte}
    (h : offset + data.length ≤ r.size) (i : Nat) :
    (r.put offset data).byte i =
      if offset ≤ i ∧ i < offset + data.length then data.getD (i - offset) 0 else r.byte i := by
  have hin : (offset ≤ i ∧ i < offset + data.length ∧ i < r.bytes.size)
      ↔ (offset ≤ i ∧ i < offset + data.length) := by
    unfold size at h
    omega
  simp only [put, byte, get!_putBytes, hin]
  split <;> rfl

/-- A byte outside the range keeps its value, whether or not the range fits. -/
theorem byte_put_of_outside (r : Ram) {offset : Nat} {data : List Byte} {i : Nat}
    (h : i < offset ∨ offset + data.length ≤ i) : (r.put offset data).byte i = r.byte i := by
  simp only [put, byte, get!_putBytes]
  rw [if_neg (by omega)]

@[simp]
theorem length_slice (r : Ram) (i n : Nat) : (r.slice i n).length = n := by
  simp [slice]

@[simp]
theorem getElem_slice (r : Ram) (i n j : Nat) (h : j < (r.slice i n).length) :
    (r.slice i n)[j] = r.byte (i + j) := by
  simp [slice]

/-- What was written is read back, as a whole and in parts. -/
theorem slice_put {r : Ram} {offset : Nat} {data : List Byte} {o j : Nat}
    (h : offset + data.length ≤ r.size) (hpart : o + j ≤ data.length) :
    (r.put offset data).slice (offset + o) j = (data.drop o).take j := by
  apply List.ext_getElem
  · simp only [length_slice, List.length_take, List.length_drop]
    omega
  · intro i hi _
    have hij : i < j := by simpa using hi
    rw [getElem_slice, byte_put h, if_pos (by omega), List.getElem_take, List.getElem_drop,
      show offset + o + i - offset = o + i by omega, ← List.getElem_eq_getD]

end Ram

namespace Window

theorem refusal_eq (r : Ram) (a : Word) (n : Nat) :
    refusal r a n = if r.Holds a n then none else some (r.outside a n) := by
  have hsize : Backing.size r = r.size := rfl
  have hcon : Backing.connected r = r.connected := rfl
  unfold refusal contains
  rw [hsize, hcon, toNat_physical]
  by_cases h : r.Holds a n
  · rw [if_pos h]
    simp [h.1, h.2]
  · rw [if_neg h]
    -- the connection is looked at before the size
    cases hc : r.connected with
    | false => simp [Ram.outside, hc]
    | true =>
        have hfit : ¬ a.toNat % 2 ^ 31 + n ≤ r.size := fun hfit => h ⟨hc, hfit⟩
        simp [Ram.outside, hc, hfit]

/-- Memory itself does not refuse what the window lets through. -/
theorem refusal_physical {r : Ram} {a : Word} {n : Nat} (h : r.Holds a n) :
    r.refusal (physical a) n = none := by
  obtain ⟨hcon, hfit⟩ := h
  have hge : ¬ r.size < a.toNat % 2 ^ 31 + n := by omega
  simp [Ram.refusal, toNat_physical, hcon, hge]

/-- Reads succeed exactly inside connected memory. -/
theorem readBytes_eq (r : Ram) (a : Word) (n : Nat) :
    readBytes r a n =
      if r.Holds a n then .ok (r.slice (a.toNat % 2 ^ 31) n) else .error (r.outside a n) := by
  have hread : Backing.read r = Ram.read r := rfl
  unfold readBytes
  rw [refusal_eq]
  by_cases h : r.Holds a n
  · rw [if_pos h, if_pos h]
    simp only [hread, Ram.read, refusal_physical h, toNat_physical]
  · rw [if_neg h, if_neg h]

/-- Writes succeed exactly inside connected memory, and otherwise leave it alone. -/
theorem writeBytes_eq (r : Ram) (a : Word) (data : List Byte) :
    writeBytes r a data =
      if r.Holds a data.length then (none, r.put (a.toNat % 2 ^ 31) data)
      else (some (r.outside a data.length), r) := by
  have hwrite : Backing.write r = Ram.write r := rfl
  unfold writeBytes
  rw [refusal_eq]
  by_cases h : r.Holds a data.length
  · rw [if_pos h, if_pos h]
    simp only [hwrite, Ram.write, refusal_physical h, toNat_physical, Option.map_none, Ram.put]
  · rw [if_neg h, if_neg h]

theorem read_eq (r : Ram) (k : Nat) (a : Word) :
    read r k a =
      if r.Holds a k then .ok (Bytes.toWord k (r.slice (a.toNat % 2 ^ 31) k))
      else .error (r.outside a k) := by
  rw [read, readBytes_eq]
  split <;> rfl

theorem write_eq (r : Ram) (k : Nat) (a : Word) (v : BitVec (8 * k)) :
    write r k a v =
      if r.Holds a k then (none, r.put (a.toNat % 2 ^ 31) (Bytes.ofWord k v))
      else (some (r.outside a k), r) := by
  rw [write, writeBytes_eq, Bytes.length_ofWord]

end Window

end Broadway
