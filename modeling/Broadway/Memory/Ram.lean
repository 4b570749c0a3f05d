import Broadway.Memory.Window

/-!
# Guest memory

A row of bytes that can be detached and attached again. A second backing, `Attachment`, stands for
memory owned by someone else: it reports a size of its own, always says that it is connected, and
its link may be cut or failing.

* A write replaces the bytes of its range and no others (`get!_putBytes`, `Ram.byte_write`).
* A memory that is resized has the size asked for (`Ram.size_resize`).
-/

namespace Broadway

/-- Appends zero bytes one by one. -/
def pushZeros : (count : Nat) → ByteArray → ByteArray
  | 0, bytes => bytes
  | n + 1, bytes => pushZeros n (bytes.push 0)

/-- Appends a block a number of times. -/
def appendBlocks (block : ByteArray) : (count : Nat) → ByteArray → ByteArray
  | 0, bytes => bytes
  | n + 1, bytes => appendBlocks block n (bytes ++ block)

/-- Appends zero bytes, whole blocks of them first. -/
def appendZeros (count : Nat) (bytes : ByteArray) : ByteArray :=
  pushZeros (count % 4096) (appendBlocks (pushZeros 4096 .empty) (count / 4096) bytes)

/-- Replaces the bytes from an offset on. -/
def putBytes : (bytes : ByteArray) → (offset : Nat) → (data : List Byte) → ByteArray
  | bytes, _, [] => bytes
  | bytes, i, x :: rest => putBytes (bytes.set! i (.ofBitVec x)) (i + 1) rest

@[simp]
theorem size_pushZeros (count : Nat) (bytes : ByteArray) :
    (pushZeros count bytes).size = bytes.size + count := by
  induction count generalizing bytes with
  | zero => rfl
  | succ n ih => rw [pushZeros, ih, ByteArray.size_push]; omega

@[simp]
theorem size_appendBlocks (block : ByteArray) (count : Nat) (bytes : ByteArray) :
    (appendBlocks block count bytes).size = bytes.size + block.size * count := by
  induction count generalizing bytes with
  | zero => rfl
  | succ n ih => rw [appendBlocks, ih, ByteArray.size_append, Nat.mul_succ]; omega

@[simp]
theorem size_appendZeros (count : Nat) (bytes : ByteArray) :
    (appendZeros count bytes).size = bytes.size + count := by
  rw [appendZeros, size_pushZeros, size_appendBlocks, size_pushZeros, ByteArray.size_empty]
  omega

theorem get!_pushZeros (count : Nat) (bytes : ByteArray) (i : Nat) :
    (pushZeros count bytes).get! i = bytes.get! i := by
  induction count generalizing bytes with
  | zero => rfl
  | succ n ih =>
      have hdefault : (default : UInt8) = 0 := rfl
      rw [pushZeros, ih]
      cases bytes with
      | mk data =>
        show (data.push 0)[i]! = data[i]!
        grind

/-- A block of zeros adds nothing to the bytes, for there is a zero past the end as well. -/
theorem get!_appendBlocks {block : ByteArray} (hzero : ∀ i, block.get! i = 0) (count : Nat)
    (bytes : ByteArray) (i : Nat) : (appendBlocks block count bytes).get! i = bytes.get! i := by
  induction count generalizing bytes with
  | zero => rfl
  | succ n ih =>
      have hdefault : (default : UInt8) = 0 := rfl
      rw [appendBlocks, ih]
      cases bytes with
      | mk data =>
        cases block with
        | mk zeros =>
          have hpast : zeros[i - data.size]! = 0 := hzero _
          show (ByteArray.mk data ++ ByteArray.mk zeros).data[i]! = data[i]!
          rw [ByteArray.data_append]
          grind

theorem get!_appendZeros (count : Nat) (bytes : ByteArray) (i : Nat) :
    (appendZeros count bytes).get! i = bytes.get! i := by
  have hzero (j : Nat) : (pushZeros 4096 .empty).get! j = 0 := get!_pushZeros 4096 .empty j
  rw [appendZeros, get!_pushZeros, get!_appendBlocks hzero]

theorem get!_set! (bytes : ByteArray) (i j : Nat) (x : UInt8) :
    (bytes.set! i x).get! j = if i = j ∧ i < bytes.size then x else bytes.get! j := by
  cases bytes with
  | mk data =>
    simp only [ByteArray.set!, ByteArray.get!, ByteArray.size, Array.set!_eq_setIfInBounds]
    grind

@[simp]
theorem size_putBytes (bytes : ByteArray) (offset : Nat) (data : List Byte) :
    (putBytes bytes offset data).size = bytes.size := by
  induction data generalizing bytes offset with
  | nil => rfl
  | cons x rest ih => rw [putBytes, ih, ByteArray.size_set!]

/-- A write replaces the bytes of its range, so far as there are any, and no others. -/
theorem get!_putBytes (bytes : ByteArray) (offset : Nat) (data : List Byte) (i : Nat) :
    (putBytes bytes offset data).get! i =
      if offset ≤ i ∧ i < offset + data.length ∧ i < bytes.size then
        .ofBitVec (data.getD (i - offset) 0)
      else bytes.get! i := by
  induction data generalizing bytes offset with
  | nil => rw [putBytes, if_neg (by simp; omega)]
  | cons x rest ih =>
    rw [putBytes, ih, get!_set!]
    grind [ByteArray.size_set!]

structure Ram where
  bytes : ByteArray
  connected : Bool

namespace Ram

def ofBytes (bytes : ByteArray) : Ram := ⟨bytes, true⟩

/-- Memory of a given size, all zero. -/
def zeroed (size : Nat) : Ram := ofBytes (appendZeros size (.emptyWithCapacity size))

def size (r : Ram) : Nat := r.bytes.size

def setConnected (r : Ram) (on : Bool) : Ram := { r with connected := on }

/-- Memory of another size: bytes past the new end are lost, new bytes are zero. -/
def resize (r : Ram) (size : Nat) : Ram :=
  if size ≤ r.size then { r with bytes := r.bytes.extract 0 size }
  else { r with bytes := appendZeros (size - r.size) r.bytes }

@[simp]
theorem size_zeroed (size : Nat) : (zeroed size).size = size := by
  rw [zeroed, ofBytes, Ram.size, size_appendZeros]
  exact Nat.zero_add size

@[simp]
theorem size_resize (r : Ram) (size : Nat) : (r.resize size).size = size := by
  unfold resize
  split
  · next h =>
    simp only [Ram.size, ByteArray.size_extract] at h ⊢
    omega
  · next h =>
    simp only [Ram.size, size_appendZeros] at h ⊢
    omega

/-- The byte at an offset. -/
def byte (r : Ram) (i : Nat) : Byte := (r.bytes.get! i).toBitVec

/-- The bytes from an offset on. -/
def slice (r : Ram) (i length : Nat) : List Byte := (List.range' i length).map r.byte

@[simp]
theorem byte_zeroed (size i : Nat) : (zeroed size).byte i = 0 := by
  have hempty : (ByteArray.emptyWithCapacity size).get! i = 0 := rfl
  rw [byte, zeroed, ofBytes, get!_appendZeros, hempty]
  rfl

/-- Past the end there is a zero at every offset. -/
theorem byte_of_size_le {r : Ram} {i : Nat} (h : r.size ≤ i) : r.byte i = 0 := by
  have hpast : r.bytes.get! i = 0 := getElem!_neg r.bytes.data i (Nat.not_lt.2 h)
  rw [byte, hpast]
  rfl

/-- All bytes. -/
def toList (r : Ram) : List Byte := r.slice 0 r.size

/-- Why the memory itself refuses an access. -/
def refusal (r : Ram) (offset : Word) (length : Nat) : Option MemoryError :=
  if !r.connected then some (.disconnected offset)
  else if r.size < offset.toNat + length then some (.outOfBounds offset length)
  else none

def read (r : Ram) (offset : Word) (length : Nat) : Except MemoryError (List Byte) :=
  match r.refusal offset length with
  | some e => .error e
  | none => .ok (r.slice offset.toNat length)

def write (r : Ram) (offset : Word) (data : List Byte) : Option MemoryError × Ram :=
  match r.refusal offset data.length with
  | some e => (some e, r)
  | none => (none, { r with bytes := putBytes r.bytes offset.toNat data })

@[simp]
theorem size_write (r : Ram) (offset : Word) (data : List Byte) :
    (r.write offset data).2.size = r.size := by
  unfold write
  split <;> simp [Ram.size]

/-- A write that is not refused replaces the bytes of its range and no others. -/
theorem byte_write {r : Ram} {offset : Word} {data : List Byte}
    (h : r.refusal offset data.length = none) (i : Nat) :
    (r.write offset data).2.byte i =
      if offset.toNat ≤ i ∧ i < offset.toNat + data.length then data.getD (i - offset.toNat) 0
      else r.byte i := by
  have hsize : offset.toNat + data.length ≤ r.bytes.size := by
    unfold refusal Ram.size at h
    split at h
    · contradiction
    · split at h
      · contradiction
      · omega
  simp only [write, h, byte, get!_putBytes]
  have hin : (offset.toNat ≤ i ∧ i < offset.toNat + data.length ∧ i < r.bytes.size)
      ↔ (offset.toNat ≤ i ∧ i < offset.toNat + data.length) := by omega
  simp only [hin]
  split <;> rfl

instance : Backing Ram where
  size := size
  connected := connected
  read := read
  write := write

end Ram

/-- What becomes of the accesses to an attachment. -/
inductive Link
  | up
  | cut
  | failing (text : String)

/-- Memory owned by someone else. -/
structure Attachment where
  buffer : Ram
  reportedSize : Nat
  link : Link

namespace Attachment

/-- Why the owner refuses an access, if it does. -/
def refusal (a : Attachment) (offset : Word) : Option MemoryError :=
  match a.link with
  | .up => none
  | .cut => some (.disconnected offset)
  | .failing text => some (.provider offset text)

instance : Backing Attachment where
  size a := a.reportedSize
  connected _ := true
  read a offset length :=
    match a.refusal offset with
    | some e => .error e
    | none => a.buffer.read offset length
  write a offset data :=
    match a.refusal offset with
    | some e => (some e, a)
    | none =>
      let (e, buffer) := a.buffer.write offset data
      (e, { a with buffer := buffer })

end Attachment

end Broadway
