import Broadway.Failure

/-!
# The window onto guest memory

Guest memory is reached through a window that checks every access before it passes it on. What lies
behind the window is a `Backing`, addressed by offsets from its start, which may misreport its size
and may fail for reasons of its own. Effective addresses fold onto offsets by dropping their most
significant bit. Errors name the effective address of the access, whoever reported them.

* Every error of a read or a write is at the address that was asked for
  (`address_of_readBytes_error`, `address_of_writeBytes_error`).
-/

namespace Broadway

/-- Memory that can be put behind the window. A write that fails may still have changed it. -/
class Backing (β : Type) where
  size : β → Nat
  connected : β → Bool
  read : β → (offset : Word) → (length : Nat) → Except MemoryError (List Byte)
  write : β → (offset : Word) → (data : List Byte) → Option MemoryError × β

namespace Window

/-- Where guest memory lies, cached. -/
def base : Word := 0x80000000#32

/-- Where guest memory lies, uncached. -/
def uncachedBase : Word := 0xC0000000#32

/-- The size of guest memory on a retail machine. -/
def defaultSize : Word := 0x01800000#32

/-- The address bits that make an offset. -/
def physicalMask : Word := 0x7FFFFFFF#32

/-- The bytes of a cache block. -/
def cacheLineSize : Nat := 32

/-- The offset that an effective address stands for. -/
def physical (address : Word) : Word := address &&& physicalMask

variable {β : Type} [Backing β]

/-- Whether a range of addresses lies inside the memory. -/
def contains (b : β) (address : Word) (length : Nat) : Bool :=
  (physical address).toNat + length ≤ Backing.size b

/-- Why the window refuses an access, if it does. -/
def refusal (b : β) (address : Word) (length : Nat) : Option MemoryError :=
  if !Backing.connected b then some (.disconnected address)
  else if !contains b address length then some (.outOfBounds address length)
  else none

/-- Reads a range of bytes. -/
def readBytes (b : β) (address : Word) (length : Nat) : Except MemoryError (List Byte) :=
  match refusal b address length with
  | some e => .error e
  | none =>
    match Backing.read b (physical address) length with
    | .ok bytes => .ok bytes
    | .error e => .error (e.relocate address)

/-- Writes a range of bytes. -/
def writeBytes (b : β) (address : Word) (data : List Byte) : Option MemoryError × β :=
  match refusal b address data.length with
  | some e => (some e, b)
  | none =>
    let (e, b) := Backing.write b (physical address) data
    (e.map (·.relocate address), b)

/-- Reads a value of `k` bytes, most significant first. -/
def read (b : β) (k : Nat) (address : Word) : Except MemoryError (BitVec (8 * k)) :=
  (readBytes b address k).map (Bytes.toWord k)

/-- Writes a value of `k` bytes, most significant first. -/
def write (b : β) (k : Nat) (address : Word) (value : BitVec (8 * k)) : Option MemoryError × β :=
  writeBytes b address (Bytes.ofWord k value)

theorem address_of_refusal {b : β} {a : Word} {n : Nat} {e : MemoryError}
    (h : refusal b a n = some e) : e.address = a := by
  unfold refusal at h
  split at h
  · cases h; rfl
  · split at h
    · cases h; rfl
    · contradiction

theorem address_of_readBytes_error {b : β} {a : Word} {n : Nat} {e : MemoryError}
    (h : readBytes b a n = .error e) : e.address = a := by
  unfold readBytes at h
  split at h
  · next he => cases h; exact address_of_refusal he
  · split at h
    · contradiction
    · cases h; simp

theorem address_of_writeBytes_error {b : β} {a : Word} {data : List Byte} {e : MemoryError}
    (h : (writeBytes b a data).1 = some e) : e.address = a := by
  unfold writeBytes at h
  split at h
  · next he => cases h; exact address_of_refusal he
  · obtain ⟨e', _, rfl⟩ := Option.map_eq_some_iff.1 h
    simp

end Window

end Broadway
