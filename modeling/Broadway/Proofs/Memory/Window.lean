import Broadway.Proofs.Bytes
import Broadway.Proofs.Memory.Access

/-!
# The window is a bounds-checked big-endian view

An access through the window is decided by three things: whether memory is connected, the offset
`a mod 2 ^ 31` that the address stands for, and the size of memory. `Window.BoundsChecked` says
what such an access does, as values and as raw bytes, and `Window.bounds_checked` that every
access through the window does it, and that whatever lies behind the window its errors are at the
address that was asked for.
-/

namespace Broadway.Window

/-- What an access of `k` bytes at the effective address `a` does to a row of bytes. -/
structure BoundsChecked (r : Ram) (a : Word) (k : Nat) : Prop where
  read_iff : (∃ v, read r k a = .ok v) ↔ r.connected = true ∧ a.toNat % 2 ^ 31 + k ≤ r.size
  /-- The value that is read has the bytes of its range, most significant first. -/
  read_bytes : ∀ v, read r k a = .ok v →
    ∀ i < k, v.extractLsb' (8 * (k - 1 - i)) 8 = r.byte (a.toNat % 2 ^ 31 + i)
  /-- As a number it is what the bytes denote, in two's complement if it is taken as signed. -/
  read_number : ∀ v, read r k a = .ok v →
    v.toNat = Bytes.toNat (r.slice (a.toNat % 2 ^ 31) k) ∧
    v.toInt = Int.bmod (Bytes.toNat (r.slice (a.toNat % 2 ^ 31) k)) (2 ^ (8 * k))
  read_error : ∀ e, read r k a = .error e →
    e = if r.connected then .outOfBounds a k else .disconnected a
  write_iff : ∀ v, (write r k a v).1 = none ↔
    r.connected = true ∧ a.toNat % 2 ^ 31 + k ≤ r.size
  /-- A write replaces its range by the bytes of the value and nothing else. -/
  write_bytes : ∀ v, (write r k a v).1 = none →
    (write r k a v).2.size = r.size ∧ (write r k a v).2.connected = r.connected ∧
    ∀ i, (write r k a v).2.byte i =
      if a.toNat % 2 ^ 31 ≤ i ∧ i < a.toNat % 2 ^ 31 + k then
        v.extractLsb' (8 * (k - 1 - (i - a.toNat % 2 ^ 31))) 8
      else r.byte i
  write_error : ∀ v e, (write r k a v).1 = some e →
    (write r k a v).2 = r ∧ e = if r.connected then .outOfBounds a k else .disconnected a
  /-- The value is read back at its address and at the mirror of it. -/
  read_write : ∀ v, (write r k a v).1 = none →
    read (write r k a v).2 k a = .ok v ∧
    read (write r k a v).2 k (a ^^^ 0x80000000#32) = .ok v
  /-- A read inside the range sees the slice of the value that lies there. -/
  read_write_part : ∀ v, (write r k a v).1 = none →
    ∀ b o j, b.toNat % 2 ^ 31 = a.toNat % 2 ^ 31 + o → o + j ≤ k →
      read (write r k a v).2 j b = .ok (v.extractLsb' (8 * (k - o - j)) (8 * j))
  readBytes_iff : ∀ bytes, readBytes r a k = .ok bytes ↔
    (r.connected = true ∧ a.toNat % 2 ^ 31 + k ≤ r.size) ∧
    bytes.length = k ∧ ∀ i (h : i < bytes.length), bytes[i] = r.byte (a.toNat % 2 ^ 31 + i)
  readBytes_error : ∀ e, readBytes r a k = .error e →
    e = if r.connected then .outOfBounds a k else .disconnected a
  writeBytes_iff : ∀ data, data.length = k → ((writeBytes r a data).1 = none ↔
    r.connected = true ∧ a.toNat % 2 ^ 31 + k ≤ r.size)
  writeBytes_bytes : ∀ data, data.length = k → (writeBytes r a data).1 = none →
    (writeBytes r a data).2.size = r.size ∧ (writeBytes r a data).2.connected = r.connected ∧
    ∀ i, (writeBytes r a data).2.byte i =
      if a.toNat % 2 ^ 31 ≤ i ∧ i < a.toNat % 2 ^ 31 + k then data.getD (i - a.toNat % 2 ^ 31) 0
      else r.byte i
  writeBytes_error : ∀ data, data.length = k → ∀ e, (writeBytes r a data).1 = some e →
    (writeBytes r a data).2 = r ∧ e = if r.connected then .outOfBounds a k else .disconnected a
  readBytes_writeBytes : ∀ data, data.length = k → (writeBytes r a data).1 = none →
    readBytes (writeBytes r a data).2 a k = .ok data ∧
    readBytes (writeBytes r a data).2 (a ^^^ 0x80000000#32) k = .ok data

variable {r : Ram} {a : Word} {k : Nat}

theorem read_of_holds (h : r.Holds a k) :
    read r k a = .ok (Bytes.toWord k (r.slice (a.toNat % 2 ^ 31) k)) := by
  rw [read_eq, if_pos h]

theorem write_of_holds (h : r.Holds a k) (v : BitVec (8 * k)) :
    write r k a v = (none, r.put (a.toNat % 2 ^ 31) (Bytes.ofWord k v)) := by
  rw [write_eq, if_pos h]

theorem readBytes_of_holds (h : r.Holds a k) :
    readBytes r a k = .ok (r.slice (a.toNat % 2 ^ 31) k) := by
  rw [readBytes_eq, if_pos h]

theorem writeBytes_of_holds {data : List Byte} (hlen : data.length = k) (h : r.Holds a k) :
    writeBytes r a data = (none, r.put (a.toNat % 2 ^ 31) data) := by
  rw [writeBytes_eq, if_pos (hlen.symm ▸ h)]

/-- The mirror of an address stands for the same offset. -/
theorem toNat_mirror (a : Word) : (a ^^^ 0x80000000#32).toNat % 2 ^ 31 = a.toNat % 2 ^ 31 := by
  rw [← toNat_physical, ← toNat_physical, physical_mirror]

/-- Bytes that were put are read back wherever an address stands for their place. -/
theorem readBytes_put {data : List Byte} {b : Word} {o j : Nat} (h : r.Holds a data.length)
    (hb : b.toNat % 2 ^ 31 = a.toNat % 2 ^ 31 + o) (hpart : o + j ≤ data.length) :
    readBytes (r.put (a.toNat % 2 ^ 31) data) b j = .ok ((data.drop o).take j) := by
  have hheld : (r.put (a.toNat % 2 ^ 31) data).Holds b j := by
    obtain ⟨hcon, hfit⟩ := h
    refine ⟨hcon, ?_⟩
    rw [Ram.size_put]
    omega
  rw [readBytes_of_holds hheld, hb, Ram.slice_put h.2 hpart]

/-- A value that was put is read back in parts, each the slice of the value at its place. -/
theorem read_put {v : BitVec (8 * k)} {b : Word} {o j : Nat} (h : r.Holds a k)
    (hb : b.toNat % 2 ^ 31 = a.toNat % 2 ^ 31 + o) (hpart : o + j ≤ k) :
    read (r.put (a.toNat % 2 ^ 31) (Bytes.ofWord k v)) j b
      = .ok (v.extractLsb' (8 * (k - o - j)) (8 * j)) := by
  have hlen : (Bytes.ofWord k v).length = k := Bytes.length_ofWord k v
  rw [read, readBytes_put (hlen.symm ▸ h) hb (hlen.symm ▸ hpart), Bytes.drop_take_ofWord v hpart]
  show Except.ok (Bytes.toWord j (Bytes.ofWord j _)) = _
  rw [Bytes.toWord_ofWord]

/-- The case of an access inside connected memory. -/
theorem boundsChecked_of_holds (h : r.Holds a k) : BoundsChecked r a k := by
  have hslice : (r.slice (a.toNat % 2 ^ 31) k).length = k := Ram.length_slice ..
  have hwhole : ∀ v : BitVec (8 * k), v.extractLsb' (8 * (k - 0 - k)) (8 * k) = v := by
    intro v
    rw [show 8 * (k - 0 - k) = 0 by omega, BitVec.extractLsb'_eq_self]
  constructor
  case read_iff => exact ⟨fun _ => h, fun _ => ⟨_, read_of_holds h⟩⟩
  case read_bytes =>
    intro v hv i hi
    rw [read_of_holds h] at hv
    cases hv
    -- the bytes of what was read are the bytes that were read
    have hbytes := Bytes.ofWord_toWord hslice
    have hget := Bytes.getElem_ofWord k (Bytes.toWord k (r.slice (a.toNat % 2 ^ 31) k)) i
      (by rw [Bytes.length_ofWord]; exact hi)
    rw [← hget]
    simp only [hbytes, Ram.getElem_slice]
  case read_number =>
    intro v hv
    rw [read_of_holds h] at hv
    cases hv
    have hnat := Bytes.toNat_toWord hslice
    exact ⟨hnat, by rw [BitVec.toInt_eq_toNat_bmod, hnat]⟩
  case read_error =>
    intro e he
    rw [read_of_holds h] at he
    contradiction
  case write_iff => exact fun v => ⟨fun _ => h, fun _ => by rw [write_of_holds h]⟩
  case write_bytes =>
    intro v _
    rw [write_of_holds h]
    have hlen : (Bytes.ofWord k v).length = k := Bytes.length_ofWord k v
    refine ⟨Ram.size_put .., rfl, ?_⟩
    intro i
    rw [Ram.byte_put (hlen.symm ▸ h.2), hlen]
    split
    · next hin =>
      rw [← List.getElem_eq_getD (h := by rw [hlen]; omega), Bytes.getElem_ofWord]
    · rfl
  case write_error =>
    intro v e he
    rw [write_of_holds h] at he
    contradiction
  case read_write =>
    intro v _
    rw [write_of_holds h]
    have hself := read_put (v := v) (b := a) (o := 0) h (by omega) (Nat.le_of_eq (Nat.zero_add k))
    have hmirror := read_put (v := v) (b := a ^^^ 0x80000000#32) (o := 0) h
      (by rw [toNat_mirror]; rfl) (Nat.le_of_eq (Nat.zero_add k))
    rw [hwhole] at hself hmirror
    exact ⟨hself, hmirror⟩
  case read_write_part =>
    intro v _ b o j hb hpart
    rw [write_of_holds h]
    exact read_put h hb hpart
  case readBytes_iff =>
    intro bytes
    rw [readBytes_of_holds h]
    constructor
    · intro heq
      cases heq
      exact ⟨h, hslice, fun i hi => Ram.getElem_slice ..⟩
    · rintro ⟨_, hlen, hbytes⟩
      congr 1
      apply List.ext_getElem
      · rw [hslice, hlen]
      · intro i _ hi
        rw [Ram.getElem_slice, hbytes i hi]
  case readBytes_error =>
    intro e he
    rw [readBytes_of_holds h] at he
    contradiction
  case writeBytes_iff =>
    exact fun data hlen => ⟨fun _ => h, fun _ => by rw [writeBytes_of_holds hlen h]⟩
  case writeBytes_bytes =>
    intro data hlen _
    rw [writeBytes_of_holds hlen h]
    refine ⟨Ram.size_put .., rfl, ?_⟩
    intro i
    rw [Ram.byte_put (hlen.symm ▸ h.2), hlen]
  case writeBytes_error =>
    intro data hlen e he
    rw [writeBytes_of_holds hlen h] at he
    contradiction
  case readBytes_writeBytes =>
    intro data hlen _
    rw [writeBytes_of_holds hlen h]
    subst hlen
    have hfull : (data.drop 0).take data.length = data := by rw [List.drop_zero, List.take_length]
    have hself := readBytes_put (b := a) (o := 0) h (by omega) (Nat.le_of_eq (Nat.zero_add _))
    have hmirror := readBytes_put (b := a ^^^ 0x80000000#32) (o := 0) h
      (by rw [toNat_mirror]; rfl) (Nat.le_of_eq (Nat.zero_add _))
    rw [hfull] at hself hmirror
    exact ⟨hself, hmirror⟩

/-- The case of an access that memory does not hold: it fails, with the same error from every
operation, and nothing changes. -/
theorem boundsChecked_of_not_holds (h : ¬ r.Holds a k) : BoundsChecked r a k := by
  have hread : read r k a = .error (r.outside a k) := by rw [read_eq, if_neg h]
  have hwrite : ∀ v, write r k a v = (some (r.outside a k), r) := by
    intro v
    rw [write_eq, if_neg h]
  have hreadBytes : readBytes r a k = .error (r.outside a k) := by rw [readBytes_eq, if_neg h]
  have hwriteBytes : ∀ data : List Byte, data.length = k →
      writeBytes r a data = (some (r.outside a k), r) := by
    intro data hlen
    rw [writeBytes_eq, hlen, if_neg h]
  constructor
  case read_iff =>
    exact ⟨fun ⟨v, hv⟩ => by rw [hread] at hv; contradiction, fun hin => absurd hin h⟩
  case read_bytes => intro v hv; rw [hread] at hv; contradiction
  case read_number => intro v hv; rw [hread] at hv; contradiction
  case read_error =>
    intro e he
    rw [hread] at he
    cases he
    rfl
  case write_iff =>
    exact fun v => ⟨fun hv => by rw [hwrite] at hv; contradiction, fun hin => absurd hin h⟩
  case write_bytes => intro v hv; rw [hwrite] at hv; contradiction
  case write_error =>
    intro v e he
    rw [hwrite] at he ⊢
    cases he
    exact ⟨rfl, rfl⟩
  case read_write => intro v hv; rw [hwrite] at hv; contradiction
  case read_write_part => intro v hv; rw [hwrite] at hv; contradiction
  case readBytes_iff =>
    exact fun bytes =>
      ⟨fun hb => by rw [hreadBytes] at hb; contradiction, fun hin => absurd hin.1 h⟩
  case readBytes_error =>
    intro e he
    rw [hreadBytes] at he
    cases he
    rfl
  case writeBytes_iff =>
    exact fun data hlen =>
      ⟨fun hd => by rw [hwriteBytes data hlen] at hd; contradiction, fun hin => absurd hin h⟩
  case writeBytes_bytes => intro data hlen hd; rw [hwriteBytes data hlen] at hd; contradiction
  case writeBytes_error =>
    intro data hlen e he
    rw [hwriteBytes data hlen] at he ⊢
    cases he
    exact ⟨rfl, rfl⟩
  case readBytes_writeBytes => intro data hlen hd; rw [hwriteBytes data hlen] at hd; contradiction

/-- Every access to a row of bytes is bounds-checked and big-endian, and whatever lies behind the
window, an error of the window is at the effective address that was asked for. -/
theorem bounds_checked :
    (∀ (r : Ram) (a : Word) (k : Nat), BoundsChecked r a k) ∧
    ∀ (β : Type) [Backing β] (b : β) (a : Word) (k : Nat),
      (∀ e, read b k a = .error e → e.address = a) ∧
      (∀ v e, (write b k a v).1 = some e → e.address = a) ∧
      (∀ e, readBytes b a k = .error e → e.address = a) ∧
      ∀ data e, (writeBytes b a data).1 = some e → e.address = a := by
  refine ⟨?_, ?_⟩
  · intro r a k
    by_cases h : r.Holds a k
    · exact boundsChecked_of_holds h
    · exact boundsChecked_of_not_holds h
  · intro β _ b a k
    refine ⟨?_, fun v e he => address_of_writeBytes_error he,
      fun e he => address_of_readBytes_error he, fun data e he => address_of_writeBytes_error he⟩
    intro e he
    -- reading a value fails only where reading its bytes does
    unfold read at he
    cases hb : readBytes b a k with
    | ok bytes => rw [hb] at he; contradiction
    | error e' =>
        rw [hb] at he
        cases he
        exact address_of_readBytes_error hb

end Broadway.Window
