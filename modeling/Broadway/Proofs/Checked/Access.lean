import Broadway.Exec.Memory
import Broadway.Proofs.Checked.Decode
import Broadway.Proofs.Checked.Single
import Broadway.Proofs.Memory.Access

/-!
# Accesses with checked arithmetic

A range of bytes is looked up in guest memory only after it was compared with the size of memory,
so it lies inside, whatever the size is and whether or not the memory is connected. A quantization
register gives a scale of six bits, and such a scale has a negative.

* Reads and writes go through for every address (`Checked.readBytes_eq`,
  `Checked.writeBytes_eq`), and lanes are converted under every quantization register
  (`Checked.quantizer_eq`, `Checked.dequantize_eq`, `Checked.quantize_eq`).
-/

namespace Broadway.Checked

/-! ## Guest memory -/

/-- The bytes of a range, which must lie inside the memory. -/
def slice (ram : Ram) (offset length : Nat) : Checked (List Byte) :=
  require (offset + length ≤ ram.size) .index (ram.slice offset length)

/-- Replaces the bytes of a range, which must lie inside the memory. -/
def overwrite (ram : Ram) (offset : Nat) (data : List Byte) : Checked Ram :=
  require (offset + data.length ≤ ram.size) .index (ram.put offset data)

def readBytes (ram : Ram) (address : Word) (length : Nat) :
    Checked (Except MemoryError (List Byte)) := do
  let offset := Window.physical address
  match Window.refusal ram address length with
  | some e => return .error e
  | none =>
    match ram.refusal offset length with
    | some e => return .error (e.relocate address)
    | none => return .ok (← slice ram offset.toNat length)

def writeBytes (ram : Ram) (address : Word) (data : List Byte) :
    Checked (Option MemoryError × Ram) := do
  let offset := Window.physical address
  match Window.refusal ram address data.length with
  | some e => return (some e, ram)
  | none =>
    match ram.refusal offset data.length with
    | some e => return (some (e.relocate address), ram)
    | none => return (none, ← overwrite ram offset.toNat data)

/-- Reads one element, or fails as the guest sees it. -/
def element (ram : Ram) (address : Word) (length : Nat) :
    Checked (Except Failure (List Byte)) := do
  match ← readBytes ram address length with
  | .ok bytes => return .ok bytes
  | .error e => return .error (.ofMemory e)

@[simp]
theorem readBytes_eq (ram : Ram) (address : Word) (length : Nat) :
    readBytes ram address length = .ok (Window.readBytes ram address length) := by
  rw [Window.readBytes_eq, readBytes, Window.refusal_eq]
  by_cases h : ram.Holds address length
  · have hfit : address.toNat % 2 ^ 31 + length ≤ ram.size := h.2
    simp only [if_pos h, Window.refusal_physical h, slice, require_of hfit, ok_bind, pure_eq,
      Window.toNat_physical]
  · simp only [if_neg h, pure_eq]

@[simp]
theorem writeBytes_eq (ram : Ram) (address : Word) (data : List Byte) :
    writeBytes ram address data = .ok (Window.writeBytes ram address data) := by
  rw [Window.writeBytes_eq, writeBytes, Window.refusal_eq]
  by_cases h : ram.Holds address data.length
  · have hfit : address.toNat % 2 ^ 31 + data.length ≤ ram.size := h.2
    simp only [if_pos h, Window.refusal_physical h, overwrite, require_of hfit, ok_bind, pure_eq,
      Window.toNat_physical]
  · simp only [if_neg h, pure_eq]

@[simp]
theorem element_eq (ram : Ram) (address : Word) (length : Nat) :
    element ram address length = .ok (Loading.element ram address length) := by
  rw [element, readBytes_eq, ok_bind, Loading.element]
  cases Window.readBytes ram address length <;> rfl

/-! ## Quantization -/

/-- The type and the scale at two places of a quantization register. -/
def quantizer (gqr : Word) (typeAt scaleAt : Nat) : Checked (Except Invalid Quantizer) := do
  let type ← field 3 gqr typeAt 3
  let scale ← displacement (← field 32 gqr scaleAt 6) 26 26
  match QuantizeType.ofBits type with
  | some t => return .ok ⟨t, scale.toInt⟩
  | none => return .error (.quantization type)

/-- The lane that the bytes of an element stand for. -/
def dequantize (q : Quantizer) (bytes : List Byte) : Checked Double :=
  let scaled (n : Int) : Checked Double := do
    let exponent ← negate (BitVec.ofInt 32 q.scale)
    return ((Double.ofInt n).mul? (Double.twoPow exponent.toInt)).getD Double.defaultNaN
  match q.type with
  | .float => widen (Bytes.toWord 4 bytes)
  | .u8 => scaled (Bytes.toWord 1 bytes).toNat
  | .u16 => scaled (Bytes.toWord 2 bytes).toNat
  | .s8 => scaled (Bytes.toWord 1 bytes).toInt
  | .s16 => scaled (Bytes.toWord 2 bytes).toInt

/-- The bytes that a lane is stored as. -/
def quantize (q : Quantizer) (lane : Double) : Checked (List Byte) := do
  match q.type with
  | .float => return Bytes.ofWord 4 (← narrow lane)
  | .u8 | .u16 | .s8 | .s16 => return q.quantize lane

theorem quantizer_eq (gqr : Word) {typeAt scaleAt : Nat} (htype : typeAt < 32)
    (hscale : scaleAt < 32) :
    quantizer gqr typeAt scaleAt
      = .ok (Quantizer.ofFields (gqr.extractLsb' typeAt 3) (gqr.extractLsb' scaleAt 6)) := by
  have hextend (x : BitVec 6) : displacement (x.setWidth 32) 26 26 = .ok (x.signExtend 32) := by
    have hmoved := displacement_eq (n := 6) (p := 0) (by decide) (by decide) x
    rwa [BitVec.append_zero_width] at hmoved
  have hnumber (x : BitVec 6) : (x.signExtend 32).toInt = x.toInt :=
    BitVec.toInt_signExtend_of_le (by decide)
  rw [quantizer, field_eq htype (by decide), ok_bind, field_eq hscale (by decide), ok_bind,
    hextend, ok_bind, hnumber, BitVec.setWidth_eq, Quantizer.ofFields]
  cases QuantizeType.ofBits (gqr.extractLsb' typeAt 3) <;> rfl

theorem negate_ofInt {n : Int} (h : -32 ≤ n ∧ n ≤ 31) :
    negate (BitVec.ofInt 32 n) = .ok (BitVec.ofInt 32 (-n)) := by
  have hnumber : (BitVec.ofInt 32 n).toInt = n := by
    rw [BitVec.toInt_ofInt]
    exact Int.bmod_eq_of_le (by omega) (by omega)
  have hfits : FitsSigned 32 (-(BitVec.ofInt 32 n).toInt) := by
    unfold FitsSigned
    omega
  rw [negate, require_of hfits, BitVec.ofInt_neg]

/-- A scale that came from a register has a negative. -/
theorem dequantize_eq {q : Quantizer} (h : -32 ≤ q.scale ∧ q.scale ≤ 31) (bytes : List Byte) :
    dequantize q bytes = .ok (q.dequantize bytes) := by
  have hnumber : (BitVec.ofInt 32 (-q.scale)).toInt = -q.scale := by
    rw [BitVec.toInt_ofInt]
    exact Int.bmod_eq_of_le (by omega) (by omega)
  simp only [dequantize, Quantizer.dequantize, negate_ofInt h, ok_bind, pure_eq, hnumber,
    widen_eq]
  cases q.type <;> rfl

@[simp]
theorem quantize_eq (q : Quantizer) (lane : Double) :
    quantize q lane = .ok (q.quantize lane) := by
  simp only [quantize, Quantizer.quantize, narrow_eq, ok_bind, pure_eq]
  cases q.type <;> rfl

end Broadway.Checked
