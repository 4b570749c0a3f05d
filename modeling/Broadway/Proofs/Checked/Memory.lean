import Broadway.Proofs.Checked.Access
import Broadway.Proofs.Checked.Registers

/-!
# Memory instructions with checked arithmetic

Addresses wrap, but what is added to them is counted in checked arithmetic: four bytes for each
register of a multiple transfer, and for a string the register of each byte and its place in the
register. Registers that follow one another are numbers until they are looked up in the bank.

* A string load counts its registers on as it goes and wraps them; what carries the loop is which
  register was filled last (`Checked.loadBytes_eq`).
* Every memory instruction does under checks what it does without (`Checked.execMemory_eq`).
-/

namespace Broadway.Checked

/-! ## Stores -/

/-- The bytes that a store writes. -/
def storedBytes (kind : Store) (r : Registers) (rs : Reg) : Checked (List Byte) := do
  match kind with
  | .single => return Bytes.ofWord 4 (← narrow (r.fpr.read rs).ps0)
  | _ => return kind.bytes r rs

def storeSingle (kind : Store) (rs : Reg) (address : Address) (update : Bool) (r : Registers) :
    Checked (Except Failure Storing) := do
  let ea := r.effective address
  match alignmentFault kind.aligned ea with
  | some f => return .error f
  | none =>
    return .ok ⟨[(ea, ← storedBytes kind r rs)], r.updateBase update address ea⟩

/-- How far the word of a register lies from the start of a multiple transfer. -/
def wordOffset (i : Nat) : Checked Word := mul 4#32 (BitVec.ofNat 32 i)

/-- The word of the `i`-th register from `rs` on, and where it goes. -/
def storedWord (rs : Reg) (ea : Word) (r : Registers) (i : Nat) :
    Checked (Word × List Byte) := do
  let offset ← wordOffset i
  let source ← index 5 (rs.toNat + i)
  return (ea + offset, Bytes.ofWord 4 (r.gpr.read source))

/-- The words of all registers from `rs` on. -/
def storeMultiple (rs : Reg) (address : Address) (r : Registers) :
    Checked (Except Failure Storing) := do
  let ea := r.effective address
  match alignmentFault true ea with
  | some f => return .error f
  | none =>
    return .ok ⟨← (List.range (32 - rs.toNat)).mapM (storedWord rs ea r), r⟩

/-- How far a byte of a register lies from the least significant one. -/
def laneShift (lane : Nat) : Checked Word := do
  let below ← mul 8#32 (BitVec.ofNat 32 lane)
  sub 24#32 below

/-- The `i`-th byte of the registers from `rs` on, and where it goes. -/
def storedByte (rs : Reg) (ea : Word) (r : Registers) (i : Nat) :
    Checked (Word × List Byte) := do
  let number ← add (BitVec.ofNat 32 rs.toNat) (BitVec.ofNat 32 (i / 4))
  let source ← index 5 (number.toNat % 32)
  let place ← laneShift (i % 4)
  let x ← shr (r.gpr.read source) place.toNat
  return (ea + BitVec.ofNat 32 i, [x.setWidth 8])

/-- Single bytes of consecutive registers. -/
def storeString (rs : Reg) (address : Address) (count : ByteCount) (r : Registers) :
    Checked Storing := do
  let ea := r.effective address
  return ⟨← (List.range (r.stringCount count)).mapM (storedByte rs ea r), r⟩

def storeConditional (rs : Reg) (address : Address) (r : Registers) :
    Checked (Except Failure Storing) := do
  let ea := r.effective address
  match alignmentFault true ea with
  | some f => return .error f
  | none =>
    let reserved := r.reservation = some ea
    let elements := if reserved then [(ea, Bytes.ofWord 4 (r.gpr.read rs))] else []
    let flags := (if reserved then Condition.eq else 0)
      ||| if r.summaryOverflow then Condition.so else 0
    return .ok ⟨elements, { ← setCrField r 0 flags with reservation := none }⟩

/-- One or both lanes in the form that a quantization register asks for. -/
def storeQuantized (frs : Reg) (address : Address) (one : Bool) (gqr : BitVec 3) (update : Bool)
    (r : Registers) : Checked (Except Failure Storing) := do
  let ea := r.effective address
  match ← quantizer (r.gqr.read gqr) 0 8 with
  | .error e => return .error (.invalid e)
  | .ok q =>
    let lanes := r.fpr.read frs
    let first := (ea, ← quantize q lanes.ps0)
    let regs := r.updateBase update address ea
    if one then return .ok ⟨[first], regs⟩
    else
      let second := (ea + BitVec.ofNat 32 q.type.size, ← quantize q lanes.ps1)
      return .ok ⟨[first, second], regs⟩

/-- A cache block of zeros. -/
def clearBlock (address : Address) (r : Registers) : Checked Storing := do
  let low ← sub (BitVec.ofNat 32 Window.cacheLineSize) 1#32
  return ⟨[(r.effective address &&& ~~~low, List.replicate Window.cacheLineSize 0)], r⟩

/-- Writes elements in order, up to the first that fails. -/
def writeAll (ram : Ram) : List (Word × List Byte) → Checked (Option MemoryError × Ram)
  | [] => .ok (none, ram)
  | (address, bytes) :: rest => do
    match ← writeBytes ram address bytes with
    | (none, ram) => writeAll ram rest
    | (some e, ram) => return (some e, ram)

/-- Carries a storing instruction out. -/
def execStoring (s : Storing) (m : Machine) : Checked Outcome := do
  match ← writeAll m.ram s.elements with
  | (none, ram) => return ⟨⟨s.regs, ram⟩, none⟩
  | (some e, ram) => return ⟨⟨m.regs, ram⟩, some (.ofMemory e)⟩

/-- Carries a storing instruction out, unless it failed at once. -/
def execStoring? (s : Except Failure Storing) (m : Machine) : Checked Outcome :=
  match s with
  | .error f => .ok (m.fail f)
  | .ok s => execStoring s m

theorem storeSingle_eq (kind : Store) (rs : Reg) (address : Address) (update : Bool)
    (r : Registers) :
    storeSingle kind rs address update r = .ok (Storing.single kind rs address update r) := by
  have hbytes : storedBytes kind r rs = .ok (kind.bytes r rs) := by
    cases kind <;> simp [storedBytes, Store.bytes]
  simp only [storeSingle, Storing.single, hbytes, ok_bind, pure_eq]
  cases alignmentFault kind.aligned (r.effective address) <;> rfl

theorem wordOffset_eq {i : Nat} (h : i < 32) :
    wordOffset i = .ok (BitVec.ofNat 32 (4 * i)) :=
  mul_ofNat (by decide) (by omega) (by omega)

/-- The number of a register after `i` others. -/
theorem index_add {rs : Reg} {i : Nat} (h : rs.toNat + i < 32) :
    index 5 (rs.toNat + i) = .ok (rs + BitVec.ofNat 5 i) := by
  rw [index_eq h, BitVec.ofNat_add, BitVec.ofNat_toNat, BitVec.setWidth_eq]

theorem storeMultiple_eq (rs : Reg) (address : Address) (r : Registers) :
    storeMultiple rs address r = .ok (Storing.multiple rs address r) := by
  have helements : (List.range (32 - rs.toNat)).mapM (storedWord rs (r.effective address) r)
      = .ok ((List.range (32 - rs.toNat)).map fun i =>
        (r.effective address + BitVec.ofNat 32 (4 * i),
          Bytes.ofWord 4 (r.gpr.read (rs + BitVec.ofNat 5 i)))) := by
    refine mapM_ok fun i hi => ?_
    have hlt : i < 32 - rs.toNat := List.mem_range.1 hi
    rw [storedWord, wordOffset_eq (by omega), ok_bind, index_add (by omega), ok_bind, pure_eq]
  simp only [storeMultiple, Storing.multiple, helements, ok_bind, pure_eq]
  cases alignmentFault true (r.effective address) <;> rfl

theorem laneShift_eq {lane : Nat} (h : lane < 4) :
    laneShift lane = .ok (BitVec.ofNat 32 (24 - 8 * lane)) := by
  simp (disch := omega) only [laneShift, mul_ofNat, sub_ofNat, ok_bind]

theorem toNat_laneShift (lane : Nat) :
    (BitVec.ofNat 32 (24 - 8 * lane)).toNat = 24 - 8 * lane :=
  toNat_ofNat_of_lt (by omega)

/-- Register 31 is followed by register zero. -/
theorem index_wrapped (rs : Reg) (i : Nat) :
    index 5 ((rs.toNat + i) % 32) = .ok (rs + BitVec.ofNat 5 i) := by
  rw [index_eq (Nat.mod_lt _ (by decide))]
  congr 1
  apply BitVec.eq_of_toNat_eq
  simp

theorem storedByte_eq {i : Nat} (h : i < 128) (rs : Reg) (ea : Word) (r : Registers) :
    storedByte rs ea r i
      = .ok (ea + BitVec.ofNat 32 i,
        [(r.gpr.read (rs + BitVec.ofNat 5 (i / 4))).extractLsb' (24 - 8 * (i % 4)) 8]) := by
  have hrs : rs.toNat < 32 := rs.isLt
  have hnumber : (BitVec.ofNat 32 (rs.toNat + i / 4)).toNat = rs.toNat + i / 4 :=
    toNat_ofNat_of_lt (by omega)
  rw [storedByte, add_ofNat (by omega), ok_bind, hnumber, index_wrapped, ok_bind,
    laneShift_eq (by omega), ok_bind, toNat_laneShift, shr_eq (by omega), ok_bind, pure_eq]
  rfl

theorem storeString_eq (rs : Reg) (address : Address) (count : ByteCount) (r : Registers) :
    storeString rs address count r = .ok (Storing.string rs address count r) := by
  have hcount : r.stringCount count < 128 := r.stringCount_lt count
  rw [storeString, mapM_ok (fun i hi => storedByte_eq
    (Nat.lt_trans (List.mem_range.1 hi) hcount) rs (r.effective address) r), ok_bind, pure_eq,
    Storing.string]

theorem storeConditional_eq (rs : Reg) (address : Address) (r : Registers) :
    storeConditional rs address r = .ok (Storing.conditional rs address r) := by
  simp only [storeConditional, Storing.conditional, setCrField_eq, ok_bind, pure_eq]
  cases alignmentFault true (r.effective address) <;> rfl

theorem storeQuantized_eq (frs : Reg) (address : Address) (one : Bool) (gqr : BitVec 3)
    (update : Bool) (r : Registers) :
    storeQuantized frs address one gqr update r
      = .ok (Storing.quantized frs address one gqr update r) := by
  have hhalf := quantizer_eq (r.gqr.read gqr) (show 0 < 32 by decide) (show 8 < 32 by decide)
  simp only [storeQuantized, Storing.quantized, hhalf, Quantizer.forStore, quantize_eq, ok_bind,
    pure_eq]
  cases Quantizer.ofFields ((r.gqr.read gqr).extractLsb' 0 3) ((r.gqr.read gqr).extractLsb' 8 6)
  · rfl
  · cases one <;> rfl

theorem clearBlock_eq (address : Address) (r : Registers) :
    clearBlock address r = .ok (Storing.clearBlock address r) := by
  rw [clearBlock, sub_ofNat (by decide) (by decide), ok_bind, pure_eq]
  rfl

theorem writeAll_eq (ram : Ram) (elements : List (Word × List Byte)) :
    writeAll ram elements = .ok (Storing.writeAll ram elements) := by
  induction elements generalizing ram with
  | nil => rfl
  | cons first rest ih =>
      obtain ⟨address, bytes⟩ := first
      rw [writeAll, writeBytes_eq, ok_bind, Storing.writeAll]
      obtain ⟨failure, ram'⟩ := Window.writeBytes ram address bytes
      cases failure with
      | none => exact ih ram'
      | some => rfl

@[simp]
theorem execStoring_eq (s : Storing) (m : Machine) : execStoring s m = .ok (s.exec m) := by
  obtain ⟨regs, ram⟩ := m
  rw [execStoring, writeAll_eq, ok_bind, Storing.exec]
  obtain ⟨failure, ram'⟩ := Storing.writeAll ram s.elements
  cases failure <;> rfl

@[simp]
theorem execStoring?_eq (s : Except Failure Storing) (m : Machine) :
    execStoring? s m = .ok (Storing.exec? s m) := by
  cases s with
  | error => rfl
  | ok s => exact execStoring_eq s m

/-! ## Loads -/

/-- Fills the target from the bytes that were read. -/
def fill (kind : Load) (r : Registers) (rt : Reg) (bytes : List Byte) : Checked Registers := do
  match kind with
  | .single => return r.setFpr rt (.both (← widen (Bytes.toWord 4 bytes)))
  | _ => return kind.fill r rt bytes

def loadSingle (kind : Load) (rt : Reg) (address : Address) (update : Bool) (m : Machine) :
    Checked Outcome := do
  let ea := m.regs.effective address
  match alignmentFault kind.aligned ea with
  | some f => return m.fail f
  | none =>
    match ← element m.ram ea kind.size with
    | .error f => return m.fail f
    | .ok bytes => return m.done ((← fill kind m.regs rt bytes).updateBase update address ea)

/-- A word, whose address is reserved from then on. -/
def loadReserving (rd : Reg) (address : Address) (m : Machine) : Checked Outcome := do
  let ea := m.regs.effective address
  match alignmentFault true ea with
  | some f => return m.fail f
  | none =>
    match ← element m.ram ea 4 with
    | .error f => return m.fail f
    | .ok bytes =>
      return m.done { m.regs.setGpr rd (Bytes.toWord 4 bytes) with reservation := some ea }

/-- Words into `count` registers, from the `i`-th register from `rd` on. -/
def loadWords (ram : Ram) (rd : Reg) (ea : Word) : (count i : Nat) → Registers →
    Checked (Option Failure × Registers)
  | 0, _, r => .ok (none, r)
  | n + 1, i, r => do
    let offset ← wordOffset i
    match ← element ram (ea + offset) 4 with
    | .error f => return (some f, r)
    | .ok bytes =>
      let target ← index 5 (rd.toNat + i)
      loadWords ram rd ea n (i + 1) (r.setGpr target (Bytes.toWord 4 bytes))

/-- Words into all registers from `rd` on. -/
def loadMultiple (rd : Reg) (address : Address) (m : Machine) : Checked Outcome := do
  let ea := m.regs.effective address
  match alignmentFault true ea with
  | some f => return m.fail f
  | none =>
    let (failure, regs) ← loadWords m.ram rd ea (32 - rd.toNat) 0 m.regs
    return ⟨{ m with regs := regs }, failure⟩

/-- The register that the `i`-th byte goes to, given the one that the byte before it went to. -/
def stringTarget (i : Nat) (last : Byte) : Checked Byte := do
  if i % 4 = 0 ∧ 0 < i then
    let next ← add last 1#8
    return BitVec.ofNat 8 (next.toNat % 32)
  else return last

/-- The bytes from number `i` on, `count` of them, given the register of the byte before. -/
def loadBytes (ram : Ram) (ea : Word) : (count i : Nat) → (last : Byte) → Registers →
    Checked (Option Failure × Registers)
  | 0, _, _, r => .ok (none, r)
  | n + 1, i, last, r => do
    let number ← stringTarget i last
    let target ← index 5 number.toNat
    let r := if i % 4 = 0 then r.setGpr target 0 else r
    match ← element ram (ea + BitVec.ofNat 32 i) 1 with
    | .error f => return (some f, r)
    | .ok b =>
      let place ← laneShift (i % 4)
      let part ← shl ((Bytes.toWord 1 b).setWidth 32) place.toNat
      loadBytes ram ea n (i + 1) number (r.setGpr target (r.gpr.read target ||| part))

/-- The first of some registers that a string load fills, given how many it fills. -/
def findCovered (rd : Reg) (loaded : Nat) : List Reg → Checked (Option Reg)
  | [] => .ok none
  | i :: rest => do
    let sum ← add (BitVec.ofNat 32 i.toNat) 32#32
    let distance ← sub sum (BitVec.ofNat 32 rd.toNat)
    if distance.toNat % 32 < loaded then return some i else findCovered rd loaded rest

/-- Bytes into consecutive registers, none of which may belong to the address. -/
def loadString (rd : Reg) (address : Address) (count : ByteCount) (m : Machine) :
    Checked Outcome := do
  let n := m.regs.stringCount count
  match ← findCovered rd ((n + 3) / 4) address.registers with
  | some source =>
    return m.fail (.invalid (.stringOverSource (Loading.stringMnemonic count) source rd))
  | none =>
    let (failure, regs) ←
      loadBytes m.ram (m.regs.effective address) n 0 (rd.setWidth 8) m.regs
    return ⟨{ m with regs := regs }, failure⟩

/-- One or two elements in the form that a quantization register says. -/
def quantizedLanes (ram : Ram) (q : Quantizer) (ea : Word) (one : Bool) :
    Checked (Except Failure Lanes) := do
  match ← element ram ea q.type.size with
  | .error f => return .error f
  | .ok first =>
    let x ← dequantize q first
    if one then return .ok ⟨x, Double.one⟩
    else
      match ← element ram (ea + BitVec.ofNat 32 q.type.size) q.type.size with
      | .error f => return .error f
      | .ok second => return .ok ⟨x, ← dequantize q second⟩

def loadQuantized (frt : Reg) (address : Address) (one : Bool) (gqr : BitVec 3) (update : Bool)
    (m : Machine) : Checked Outcome := do
  let ea := m.regs.effective address
  match ← quantizer (m.regs.gqr.read gqr) 16 24 with
  | .error e => return m.fail (.invalid e)
  | .ok q =>
    match ← quantizedLanes m.ram q ea one with
    | .error f => return m.fail f
    | .ok lanes => return m.done ((m.regs.setFpr frt lanes).updateBase update address ea)

theorem loadSingle_eq (kind : Load) (rt : Reg) (address : Address) (update : Bool)
    (m : Machine) :
    loadSingle kind rt address update m = .ok (Loading.single kind rt address update m) := by
  have hfill (bytes : List Byte) :
      fill kind m.regs rt bytes = .ok (kind.fill m.regs rt bytes) := by
    cases kind <;> simp [fill, Load.fill]
  simp only [loadSingle, Loading.single, element_eq, hfill, ok_bind, pure_eq]
  cases alignmentFault kind.aligned (m.regs.effective address) with
  | some => rfl
  | none => cases Loading.element m.ram (m.regs.effective address) kind.size <;> rfl

theorem loadReserving_eq (rd : Reg) (address : Address) (m : Machine) :
    loadReserving rd address m = .ok (Loading.reserving rd address m) := by
  simp only [loadReserving, Loading.reserving, element_eq, ok_bind, pure_eq]
  cases alignmentFault true (m.regs.effective address) with
  | some => rfl
  | none => cases Loading.element m.ram (m.regs.effective address) 4 <;> rfl

/-- The number of a register stays below 32 as long as registers are left to fill. -/
theorem loadWords_eq (ram : Ram) (rd : Reg) (ea : Word) {count i : Nat}
    (h : rd.toNat + i + count ≤ 32) (r : Registers) :
    loadWords ram rd ea count i r
      = .ok (Loading.words ram count (rd + BitVec.ofNat 5 i) (ea + BitVec.ofNat 32 (4 * i)) r) := by
  induction count generalizing i r with
  | zero => rfl
  | succ n ih =>
      -- without checks the register and the address are stepped, here they are counted from `i`
      have hnext : rd + BitVec.ofNat 5 i + 1 = rd + BitVec.ofNat 5 (i + 1) := by
        rw [BitVec.add_assoc, BitVec.ofNat_add]
        rfl
      have hplace : ea + BitVec.ofNat 32 (4 * i) + 4 = ea + BitVec.ofNat 32 (4 * (i + 1)) := by
        rw [BitVec.add_assoc, Nat.mul_add, BitVec.ofNat_add]
        rfl
      rw [loadWords, wordOffset_eq (by omega), ok_bind, element_eq, ok_bind, Loading.words]
      cases Loading.element ram (ea + BitVec.ofNat 32 (4 * i)) 4 with
      | error => rfl
      | ok bytes =>
        dsimp only
        rw [index_add (by omega), ok_bind, ih (by omega), hnext, hplace]

theorem loadMultiple_eq (rd : Reg) (address : Address) (m : Machine) :
    loadMultiple rd address m = .ok (Loading.multiple rd address m) := by
  have hfit : rd.toNat + 0 + (32 - rd.toNat) ≤ 32 := by omega
  have hwords := loadWords_eq m.ram rd (m.regs.effective address) hfit m.regs
  rw [BitVec.add_zero, Nat.mul_zero, BitVec.add_zero] at hwords
  simp only [loadMultiple, Loading.multiple, hwords, ok_bind, pure_eq]
  cases alignmentFault true (m.regs.effective address) <;> rfl

/-- After a byte has been placed, its register is the one that every fourth byte counts on. -/
theorem stringTarget_eq {rd : Reg} {i : Nat} {last : Byte}
    (h : last.toNat = (rd.toNat + (i - 1) / 4) % 32) :
    stringTarget i last = .ok (BitVec.ofNat 8 ((rd.toNat + i / 4) % 32)) := by
  have hlast : last = BitVec.ofNat 8 last.toNat := by simp
  have hrd : rd.toNat < 32 := rd.isLt
  unfold stringTarget
  by_cases hnext : i % 4 = 0 ∧ 0 < i
  · have hsum : (BitVec.ofNat 8 (last.toNat + 1)).toNat = last.toNat + 1 :=
      toNat_ofNat_of_lt (by omega)
    have hwrap : (last.toNat + 1) % 32 = (rd.toNat + i / 4) % 32 := by omega
    rw [if_pos hnext, hlast, add_ofNat (by omega), ok_bind, pure_eq, hsum, hwrap]
  · have hsame : last.toNat = (rd.toNat + i / 4) % 32 := by omega
    rw [if_neg hnext, pure_eq, ← hsame, ← hlast]

theorem loadBytes_eq (ram : Ram) (rd : Reg) (ea : Word) {count i : Nat} {last : Byte}
    (h : last.toNat = (rd.toNat + (i - 1) / 4) % 32) (r : Registers) :
    loadBytes ram ea count i last r = .ok (Loading.bytes ram rd ea count i r) := by
  -- `last` is the register of byte `i - 1`: for byte zero that is `rd`, which nothing has filled
  induction count generalizing i last r with
  | zero => rfl
  | succ n ih =>
      have hnumber : (BitVec.ofNat 8 ((rd.toNat + i / 4) % 32)).toNat
          = (rd.toNat + i / 4) % 32 := toNat_ofNat_of_lt (by omega)
      rw [loadBytes, stringTarget_eq h, ok_bind, hnumber, index_wrapped, ok_bind, element_eq,
        ok_bind, Loading.bytes]
      cases Loading.element ram (ea + BitVec.ofNat 32 i) 1 with
      | error => rfl
      | ok b =>
        dsimp only
        rw [laneShift_eq (by omega), ok_bind, toNat_laneShift, shl_eq (by omega), ok_bind,
          ih (by rw [hnumber, Nat.add_sub_cancel])]

theorem findCovered_eq (rd : Reg) (n : Nat) (registers : List Reg) :
    findCovered rd ((n + 3) / 4) registers = .ok (registers.find? (Loading.covers rd n)) := by
  induction registers with
  | nil => rfl
  | cons i rest ih =>
      have hi : i.toNat < 32 := i.isLt
      have hrd : rd.toNat < 32 := rd.isLt
      have hnumber : (BitVec.ofNat 32 (i.toNat + 32 - rd.toNat)).toNat = i.toNat + 32 - rd.toNat :=
        toNat_ofNat_of_lt (by omega)
      -- the 32 that keeps the difference from going below zero is lost in the remainder
      have hdistance : (i.toNat + 32 - rd.toNat) % 32 = (i - rd).toNat := by
        rw [BitVec.toNat_sub]
        omega
      rw [findCovered, add_ofNat (by omega), ok_bind, sub_ofNat (by omega) (by omega), ok_bind,
        hnumber, hdistance, List.find?_cons, ih, Loading.covers]
      by_cases hcovered : (i - rd).toNat < (n + 3) / 4
      · rw [if_pos hcovered, decide_eq_true hcovered, pure_eq]
      · rw [if_neg hcovered, decide_eq_false hcovered]

theorem loadString_eq (rd : Reg) (address : Address) (count : ByteCount) (m : Machine) :
    loadString rd address count m = .ok (Loading.string rd address count m) := by
  have hrd : rd.toNat < 32 := rd.isLt
  have hstart : (rd.setWidth 8).toNat = (rd.toNat + (0 - 1) / 4) % 32 := by
    rw [BitVec.toNat_setWidth]
    omega
  simp only [loadString, Loading.string, findCovered_eq, loadBytes_eq m.ram rd _ hstart, ok_bind,
    pure_eq]
  cases address.registers.find? (Loading.covers rd (m.regs.stringCount count)) <;> rfl

theorem quantizedLanes_eq (ram : Ram) {q : Quantizer} (h : -32 ≤ q.scale ∧ q.scale ≤ 31)
    (ea : Word) (one : Bool) :
    quantizedLanes ram q ea one = .ok (Loading.quantizedLanes ram q ea one) := by
  simp only [quantizedLanes, Loading.quantizedLanes, element_eq, dequantize_eq h, ok_bind,
    pure_eq]
  cases Loading.element ram ea q.type.size with
  | error => rfl
  | ok first =>
    cases one with
    | true => rfl
    | false =>
      cases Loading.element ram (ea + BitVec.ofNat 32 q.type.size) q.type.size <;> rfl

theorem loadQuantized_eq (frt : Reg) (address : Address) (one : Bool) (gqr : BitVec 3)
    (update : Bool) (m : Machine) :
    loadQuantized frt address one gqr update m
      = .ok (Loading.quantized frt address one gqr update m) := by
  have hhalf :=
    quantizer_eq (m.regs.gqr.read gqr) (show 16 < 32 by decide) (show 24 < 32 by decide)
  simp only [loadQuantized, Loading.quantized, hhalf, Quantizer.forLoad, ok_bind, pure_eq]
  cases hq : Quantizer.ofFields ((m.regs.gqr.read gqr).extractLsb' 16 3)
      ((m.regs.gqr.read gqr).extractLsb' 24 6) with
  | error => rfl
  | ok q =>
    dsimp only
    rw [quantizedLanes_eq _ (Quantizer.scale_bounds hq), ok_bind]
    cases Loading.quantizedLanes m.ram q (m.regs.effective address) one <;> rfl

/-! ## The unit -/

def execMemory (i : MemoryInstr) (m : Machine) : Checked Outcome := do
  match i with
  | .load kind rt address update => loadSingle kind rt address update m
  | .store kind rs address update =>
    execStoring? (← storeSingle kind rs address update m.regs) m
  | .loadMultiple rd address => loadMultiple rd address m
  | .storeMultiple rs address => execStoring? (← storeMultiple rs address m.regs) m
  | .loadString rd address count => loadString rd address count m
  | .storeString rs address count => execStoring (← storeString rs address count m.regs) m
  | .loadReserve rd address => loadReserving rd address m
  | .storeConditional rs address => execStoring? (← storeConditional rs address m.regs) m
  | .loadQuantized frt address one gqr update => loadQuantized frt address one gqr update m
  | .storeQuantized frs address one gqr update =>
    execStoring? (← storeQuantized frs address one gqr update m.regs) m
  | .clearBlock address => execStoring (← clearBlock address m.regs) m

theorem execMemory_eq (i : MemoryInstr) (m : Machine) : execMemory i m = .ok (i.exec m) := by
  cases i with
  | load => exact loadSingle_eq ..
  | loadMultiple => exact loadMultiple_eq ..
  | loadString => exact loadString_eq ..
  | loadReserve => exact loadReserving_eq ..
  | loadQuantized => exact loadQuantized_eq ..
  | _ =>
    simp only [execMemory, MemoryInstr.exec, storeSingle_eq, storeMultiple_eq, storeString_eq,
      storeConditional_eq, storeQuantized_eq, clearBlock_eq, ok_bind, execStoring_eq,
      execStoring?_eq]

end Broadway.Checked
