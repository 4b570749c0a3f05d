import Broadway.Float.Quantize
import Broadway.Machine

/-!
# Memory instructions

A storing instruction is worked out from the registers alone: either it fails at once, or it is a
list of elements, each an address and the bytes that go there, and the registers to be left behind
when all of them are written. The elements are written in order up to the first that fails. So a
store touches memory nowhere but in its elements, and registers change only when all is done.

A loading instruction reads its elements in order. A single load or a quantized load changes
registers only when all is read; a multiple or string load fills each register as it goes.
-/

namespace Broadway

/-- An access that must be aligned fails at an address that is no multiple of four. -/
def alignmentFault (needed : Bool) (address : Word) : Option Failure :=
  if needed && address &&& 3 != 0 then some (.fault .alignment address) else none

namespace Registers

/-- Leaves the effective address in the base register, if asked to. -/
def updateBase (r : Registers) (update : Bool) (address : Address) (effective : Word) :
    Registers :=
  if update then r.setGpr address.base effective else r

/-- The number of bytes that a string instruction moves; an immediate count of zero is 32. -/
def stringCount (r : Registers) : ByteCount → Nat
  | .immediate n => if n = 0 then 32 else n.toNat
  | .fromXer => r.byteCount

/-- A string has fewer bytes than there are in all registers together. -/
theorem stringCount_lt (r : Registers) (count : ByteCount) :
    r.stringCount count < 128 := by
  cases count with
  | immediate n =>
      rw [stringCount]
      split <;> omega
  | fromXer =>
      have hmask : r.byteCount ≤ 0x7F := by
        rw [byteCount, BitVec.toNat_and]
        exact Nat.and_le_right
      exact Nat.lt_succ_of_le hmask

end Registers

/-! ## Stores -/

namespace Store

/-- Whether the address must be a multiple of four. -/
def aligned : Store → Bool
  | .external | .single | .double | .floatWord => true
  | _ => false

/-- The bytes that a store writes. -/
def bytes (kind : Store) (r : Registers) (rs : Reg) : List Byte :=
  let word := r.gpr.read rs
  let double := (r.fpr.read rs).ps0
  match kind with
  | .byte => Bytes.ofWord 1 (word.setWidth 8)
  | .half => Bytes.ofWord 2 (word.setWidth 16)
  | .word | .external => Bytes.ofWord 4 word
  | .halfReversed => (Bytes.ofWord 2 (word.setWidth 16)).reverse
  | .wordReversed => (Bytes.ofWord 4 word).reverse
  | .single => Bytes.ofWord 4 (Single.narrow double)
  | .double => Bytes.ofWord 8 double
  | .floatWord => Bytes.ofWord 4 (double.setWidth 32)

end Store

/-- What a storing instruction writes, and the registers once everything is written. -/
structure Storing where
  elements : List (Word × List Byte)
  regs : Registers

namespace Storing

def single (kind : Store) (rs : Reg) (address : Address) (update : Bool) (r : Registers) :
    Except Failure Storing :=
  let ea := r.effective address
  match alignmentFault kind.aligned ea with
  | some f => .error f
  | none => .ok ⟨[(ea, kind.bytes r rs)], r.updateBase update address ea⟩

/-- The words of all registers from `rs` on. -/
def multiple (rs : Reg) (address : Address) (r : Registers) : Except Failure Storing :=
  let ea := r.effective address
  match alignmentFault true ea with
  | some f => .error f
  | none =>
    let element (i : Nat) : Word × List Byte :=
      (ea + BitVec.ofNat 32 (4 * i), Bytes.ofWord 4 (r.gpr.read (rs + BitVec.ofNat 5 i)))
    .ok ⟨(List.range (32 - rs.toNat)).map element, r⟩

/-- Single bytes of consecutive registers, high byte first; register 31 is followed by register
zero. -/
def string (rs : Reg) (address : Address) (count : ByteCount) (r : Registers) : Storing :=
  let ea := r.effective address
  let element (i : Nat) : Word × List Byte :=
    let word := r.gpr.read (rs + BitVec.ofNat 5 (i / 4))
    (ea + BitVec.ofNat 32 i, [word.extractLsb' (24 - 8 * (i % 4)) 8])
  ⟨(List.range (r.stringCount count)).map element, r⟩

/-- A word, if its address is reserved. Either way no reservation remains, and field zero of the
condition register tells whether the word was written. -/
def conditional (rs : Reg) (address : Address) (r : Registers) : Except Failure Storing :=
  let ea := r.effective address
  match alignmentFault true ea with
  | some f => .error f
  | none =>
    let reserved := r.reservation = some ea
    let elements := if reserved then [(ea, Bytes.ofWord 4 (r.gpr.read rs))] else []
    let flags := (if reserved then Condition.eq else 0)
      ||| if r.summaryOverflow then Condition.so else 0
    .ok ⟨elements, { r.setCrField 0 flags with reservation := none }⟩

/-- One or both lanes in the form that a quantization register asks for. -/
def quantized (frs : Reg) (address : Address) (one : Bool) (gqr : BitVec 3) (update : Bool)
    (r : Registers) : Except Failure Storing :=
  let ea := r.effective address
  match Quantizer.forStore (r.gqr.read gqr) with
  | .error e => .error (.invalid e)
  | .ok q =>
    let lanes := r.fpr.read frs
    let first := (ea, q.quantize lanes.ps0)
    let second := (ea + BitVec.ofNat 32 q.type.size, q.quantize lanes.ps1)
    .ok ⟨if one then [first] else [first, second], r.updateBase update address ea⟩

/-- A cache block of zeros. -/
def clearBlock (address : Address) (r : Registers) : Storing :=
  let block := r.effective address &&& ~~~BitVec.ofNat 32 (Window.cacheLineSize - 1)
  ⟨[(block, List.replicate Window.cacheLineSize 0)], r⟩

/-- Writes elements in order, up to the first that fails. -/
def writeAll (ram : Ram) : List (Word × List Byte) → Option MemoryError × Ram
  | [] => (none, ram)
  | (address, bytes) :: rest =>
    match Window.writeBytes ram address bytes with
    | (none, ram) => writeAll ram rest
    | (some e, ram) => (some e, ram)

/-- Carries a storing instruction out. -/
def exec (s : Storing) : Machine → Outcome
  | ⟨regs, ram⟩ =>
    match writeAll ram s.elements with
    | (none, ram) => ⟨⟨s.regs, ram⟩, none⟩
    | (some e, ram) => ⟨⟨regs, ram⟩, some (.ofMemory e)⟩

/-- Carries a storing instruction out, unless it failed at once. -/
def exec? (s : Except Failure Storing) (m : Machine) : Outcome :=
  match s with
  | .error f => m.fail f
  | .ok s => s.exec m

end Storing

/-! ## Loads -/

namespace Load

/-- The bytes that a load reads. -/
def size : Load → Nat
  | .byte => 1
  | .half | .halfAlgebraic | .halfReversed => 2
  | .word | .wordReversed | .external | .single => 4
  | .double => 8

/-- Whether the address must be a multiple of four. -/
def aligned : Load → Bool
  | .external | .single | .double => true
  | _ => false

/-- Fills the target from the bytes that were read. -/
def fill (kind : Load) (r : Registers) (rt : Reg) (bytes : List Byte) : Registers :=
  match kind with
  | .byte => r.setGpr rt ((Bytes.toWord 1 bytes).setWidth 32)
  | .half => r.setGpr rt ((Bytes.toWord 2 bytes).setWidth 32)
  | .halfAlgebraic => r.setGpr rt ((Bytes.toWord 2 bytes).signExtend 32)
  | .word | .external => r.setGpr rt (Bytes.toWord 4 bytes)
  | .halfReversed => r.setGpr rt ((Bytes.toWord 2 bytes.reverse).setWidth 32)
  | .wordReversed => r.setGpr rt (Bytes.toWord 4 bytes.reverse)
  | .single => r.setFpr rt (.both (Single.widen (Bytes.toWord 4 bytes)))
  | .double => r.setPs0 rt (Bytes.toWord 8 bytes)

end Load

namespace Loading

/-- Reads one element, or fails as the guest sees it. -/
def element (ram : Ram) (address : Word) (length : Nat) : Except Failure (List Byte) :=
  match Window.readBytes ram address length with
  | .ok bytes => .ok bytes
  | .error e => .error (.ofMemory e)

def single (kind : Load) (rt : Reg) (address : Address) (update : Bool) (m : Machine) : Outcome :=
  let ea := m.regs.effective address
  match alignmentFault kind.aligned ea with
  | some f => m.fail f
  | none =>
    match element m.ram ea kind.size with
    | .error f => m.fail f
    | .ok bytes => m.done ((kind.fill m.regs rt bytes).updateBase update address ea)

/-- A word, whose address is reserved from then on. -/
def reserving (rd : Reg) (address : Address) (m : Machine) : Outcome :=
  let ea := m.regs.effective address
  match alignmentFault true ea with
  | some f => m.fail f
  | none =>
    match element m.ram ea 4 with
    | .error f => m.fail f
    | .ok bytes => m.done { m.regs.setGpr rd (Bytes.toWord 4 bytes) with reservation := some ea }

/-- Words into `count` registers from `rd` on. -/
def words (ram : Ram) : (count : Nat) → (rd : Reg) → (address : Word) → Registers →
    Option Failure × Registers
  | 0, _, _, r => (none, r)
  | n + 1, rd, address, r =>
    match element ram address 4 with
    | .error f => (some f, r)
    | .ok bytes => words ram n (rd + 1) (address + 4) (r.setGpr rd (Bytes.toWord 4 bytes))

/-- Words into all registers from `rd` on. -/
def multiple (rd : Reg) (address : Address) (m : Machine) : Outcome :=
  let ea := m.regs.effective address
  match alignmentFault true ea with
  | some f => m.fail f
  | none =>
    let (failure, regs) := words m.ram (32 - rd.toNat) rd ea m.regs
    ⟨{ m with regs := regs }, failure⟩

/-- The bytes from number `i` on, `count` of them, high byte first; a register is cleared before
its first byte is read. -/
def bytes (ram : Ram) (rd : Reg) (ea : Word) : (count i : Nat) → Registers →
    Option Failure × Registers
  | 0, _, r => (none, r)
  | n + 1, i, r =>
    let target := rd + BitVec.ofNat 5 (i / 4)
    let r := if i % 4 = 0 then r.setGpr target 0 else r
    match element ram (ea + BitVec.ofNat 32 i) 1 with
    | .error f => (some f, r)
    | .ok b =>
      let part := (Bytes.toWord 1 b).setWidth 32 <<< (24 - 8 * (i % 4))
      bytes ram rd ea n (i + 1) (r.setGpr target (r.gpr.read target ||| part))

/-- Whether a string load of `count` bytes from register `rd` on fills a register. -/
def covers (rd : Reg) (count : Nat) (i : Reg) : Bool := (i - rd).toNat < (count + 3) / 4

/-- The name of the string load with a given count. -/
def stringMnemonic : ByteCount → String
  | .immediate _ => "lswi"
  | .fromXer => "lswx"

/-- Bytes into consecutive registers, none of which may belong to the address. -/
def string (rd : Reg) (address : Address) (count : ByteCount) (m : Machine) : Outcome :=
  let n := m.regs.stringCount count
  match address.registers.find? (covers rd n) with
  | some source => m.fail (.invalid (.stringOverSource (stringMnemonic count) source rd))
  | none =>
    let (failure, regs) := bytes m.ram rd (m.regs.effective address) n 0 m.regs
    ⟨{ m with regs := regs }, failure⟩

/-- One or two elements in the form that a quantization register says; a single element is paired
with the number one. -/
def quantizedLanes (ram : Ram) (q : Quantizer) (ea : Word) (one : Bool) : Except Failure Lanes :=
  match element ram ea q.type.size with
  | .error f => .error f
  | .ok first =>
    if one then .ok ⟨q.dequantize first, Double.one⟩
    else
      match element ram (ea + BitVec.ofNat 32 q.type.size) q.type.size with
      | .error f => .error f
      | .ok second => .ok ⟨q.dequantize first, q.dequantize second⟩

def quantized (frt : Reg) (address : Address) (one : Bool) (gqr : BitVec 3) (update : Bool)
    (m : Machine) : Outcome :=
  let ea := m.regs.effective address
  match Quantizer.forLoad (m.regs.gqr.read gqr) with
  | .error e => m.fail (.invalid e)
  | .ok q =>
    match quantizedLanes m.ram q ea one with
    | .error f => m.fail f
    | .ok lanes => m.done ((m.regs.setFpr frt lanes).updateBase update address ea)

end Loading

namespace MemoryInstr

def exec (i : MemoryInstr) (m : Machine) : Outcome :=
  match i with
  | .load kind rt address update => Loading.single kind rt address update m
  | .store kind rs address update => Storing.exec? (Storing.single kind rs address update m.regs) m
  | .loadMultiple rd address => Loading.multiple rd address m
  | .storeMultiple rs address => Storing.exec? (Storing.multiple rs address m.regs) m
  | .loadString rd address count => Loading.string rd address count m
  | .storeString rs address count => (Storing.string rs address count m.regs).exec m
  | .loadReserve rd address => Loading.reserving rd address m
  | .storeConditional rs address => Storing.exec? (Storing.conditional rs address m.regs) m
  | .loadQuantized frt address one gqr update => Loading.quantized frt address one gqr update m
  | .storeQuantized frs address one gqr update =>
    Storing.exec? (Storing.quantized frs address one gqr update m.regs) m
  | .clearBlock address => (Storing.clearBlock address m.regs).exec m

end MemoryInstr

end Broadway
