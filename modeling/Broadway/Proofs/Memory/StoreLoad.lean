import Broadway.Proofs.Instr.Accesses
import Broadway.Proofs.Memory.Loads
import Broadway.Proofs.Memory.Restore
import Broadway.Proofs.Memory.Window

/-!
# Loads see stores

What a store of a single element leaves in memory, and what any load makes of it afterwards. A store
writes the low bytes of a register and a load fills a register from the bytes that it reads, each in
one of two byte orders; so the value arrives as it was if the orders agree, and with its bytes
swapped if not.

* `Store.value` is what a store has written, read most significant byte first, and `Load.Delivers`
  what a load leaves in its target.
* A store that completes has replaced the bytes at its address (`Machine.HasStored`), and a load
  of bytes delivers their value in its own order (`Machine.execute_loadsAt`).
* `Machine.SeesStore` collects what loads see: the whole of a store, parts of it, and what lies
  apart from it (`loads_see_stores`).
-/

namespace Broadway

open Opcode

/-! ## Byte orders -/

namespace Bytes

variable {k : Nat}

/-- A value with its bytes in the opposite order. -/
def swap (k : Nat) (v : BitVec (8 * k)) : BitVec (8 * k) := toWord k (ofWord k v).reverse

theorem ofWord_swap (v : BitVec (8 * k)) : ofWord k (swap k v) = (ofWord k v).reverse :=
  ofWord_toWord (by rw [List.length_reverse, length_ofWord])

theorem swap_swap (v : BitVec (8 * k)) : swap k (swap k v) = v := by
  rw [swap, ofWord_swap, List.reverse_reverse, toWord_ofWord]

/-- A value with its bytes in an order: the one that it has, or the opposite one. -/
def inOrder (reversed : Bool) (k : Nat) (v : BitVec (8 * k)) : BitVec (8 * k) :=
  if reversed then swap k v else v

/-- Bytes that are read in an order. -/
theorem toWord_ofWord_inOrder (reversed : Bool) (v : BitVec (8 * k)) :
    toWord k (if reversed then (ofWord k v).reverse else ofWord k v) = inOrder reversed k v := by
  cases reversed with
  | false => exact toWord_ofWord k v
  | true => rfl

/-- Two orders that agree leave the value as it is. -/
theorem inOrder_inOrder (a b : Bool) (v : BitVec (8 * k)) :
    inOrder a k (inOrder b k v) = if a = b then v else swap k v := by
  cases a <;> cases b <;> simp [inOrder, swap_swap]

end Bytes

/-! ## What a store writes -/

namespace Store

/-- Whether a store writes the least significant byte first. -/
def reversed : Store → Bool
  | .halfReversed | .wordReversed => true
  | _ => false

/-- What a store takes its low bytes from. -/
def source (kind : Store) (r : Registers) (rs : Reg) : BitVec 64 :=
  match kind with
  | .double | .floatWord => (r.fpr.read rs).ps0
  | .single => (Single.narrow (r.fpr.read rs).ps0).setWidth 64
  | _ => (r.gpr.read rs).setWidth 64

/-- The value of the bytes that a store writes, most significant byte first. -/
def value (kind : Store) (r : Registers) (rs : Reg) : BitVec (8 * kind.size) :=
  Bytes.inOrder kind.reversed kind.size ((kind.source r rs).setWidth (8 * kind.size))

theorem bytes_eq (kind : Store) (r : Registers) (rs : Reg) :
    kind.bytes r rs = Bytes.ofWord kind.size (kind.value r rs) := by
  cases kind <;> simp [bytes, value, source, size, reversed, Bytes.inOrder, Bytes.ofWord_swap]

/-- The same for another spelling of the size. -/
theorem bytes_of_size {kind : Store} {k : Nat} (hk : k = kind.size) (r : Registers) (rs : Reg) :
    kind.bytes r rs = Bytes.ofWord k
      (Bytes.inOrder kind.reversed k ((kind.source r rs).setWidth (8 * k))) := by
  subst hk
  exact bytes_eq kind r rs

end Store

/-! ## What a load delivers -/

namespace Load

/-- Whether a load takes the least significant byte first. -/
def reversed : Load → Bool
  | .halfReversed | .wordReversed => true
  | _ => false

/-- A load has filled its target from a value: extended to a word, by zeros or by the sign, widened
to both lanes, or as the first lane. -/
def Delivers (kind : Load) (v : BitVec (8 * kind.size)) (r : Registers) (rt : Reg) : Prop :=
  match kind with
  | .halfAlgebraic => r.gpr.read rt = v.signExtend 32
  | .single => r.fpr.read rt = .both (Single.widen (v.setWidth 32))
  | .double => (r.fpr.read rt).ps0 = v.setWidth 64
  | _ => r.gpr.read rt = v.setWidth 32

theorem delivers_fill (kind : Load) (r : Registers) (rt : Reg) (bytes : List Byte) :
    kind.Delivers (Bytes.toWord kind.size (if kind.reversed then bytes.reverse else bytes))
      (kind.fill r rt bytes) rt := by
  cases kind with
  | byte | half | halfAlgebraic | halfReversed => exact Bank.read_write_self ..
  | word | wordReversed | external =>
      exact (Bank.read_write_self ..).trans (BitVec.setWidth_eq _).symm
  | single =>
      have hword : (Bytes.toWord 4 bytes).setWidth 32 = Bytes.toWord 4 bytes := BitVec.setWidth_eq _
      exact (Bank.read_write_self ..).trans
        (congrArg (fun w => Lanes.both (Single.widen w)) hword.symm)
  | double =>
      have hlane : (r.setPs0 rt (Bytes.toWord 8 bytes)).ps0 rt = Bytes.toWord 8 bytes :=
        congrArg Lanes.ps0 (Bank.read_write_self ..)
      exact hlane.trans (BitVec.setWidth_eq _).symm

/-- An update leaves the target alone. -/
theorem Delivers.updateBase {kind : Load} {v : BitVec (8 * kind.size)} {r : Registers} {rt : Reg}
    {a : Address} {update : Bool} (h : kind.Delivers v r rt)
    (hlegal : (MemoryInstr.load kind rt a update).Legal) (ea : Word) :
    kind.Delivers v (r.updateBase update a ea) rt := by
  cases update with
  | false => exact h
  | true =>
      obtain ⟨-, hother⟩ := hlegal rfl
      have hkept (hfixed : kind.isFloat = false) :
          (r.setGpr a.base ea).gpr.read rt = r.gpr.read rt :=
        Bank.read_write_of_ne _ _ (hother hfixed)
      cases kind with
      | single | double => exact h
      | _ => exact (hkept rfl).trans h

end Load

/-- An address and its mirror stand for one offset. -/
theorem Window.toNat_of_mirror {a b : Word} (h : b = a ∨ b = a ^^^ 0x80000000#32) :
    b.toNat % 2 ^ 31 = a.toNat % 2 ^ 31 := by
  obtain rfl | rfl := h
  · rfl
  · exact toNat_mirror a

namespace Machine

variable {m m' : Machine} {s l : Word} {a : Address} {b : Word} {rs rt : Reg}

/-! ## The two words -/

/-- A word that stores a single element: unconditionally, or under a reservation of the address. -/
inductive Stores (m : Machine) (s : Word) : Store → Reg → Address → Prop
  | plain {kind : Store} {rs : Reg} {a : Address} {update : Bool}
      (h : s.StoreAccess kind rs a update) : Stores m s kind rs a
  | conditional (hw : Fixed.stwcx.Selects s)
      (hreserved : m.regs.reservation =
        some (m.regs.effective (.indexed (Field.ra s) (Field.rb s)))) :
      Stores m s .word (Field.rt s) (.indexed (Field.ra s) (Field.rb s))

/-- A word that loads a single element from an address: its operands are legal, and the address is
aligned if it must be. -/
inductive LoadsAt (m : Machine) (l : Word) (kind : Load) (rt : Reg) (b : Word) : Prop
  | access {a : Address} {update : Bool} (h : l.LoadAccess kind rt a update)
      (hlegal : (MemoryInstr.load kind rt a update).Legal) (haddress : m.regs.effective a = b)
      (haligned : l.MustAlign a → 4 ∣ b.toNat)

/-- Both ways to store write one element. -/
theorem Stores.storing {kind : Store} (h : m.Stores s kind rs a)
    (hdone : (m.execute s).failure = none) :
    ∃ (i : MemoryInstr) (t : Except Failure Storing),
      Instr.ofWord s = .ok (.memory i) ∧ i.storing? m.regs = some t ∧
        ∀ u, t = .ok u → u.elements = [(m.regs.effective a, kind.bytes m.regs rs)] := by
  cases h with
  | @plain kind rs a update h =>
      cases hs : Instr.ofWord s with
      | error e =>
          -- an update that is refused does not complete
          rw [execute_of_error hs] at hdone
          cases hdone
      | ok i =>
          obtain rfl := Instr.ofWord_of_storeAccess h i hs
          refine ⟨_, _, rfl, rfl, fun u hu => ?_⟩
          rw [Storing.single_ok hu]
  | conditional hw hreserved =>
      refine ⟨_, _, Instr.ofWord_of_stwcx hw, rfl, fun u hu => ?_⟩
      rw [(Storing.conditional_ok hu).1, if_pos hreserved]
      rfl

/-- A load whose bytes are in memory completes, and delivers their value in its own order. -/
theorem execute_loadsAt {kind : Load} (h : m.LoadsAt l kind rt b) {v : BitVec (8 * kind.size)}
    (hread : Window.readBytes m.ram b kind.size = .ok (Bytes.ofWord kind.size v)) :
    (m.execute l).failure = none ∧
      kind.Delivers (Bytes.inOrder kind.reversed kind.size v) (m.execute l).machine.regs rt := by
  obtain @⟨a, update, haccess, hlegal, rfl, haligned⟩ := h
  obtain ⟨i, hi, hword⟩ := Instr.ofWord_of_loadAccess haccess hlegal
  have hmust := Instr.mustAlign_of_reads (Instr.reads_ofWord l) hword a
  have helement := Loading.element_of_readBytes hread
  have hfill := kind.delivers_fill m.regs rt (Bytes.ofWord kind.size v)
  rw [Bytes.toWord_ofWord_inOrder] at hfill
  have hfault {needed : Bool} (h : needed = true → l.MustAlign a) :
      alignmentFault needed (m.regs.effective a) = none := by
    rw [alignmentFault_eq, if_neg]
    exact fun ⟨hneeded, hodd⟩ => hodd (haligned (h hneeded))
  have hexecute := execute_of_ofWord hword m
  -- the two instructions differ in what must be aligned and in the reservation
  cases hi with
  | load =>
      have haddress : alignmentFault kind.aligned (m.regs.effective a) = none :=
        hfault fun hneeded => hmust.1 (if_pos hneeded)
      simp only [Instr.exec, MemoryInstr.exec, Loading.single, haddress, helement] at hexecute
      rw [hexecute]
      exact ⟨rfl, hfill.updateBase hlegal _⟩
  | reserve =>
      have haddress : alignmentFault true (m.regs.effective a) = none := hfault fun _ => hmust.1 rfl
      have hread : Loading.element m.ram (m.regs.effective a) 4 = .ok (Bytes.ofWord 4 v) := helement
      simp only [Instr.exec, MemoryInstr.exec, Loading.reserving, haddress, hread] at hexecute
      rw [hexecute]
      exact ⟨rfl, hfill⟩

/-! ## Memory after a store -/

/-- The memory of `m'` is that of `m` after a store at the address `ea`, which is inside it. -/
structure HasStored (m' m : Machine) (kind : Store) (rs : Reg) (ea : Word) : Prop where
  held : m.ram.Holds ea kind.size
  ram : m'.ram = m.ram.put (ea.toNat % 2 ^ 31) (kind.bytes m.regs rs)

/-- A store that completes has replaced the bytes at its address. -/
theorem hasStored {kind : Store} (h : m.Stores s kind rs a)
    (hdone : (m.execute s).failure = none) (hram : m'.ram = (m.execute s).machine.ram) :
    m'.HasStored m kind rs (m.regs.effective a) := by
  obtain ⟨i, t, hi, hstoring, helements⟩ := h.storing hdone
  have hexecute : m.execute s = i.exec m := execute_of_ofWord hi m
  rw [hexecute] at hdone hram
  obtain ⟨u, hu, hwritten⟩ := MemoryInstr.writeAll_of_completed hstoring hdone
  rw [helements u hu, Storing.writeAll_singleton, Window.writeBytes_eq, Store.length_bytes]
    at hwritten
  split at hwritten
  · next hheld => exact ⟨hheld, hram.trans (congrArg Prod.snd hwritten).symm⟩
  · cases hwritten

namespace HasStored

variable {kind : Store} {ea : Word} {i : MemoryInstr}

/-- Memory still holds what it held. -/
theorem holds (h : m'.HasStored m kind rs ea) : m'.ram.Holds ea kind.size := by
  rw [h.ram]
  exact (Ram.holds_congr (Ram.size_put ..) (Ram.connected_put ..) ea kind.size).2 h.held

theorem readBytes_part (h : m'.HasStored m kind rs ea) {o j : Nat}
    (hb : b.toNat % 2 ^ 31 = ea.toNat % 2 ^ 31 + o) (hin : o + j ≤ kind.size) :
    Window.readBytes m'.ram b j = .ok (((kind.bytes m.regs rs).drop o).take j) := by
  have hlen : (kind.bytes m.regs rs).length = kind.size := kind.length_bytes m.regs rs
  rw [h.ram]
  exact Window.readBytes_put (hlen.symm ▸ h.held) hb (hlen.symm ▸ hin)

theorem readBytes_whole (h : m'.HasStored m kind rs ea) (hb : b = ea ∨ b = ea ^^^ 0x80000000#32) :
    Window.readBytes m'.ram b kind.size = .ok (kind.bytes m.regs rs) := by
  have hlen : (kind.bytes m.regs rs).length = kind.size := kind.length_bytes m.regs rs
  have hread := h.readBytes_part (o := 0) (Window.toNat_of_mirror hb)
    (Nat.le_of_eq (Nat.zero_add kind.size))
  rwa [List.drop_zero, List.take_of_length_le (Nat.le_of_eq hlen)] at hread

/-- A load of the same width takes all bytes of the store, in its own order. -/
theorem execute_whole (h : m'.HasStored m kind rs ea) {kind' : Load}
    (hload : m'.LoadsAt l kind' rt b) (hb : b = ea ∨ b = ea ^^^ 0x80000000#32)
    (hsize : kind'.size = kind.size) :
    let x := (kind.source m.regs rs).setWidth (8 * kind'.size)
    (m'.execute l).failure = none ∧
      kind'.Delivers (if kind'.reversed = kind.reversed then x else Bytes.swap kind'.size x)
        (m'.execute l).machine.regs rt := by
  intro x
  have hwritten : Window.readBytes m'.ram b kind'.size =
      .ok (Bytes.ofWord kind'.size (Bytes.inOrder kind.reversed kind'.size x)) := by
    rw [← Store.bytes_of_size hsize, hsize]
    exact h.readBytes_whole hb
  have hloads := execute_loadsAt hload hwritten
  rwa [Bytes.inOrder_inOrder] at hloads

theorem execute_part (h : m'.HasStored m kind rs ea) {kind' : Load} {o : Nat}
    (hload : m'.LoadsAt l kind' rt b) (hb : b.toNat % 2 ^ 31 = ea.toNat % 2 ^ 31 + o)
    (hin : o + kind'.size ≤ kind.size) :
    (m'.execute l).failure = none ∧
      kind'.Delivers (Bytes.inOrder kind'.reversed kind'.size ((kind.value m.regs rs).extractLsb'
        (8 * (kind.size - o - kind'.size)) (8 * kind'.size))) (m'.execute l).machine.regs rt := by
  refine execute_loadsAt hload ?_
  rw [h.readBytes_part hb hin, Store.bytes_eq, Bytes.drop_take_ofWord _ hin]

/-- The byte at an address inside the store is loaded, wherever its offset has gone to. -/
theorem execute_byte (h : m'.HasStored m kind rs ea) {k : Nat} (hk : k < kind.size)
    (hload : m'.LoadsAt l .byte rt (ea + BitVec.ofNat 32 k)) :
    (m'.execute l).failure = none ∧ (m'.execute l).machine.regs.gpr.read rt =
      (m'.ram.byte ((ea.toNat + k) % 2 ^ 31)).setWidth 32 := by
  have hplace := Window.toNat_physical_add ea k
  rw [Window.toNat_physical] at hplace
  have hheld : m'.ram.Holds (ea + BitVec.ofNat 32 k) 1 := h.holds.part rfl hk
  have hbyte : Window.readBytes m'.ram (ea + BitVec.ofNat 32 k) 1 =
      .ok (Bytes.ofWord 1 (m'.ram.byte ((ea.toNat + k) % 2 ^ 31))) := by
    rw [Window.readBytes_of_holds hheld, hplace, Ram.slice_one, Bytes.ofWord_one]
  exact execute_loadsAt hload hbyte

theorem execute_apart (h : m'.HasStored m kind rs ea) (hi : Instr.ofWord l = .ok (.memory i))
    (hload : i.storing? m'.regs = none)
    (hapart : ∀ e ∈ i.elements m'.regs, e.1.toNat % 2 ^ 31 + e.2 ≤ ea.toNat % 2 ^ 31 ∨
      ea.toNat % 2 ^ 31 + kind.size ≤ e.1.toNat % 2 ^ 31) :
    let before : Machine := ⟨m'.regs, m.ram⟩
    (m'.execute l).failure = (before.execute l).failure ∧
      (m'.execute l).machine.regs = (before.execute l).machine.regs := by
  intro before
  obtain ⟨regs, ram⟩ := m'
  obtain rfl : ram = _ := h.ram
  rw [execute_of_ofWord hi, execute_of_ofWord hi]
  refine MemoryInstr.exec_of_apart hload fun e he => ?_
  rw [Store.length_bytes]
  exact hapart e he

end HasStored

/-! ## What loads see -/

/-- What loads of `m'` see of a store that `m` has made at the address `ea`. An address and its
mirror, which differs in the most significant bit, stand for the same place; offsets go round at two
gigabytes. -/
structure SeesStore (m' m : Machine) (kind : Store) (rs : Reg) (ea : Word) : Prop where
  /-- The bytes of the store are in memory. -/
  word : Window.read m'.ram kind.size ea = .ok (kind.value m.regs rs)
  /-- A load of any kind completes that is no wider than the store. -/
  completes : ∀ (l : Word) (i : MemoryInstr), Instr.ofWord l = .ok (.memory i) →
    i.storing? m'.regs = none → i.stopped? m'.regs = none →
    (m'.regs.effective i.address = ea ∨ m'.regs.effective i.address = ea ^^^ 0x80000000#32) →
    i.width m'.regs ≤ kind.size → (m'.execute l).failure = none
  /-- A load of the same width delivers the low bits of the register that was stored, with its bytes
  swapped if the orders differ. -/
  whole : ∀ (l : Word) (kind' : Load) (rt : Reg) (b : Word), m'.LoadsAt l kind' rt b →
    (b = ea ∨ b = ea ^^^ 0x80000000#32) → kind'.size = kind.size →
    let x := (kind.source m.regs rs).setWidth (8 * kind'.size)
    (m'.execute l).failure = none ∧
      kind'.Delivers (if kind'.reversed = kind.reversed then x else Bytes.swap kind'.size x)
        (m'.execute l).machine.regs rt
  /-- A load that starts at the place `o` of the bytes delivers the slice of their value there. -/
  part : ∀ (l : Word) (kind' : Load) (rt : Reg) (b : Word) (o : Nat), m'.LoadsAt l kind' rt b →
    b.toNat % 2 ^ 31 = ea.toNat % 2 ^ 31 + o → o + kind'.size ≤ kind.size →
    (m'.execute l).failure = none ∧
      kind'.Delivers (Bytes.inOrder kind'.reversed kind'.size ((kind.value m.regs rs).extractLsb'
        (8 * (kind.size - o - kind'.size)) (8 * kind'.size))) (m'.execute l).machine.regs rt
  /-- A byte of the store is loaded from its address. This is byte `i` of the value, unless the
  offset has gone round on the way there. -/
  byte : ∀ (l : Word) (rt : Reg) (i : Nat), i < kind.size →
    m'.LoadsAt l .byte rt (ea + BitVec.ofNat 32 i) →
    (m'.execute l).failure = none ∧
      (m'.execute l).machine.regs.gpr.read rt =
        (m'.ram.byte ((ea.toNat + i) % 2 ^ 31)).setWidth 32 ∧
      (ea.toNat % 2 ^ 31 + i < 2 ^ 31 → (m'.execute l).machine.regs.gpr.read rt =
        ((kind.value m.regs rs).extractLsb' (8 * (kind.size - i - 1)) 8).setWidth 32)
  /-- A load of any kind that has no byte in common with the store does what it does over memory as
  it was before the store. -/
  apart : ∀ (l : Word) (i : MemoryInstr), Instr.ofWord l = .ok (.memory i) →
    i.storing? m'.regs = none →
    (∀ e ∈ i.elements m'.regs, e.1.toNat % 2 ^ 31 + e.2 ≤ ea.toNat % 2 ^ 31 ∨
      ea.toNat % 2 ^ 31 + kind.size ≤ e.1.toNat % 2 ^ 31) →
    let before : Machine := ⟨m'.regs, m.ram⟩
    (m'.execute l).failure = (before.execute l).failure ∧
      (m'.execute l).machine.regs = (before.execute l).machine.regs

theorem HasStored.seesStore {kind : Store} {ea : Word} (h : m'.HasStored m kind rs ea) :
    m'.SeesStore m kind rs ea := by
  constructor
  case word =>
    rw [Window.read, h.readBytes_whole (.inl rfl), Store.bytes_eq]
    exact congrArg Except.ok (Bytes.toWord_ofWord kind.size (kind.value m.regs rs))
  case completes =>
    intro l i hi hload hgo haddress hwidth
    rw [execute_of_ofWord hi]
    exact MemoryInstr.completes_of_holds hload hgo h.holds (Window.toNat_of_mirror haddress) hwidth
  case whole => exact fun l kind' rt b hload hb hsize => h.execute_whole hload hb hsize
  case part => exact fun l kind' rt b o hload hb hin => h.execute_part hload hb hin
  case byte =>
    intro l rt i hi hload
    obtain ⟨hdone, hbyte⟩ := h.execute_byte hi hload
    refine ⟨hdone, hbyte, fun hfold => ?_⟩
    -- an offset that has not gone round is the place itself
    have hplace := Window.toNat_physical_add ea i
    rw [Window.toNat_physical] at hplace
    exact (h.execute_part hload (by omega) hi).2
  case apart => exact fun l i hi hload hapart => h.execute_apart hi hload hapart

end Machine

/-- **Loads see stores**, for every state, width, byte order and way to address. After a store of a
single element that completes, and whatever the registers have become since, a load of its place
completes if it is no wider. One of the same width delivers the low bits of the register as it was
before the store, zero-extended, sign-extended or with its bytes swapped; narrower ones deliver the
slices of what memory holds, down to single bytes. A load that has no byte in common with the store
is not affected by it. -/
theorem loads_see_stores (m m' : Machine) {s : Word} {kind : Store} {rs : Reg} {a : Address}
    (hs : m.Stores s kind rs a) (hdone : (m.execute s).failure = none)
    (hram : m'.ram = (m.execute s).machine.ram) :
    m'.SeesStore m kind rs (m.regs.effective a) :=
  (Machine.hasStored hs hdone hram).seesStore

/-- `stwbrx` stores a word with its least significant byte first. `lwz` loads it swapped and `lwbrx`
as it was, here at the mirror of the address; `lha` extends the sign of its first two bytes in
memory, and `lbz` loads the last of them. -/
theorem loads_see_stores_reversed :
    let m : Machine := ⟨((Registers.initial.setGpr 3 0x11223384#32).setGpr 4 8#32).setGpr 7
      0x80000008#32, .zeroed 16⟩
    let stored := (m.execute 0x7C60252C#32).machine
    (m.execute 0x7C60252C#32).failure = none ∧
      (stored.execute 0x80A00008#32).machine.regs.gpr.read 5 = 0x84332211#32 ∧
      (stored.execute 0x7CC03C2C#32).machine.regs.gpr.read 6 = 0x11223384#32 ∧
      (stored.execute 0xA9000008#32).machine.regs.gpr.read 8 = 0xFFFF8433#32 ∧
      (stored.execute 0x8920000B#32).machine.regs.gpr.read 9 = 0x11#32 := by
  intro m stored
  have hstore : m.Stores 0x7C60252C#32 .wordReversed 3 (.indexed 0 4) :=
    .plain (.indexed (show Fixed.stwbrx.store? = some (.wordReversed, false) from rfl) (by decide))
  have hdone : (m.execute 0x7C60252C#32).failure = none := by decide +kernel
  have hsees := loads_see_stores m stored hstore hdone rfl
  have hea : m.regs.effective (.indexed 0 4) = 8#32 := by decide +kernel
  rw [hea] at hsees
  have hlwz : stored.LoadsAt 0x80A00008#32 .word 5 8#32 :=
    .access (.displaced (show Primary.lwz.load? = some (.word, false) from rfl) (by decide)) nofun
      (by decide +kernel) (fun _ => by decide)
  have hlwbrx : stored.LoadsAt 0x7CC03C2C#32 .wordReversed 6 0x80000008#32 :=
    .access (.indexed (show Fixed.lwbrx.load? = some (.wordReversed, false) from rfl) (by decide))
      nofun (by decide +kernel) (fun _ => by decide)
  have hlha : stored.LoadsAt 0xA9000008#32 .halfAlgebraic 8 8#32 :=
    .access (.displaced (show Primary.lha.load? = some (.halfAlgebraic, false) from rfl)
      (by decide)) nofun (by decide +kernel) (fun _ => by decide)
  have hselects : Primary.lbz.Selects 0x8920000B#32 := by decide
  have hlbz : stored.LoadsAt 0x8920000B#32 .byte 9 (8#32 + BitVec.ofNat 32 3) :=
    .access (.displaced rfl hselects) nofun (by decide +kernel)
      (fun h => absurd h (not_mustAlign_of_primary hselects (by decide) rfl))
  obtain ⟨-, hswapped⟩ := hsees.whole _ _ _ _ hlwz (.inl rfl) rfl
  obtain ⟨-, hsame⟩ := hsees.whole _ _ _ _ hlwbrx (.inr rfl) rfl
  obtain ⟨-, hsigned⟩ := hsees.part _ _ _ _ 0 hlha rfl (by decide)
  obtain ⟨-, -, hlast⟩ := hsees.byte _ _ 3 (by decide) hlbz
  refine ⟨hdone, ?_, ?_, ?_, ?_⟩
  · exact hswapped.trans (by decide +kernel)
  · exact hsame.trans (by decide +kernel)
  · exact hsigned.trans (by decide +kernel)
  · exact (hlast (by decide)).trans (by decide +kernel)

/-- If memory goes on behind two gigabytes, `stw r3, 0(r4)` may write its last two bytes there. They
are read back with the word, but `lbz r5, 2(r4)` goes round to the zero at the start of memory. -/
theorem loads_see_stores_beyond :
    let m : Machine := ⟨(Registers.initial.setGpr 3 0xAABBCCDD#32).setGpr 4 0x7FFFFFFE#32,
      .zeroed 2147483652⟩
    let stored := (m.execute 0x90640000#32).machine
    (m.execute 0x90640000#32).failure = none ∧
      Window.read stored.ram 4 0x7FFFFFFE#32 = .ok 0xAABBCCDD#32 ∧
      (stored.execute 0x88A40002#32).failure = none ∧
      (stored.execute 0x88A40002#32).machine.regs.gpr.read 5 = 0#32 := by
  intro m
  have hi : Instr.ofWord 0x90640000#32 = .ok (.memory (.store .word 3 (.displaced 4 0) false)) :=
    rfl
  have hea : m.regs.effective (.displaced 4 0) = 0x7FFFFFFE#32 := by decide +kernel
  have hheld : m.ram.Holds 0x7FFFFFFE#32 4 := by
    refine ⟨rfl, ?_⟩
    rw [Ram.size_zeroed]
    decide
  have hexecute := Machine.execute_store_of_holds hi hea rfl hheld
  rw [hexecute]
  intro stored
  have hstored : stored.HasStored m .word 3 0x7FFFFFFE#32 := ⟨hheld, rfl⟩
  have hbytes : Store.word.bytes m.regs 3 = Bytes.ofWord 4 0xAABBCCDD#32 := by decide +kernel
  have hword : Window.readBytes stored.ram 0x7FFFFFFE#32 4 =
      .ok (Bytes.ofWord 4 0xAABBCCDD#32) := by
    rw [← hbytes]
    exact hstored.readBytes_whole (.inl rfl)
  have hselects : Primary.lbz.Selects 0x88A40002#32 := by decide
  have hlbz : stored.LoadsAt 0x88A40002#32 .byte 5 (0x7FFFFFFE#32 + BitVec.ofNat 32 2) :=
    .access (.displaced rfl hselects) nofun (by decide +kernel)
      (fun h => absurd h (not_mustAlign_of_primary hselects (by decide) rfl))
  obtain ⟨hdone, hbyte⟩ := hstored.execute_byte (by decide) hlbz
  have hstart : stored.ram.byte 0 = 0 := by
    rw [hstored.ram, Ram.byte_put_of_outside _ (.inl (by decide)), Ram.byte_zeroed]
  have hplace : ((0x7FFFFFFE#32).toNat + 2) % 2 ^ 31 = 0 := by decide
  rw [hplace, hstart] at hbyte
  refine ⟨rfl, ?_, hdone, hbyte⟩
  rw [Window.read, hword]
  exact congrArg Except.ok (Bytes.toWord_ofWord 4 0xAABBCCDD#32)

end Broadway
