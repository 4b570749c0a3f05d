import Mathlib.Algebra.Ring.Nat
import Broadway.Proofs.Fault.Order
import Broadway.Proofs.Memory.Footprint

/-!
# What a load depends on

A load reads its elements and nothing else of memory.

* It completes if nothing stops it and memory holds as many bytes from its address on as it
  transfers (`MemoryInstr.completes_of_holds`).
* What it leaves in the registers, and whether it fails, is decided by its elements
  (`MemoryInstr.exec_of_elements`), so writes elsewhere do not matter to it
  (`MemoryInstr.exec_of_apart`).
-/

namespace Broadway

namespace Ram

variable {ram : Ram}

/-- The bytes inside an access are held, also where their addresses go round. -/
theorem Holds.part {a b : Word} {k o n : Nat} (h : ram.Holds a k)
    (hb : b.toNat % 2 ^ 31 = a.toNat % 2 ^ 31) (hpart : o + n ≤ k) :
    ram.Holds (b + BitVec.ofNat 32 o) n := by
  obtain ⟨hcon, hfit⟩ := h
  have hplace := Window.toNat_physical_add b o
  rw [Window.toNat_physical] at hplace
  refine ⟨hcon, ?_⟩
  omega

theorem transferFault_of_holds {es : List (Word × Nat)} (h : ∀ e ∈ es, ram.Holds e.1 e.2) :
    ram.transferFault es = none := by
  induction es with
  | nil => rfl
  | cons e rest ih =>
      rw [transferFault_cons, if_pos (h e List.mem_cons_self)]
      exact ih fun x hx => h x (List.mem_cons_of_mem _ hx)

theorem slice_one (ram : Ram) (i : Nat) : ram.slice i 1 = [ram.byte i] := rfl

/-- Bytes outside the range that was written are read as before. -/
theorem slice_put_of_outside (ram : Ram) {offset i n : Nat} {data : List Byte}
    (h : i + n ≤ offset ∨ offset + data.length ≤ i) :
    (ram.put offset data).slice i n = ram.slice i n := by
  apply List.ext_getElem
  · rw [length_slice, length_slice]
  · intro j hj _
    have hn : j < n := by simpa using hj
    rw [getElem_slice, getElem_slice, byte_put_of_outside ram (by omega)]

end Ram

/-! ## Elements that are read -/

namespace Loading

variable {ram ram' : Ram}

theorem element_put_of_outside (ram : Ram) {offset n : Nat} {data : List Byte} {a : Word}
    (h : a.toNat % 2 ^ 31 + n ≤ offset ∨ offset + data.length ≤ a.toNat % 2 ^ 31) :
    element (ram.put offset data) a n = element ram a n := by
  have hholds := Ram.holds_congr (Ram.size_put ram offset data) (Ram.connected_put ram offset data)
  rw [element_eq, element_eq, Ram.slice_put_of_outside ram h]
  simp only [hholds]

/-- A row of words is decided by its elements. -/
theorem words_of_elements {n : Nat} {rd : Reg} {a : Word} {r : Registers}
    (h : ∀ i < n, element ram' (a + BitVec.ofNat 32 (4 * i)) 4 =
      element ram (a + BitVec.ofNat 32 (4 * i)) 4) :
    words ram' n rd a r = words ram n rd a r := by
  induction n generalizing rd a r with
  | zero => rfl
  | succ n ih =>
      have hfirst : element ram' a 4 = element ram a 4 := by simpa using h 0 (Nat.succ_pos n)
      rw [words, words, hfirst]
      cases element ram a 4 with
      | error f => rfl
      | ok bytes =>
          refine ih fun i hi => ?_
          have hnext : a + 4 + BitVec.ofNat 32 (4 * i) = a + BitVec.ofNat 32 (4 * (i + 1)) := by
            bv_omega
          rw [hnext]
          exact h (i + 1) (Nat.succ_lt_succ hi)

/-- So is a row of bytes. -/
theorem bytes_of_elements {rd : Reg} {ea : Word} {n i : Nat} {r : Registers}
    (h : ∀ j < n, element ram' (ea + BitVec.ofNat 32 (i + j)) 1 =
      element ram (ea + BitVec.ofNat 32 (i + j)) 1) :
    bytes ram' rd ea n i r = bytes ram rd ea n i r := by
  induction n generalizing i r with
  | zero => rfl
  | succ n ih =>
      have hfirst : element ram' (ea + BitVec.ofNat 32 i) 1 =
          element ram (ea + BitVec.ofNat 32 i) 1 := h 0 (Nat.succ_pos n)
      simp only [bytes, hfirst]
      cases element ram (ea + BitVec.ofNat 32 i) 1 with
      | error f => rfl
      | ok b =>
          refine ih fun j hj => ?_
          rw [Nat.add_assoc, Nat.add_comm 1 j]
          exact h (j + 1) (Nat.succ_lt_succ hj)

theorem quantizedLanes_of_elements {q : Quantizer} {ea : Word} {one : Bool}
    (h : ∀ e ∈ Quantizer.elements (.ok q) ea one,
      element ram' e.1 e.2 = element ram e.1 e.2) :
    quantizedLanes ram' q ea one = quantizedLanes ram q ea one := by
  cases one with
  | true =>
      have hfirst := h (ea, q.type.size) List.mem_cons_self
      simp only [quantizedLanes, hfirst, if_true]
  | false =>
      have hfirst := h (ea, q.type.size) List.mem_cons_self
      have hsecond := h (ea + BitVec.ofNat 32 q.type.size, q.type.size)
        (List.mem_cons_of_mem _ List.mem_cons_self)
      simp only [quantizedLanes, hfirst, hsecond]

end Loading

/-! ## Loads -/

namespace MemoryInstr

/-- The number of bytes that an instruction transfers. -/
def width (i : MemoryInstr) (r : Registers) : Nat := ((i.elements r).map Prod.snd).sum

variable {i : MemoryInstr} {r : Registers}

/-- The bytes of a row of elements of one size. -/
theorem sum_row (n w : Nat) (place : Nat → Word) :
    (((List.range n).map fun i => (place i, w)).map Prod.snd).sum = n * w := by
  simp only [List.map_map, Function.comp_def, List.map_const', List.length_range,
    List.sum_replicate_nat]

/-- The elements of a load follow one another from its effective address on. -/
theorem exists_place (hload : i.storing? r = none) {e : Word × Nat} (he : e ∈ i.elements r) :
    ∃ o, e.1 = r.effective i.address + BitVec.ofNat 32 o ∧ o + e.2 ≤ i.width r := by
  cases i with
  | load kind rt a update =>
      obtain rfl := List.mem_singleton.1 he
      exact ⟨0, (BitVec.add_zero _).symm, by simp [width, elements]⟩
  | loadReserve rd a =>
      obtain rfl := List.mem_singleton.1 he
      exact ⟨0, (BitVec.add_zero _).symm, by simp [width, elements]⟩
  | loadMultiple first a =>
      obtain ⟨j, hj, rfl⟩ := List.mem_map.1 he
      have hlt := List.mem_range.1 hj
      refine ⟨4 * j, rfl, ?_⟩
      rw [width, elements, sum_row]
      omega
  | loadString rd a count =>
      obtain ⟨j, hj, rfl⟩ := List.mem_map.1 he
      have hlt := List.mem_range.1 hj
      refine ⟨j, rfl, ?_⟩
      rw [width, elements, sum_row]
      omega
  | loadQuantized frt a one gqr update =>
      simp only [width, elements] at he ⊢
      cases hq : Quantizer.forLoad (r.gqr.read gqr) with
      | error e =>
          -- a reserved type has no elements
          rw [hq] at he
          cases he
      | ok q =>
          rw [hq] at he
          cases one with
          | true =>
              obtain rfl := List.mem_singleton.1 he
              exact ⟨0, (BitVec.add_zero _).symm, by simp [Quantizer.elements]⟩
          | false =>
              obtain rfl | he := List.mem_cons.1 he
              · exact ⟨0, (BitVec.add_zero _).symm, by simp [Quantizer.elements]⟩
              · obtain rfl := List.mem_singleton.1 he
                exact ⟨q.type.size, rfl, by simp [Quantizer.elements]⟩
  | _ => contradiction

/-- A load completes over memory that holds as many bytes as it transfers. -/
theorem completes_of_holds {m : Machine} (hload : i.storing? m.regs = none)
    (hgo : i.stopped? m.regs = none) {a : Word} {k : Nat} (hheld : m.ram.Holds a k)
    (haddress : (m.regs.effective i.address).toNat % 2 ^ 31 = a.toNat % 2 ^ 31)
    (hwidth : i.width m.regs ≤ k) : (i.exec m).failure = none := by
  rw [failure_exec, hgo, Option.none_or]
  refine Ram.transferFault_of_holds fun e he => ?_
  obtain ⟨o, hplace, hpart⟩ := exists_place hload he
  rw [hplace]
  exact hheld.part haddress (Nat.le_trans hpart hwidth)

/-- Memories in which its elements are the same are all one to a load. -/
theorem exec_of_elements {ram ram' : Ram} (hload : i.storing? r = none)
    (h : ∀ e ∈ i.elements r, Loading.element ram' e.1 e.2 = Loading.element ram e.1 e.2) :
    (i.exec ⟨r, ram'⟩).failure = (i.exec ⟨r, ram⟩).failure ∧
      (i.exec ⟨r, ram'⟩).machine.regs = (i.exec ⟨r, ram⟩).machine.regs := by
  cases i with
  | load kind rt a update =>
      have helement := h (r.effective a, kind.size) List.mem_cons_self
      simp only [exec, Loading.single, helement]
      cases alignmentFault kind.aligned (r.effective a) with
      | some f => exact ⟨rfl, rfl⟩
      | none =>
          cases Loading.element ram (r.effective a) kind.size <;> exact ⟨rfl, rfl⟩
  | loadReserve rd a =>
      have helement := h (r.effective a, 4) List.mem_cons_self
      simp only [exec, Loading.reserving, helement]
      cases alignmentFault true (r.effective a) with
      | some f => exact ⟨rfl, rfl⟩
      | none =>
          cases Loading.element ram (r.effective a) 4 <;> exact ⟨rfl, rfl⟩
  | loadMultiple first a =>
      have hwords : Loading.words ram' (32 - first.toNat) first (r.effective a) r =
          Loading.words ram (32 - first.toNat) first (r.effective a) r :=
        Loading.words_of_elements fun j hj =>
          h (r.effective a + BitVec.ofNat 32 (4 * j), 4)
            (List.mem_map.2 ⟨j, List.mem_range.2 hj, rfl⟩)
      simp only [exec, Loading.multiple, hwords]
      cases alignmentFault true (r.effective a) <;> exact ⟨rfl, rfl⟩
  | loadString rd a count =>
      have hbytes : Loading.bytes ram' rd (r.effective a) (r.stringCount count) 0 r =
          Loading.bytes ram rd (r.effective a) (r.stringCount count) 0 r := by
        refine Loading.bytes_of_elements fun j hj => ?_
        rw [Nat.zero_add]
        exact h (r.effective a + BitVec.ofNat 32 j, 1)
          (List.mem_map.2 ⟨j, List.mem_range.2 hj, rfl⟩)
      simp only [exec, Loading.string, hbytes]
      cases a.registers.find? (Loading.covers rd (r.stringCount count)) <;> exact ⟨rfl, rfl⟩
  | loadQuantized frt a one gqr update =>
      simp only [exec, Loading.quantized]
      cases hq : Quantizer.forLoad (r.gqr.read gqr) with
      | error e => exact ⟨rfl, rfl⟩
      | ok q =>
          have hlanes : Loading.quantizedLanes ram' q (r.effective a) one =
              Loading.quantizedLanes ram q (r.effective a) one := by
            refine Loading.quantizedLanes_of_elements fun e he => h e ?_
            rwa [elements, hq]
          simp only [hlanes]
          cases Loading.quantizedLanes ram q (r.effective a) one <;> exact ⟨rfl, rfl⟩
  | _ => contradiction

/-- A load does not see writes apart from its elements. -/
theorem exec_of_apart {ram : Ram} {offset : Nat} {data : List Byte} (hload : i.storing? r = none)
    (h : ∀ e ∈ i.elements r, e.1.toNat % 2 ^ 31 + e.2 ≤ offset ∨
      offset + data.length ≤ e.1.toNat % 2 ^ 31) :
    (i.exec ⟨r, ram.put offset data⟩).failure = (i.exec ⟨r, ram⟩).failure ∧
      (i.exec ⟨r, ram.put offset data⟩).machine.regs = (i.exec ⟨r, ram⟩).machine.regs :=
  exec_of_elements hload fun e he => Loading.element_put_of_outside ram (h e he)

end MemoryInstr

end Broadway
