import Broadway.Exec
import Broadway.Proofs.Bytes
import Broadway.Proofs.Memory.Transfer

/-!
# The footprint of an instruction

Only storing instructions touch guest memory, and each only in a range of effective addresses that
its registers tell (`MemoryInstr.range?`). Addresses of a range go round the end of the address
space, and each stands for the offset `Window.physical` of memory.

* A byte that changes lies in the range (`Instr.Footprint.changed`), since the elements of the
  instruction do (`MemoryInstr.mem_elements_range`).
* Only the first two gigabytes have addresses. Memory may be larger, and an element that starts
  before that limit is written straight on across it, not round to the start of memory; so the bytes
  there have changed at two gigabytes above the offsets of the range (`Instr.Footprint.beyond`).
* The stores that transfer rows and the clearing of a block fill their whole range when they
  complete (`Instr.Footprint.filled`): their elements do not overlap, so each byte is the one that
  was written last there (`Storing.byte_of_writeAll`).
-/

namespace Broadway

/-! ## Offsets -/

namespace Window

/-- The offset of an address some bytes after another one. -/
theorem toNat_physical_add (a : Word) (k : Nat) :
    (physical (a + BitVec.ofNat 32 k)).toNat = (a.toNat + k) % 2 ^ 31 := by
  rw [toNat_physical, BitVec.toNat_add, BitVec.toNat_ofNat]
  omega

/-- In units of `w` bytes offsets go round on their own. -/
theorem offset_in_units {w t j q : Nat} (hj : j < w) :
    (w * t + j) % (w * q) = w * (t % q) + j := by
  rw [Nat.mod_mul, Nat.mul_add_mod, Nat.mod_eq_of_lt hj, Nat.mul_add_div (by omega),
    Nat.div_eq_of_lt hj, Nat.add_zero, Nat.add_comm]

end Window

namespace Storing

/-- Two elements lie at offsets that have none in common. -/
def Apart (e e' : Word × List Byte) : Prop :=
  e.1.toNat % 2 ^ 31 + e.2.length ≤ e'.1.toNat % 2 ^ 31 ∨
    e'.1.toNat % 2 ^ 31 + e'.2.length ≤ e.1.toNat % 2 ^ 31

/-- An element and the one behind it lie apart, also where the offsets go round. -/
theorem apart_following (a : Word) {first second : List Byte}
    (h : first.length + second.length ≤ 2 ^ 31) :
    Apart (a, first) (a + BitVec.ofNat 32 first.length, second) := by
  have hnext := Window.toNat_physical_add a first.length
  rw [Window.toNat_physical] at hnext
  show a.toNat % 2 ^ 31 + first.length ≤ (a + BitVec.ofNat 32 first.length).toNat % 2 ^ 31 ∨
    (a + BitVec.ofNat 32 first.length).toNat % 2 ^ 31 + second.length ≤ a.toNat % 2 ^ 31
  omega

/-- A run of writes completes only if memory holds all its elements. -/
theorem holds_of_writeAll {ram ram' : Ram} {es : List (Word × List Byte)}
    (h : writeAll ram es = (none, ram')) : ∀ e ∈ es, ram.Holds e.1 e.2.length := by
  induction es generalizing ram with
  | nil => exact fun e he => absurd he List.not_mem_nil
  | cons x rest ih =>
      rw [writeAll_cons] at h
      split at h
      · next hheld =>
        intro e he
        rcases List.mem_cons.1 he with rfl | hin
        · exact hheld
        · exact (Ram.holds_congr (Ram.size_put ..) (Ram.connected_put ..) _ _).1 (ih h e hin)
      · cases h

/-- A run of writes that completes leaves the bytes of every element in memory, if its elements
lie apart. -/
theorem byte_of_writeAll {ram ram' : Ram} {es : List (Word × List Byte)}
    (h : writeAll ram es = (none, ram')) (hapart : es.Pairwise Apart)
    {e : Word × List Byte} (he : e ∈ es) {j : Nat} (hj : j < e.2.length) :
    ram'.byte (e.1.toNat % 2 ^ 31 + j) = e.2[j] := by
  induction es generalizing ram with
  | nil => contradiction
  | cons x rest ih =>
      obtain ⟨hfirst, hrest⟩ := List.pairwise_cons.1 hapart
      rw [writeAll_cons] at h
      split at h
      · next hheld =>
        rcases List.mem_cons.1 he with rfl | hin
        · -- what the rest of the run writes lies elsewhere
          have hput :
              (ram.put (e.1.toNat % 2 ^ 31) e.2).byte (e.1.toNat % 2 ^ 31 + j) = e.2[j] := by
            rw [Ram.byte_put hheld.2, if_pos (by omega), Nat.add_sub_cancel_left,
              ← List.getElem_eq_getD]
          rw [← hput]
          refine Classical.byContradiction fun hne => ?_
          have hram' : (writeAll (ram.put (e.1.toNat % 2 ^ 31) e.2) rest).2 = ram' := by rw [h]
          rw [← hram'] at hne
          obtain ⟨x, hx, hlo, hhi⟩ := byte_writeAll hne
          rcases hfirst x hx with hbefore | hbehind <;> omega
        · exact ih h hrest hin
      · cases h

/-- What a run of writes that lie apart has written is read back. -/
theorem readBytes_of_writeAll {ram ram' : Ram} {es : List (Word × List Byte)}
    (h : writeAll ram es = (none, ram')) (hapart : es.Pairwise Apart)
    {e : Word × List Byte} (he : e ∈ es) : Window.readBytes ram' e.1 e.2.length = .ok e.2 := by
  have hram : (writeAll ram es).2 = ram' := by rw [h]
  have hheld : ram'.Holds e.1 e.2.length := by
    rw [← hram, Ram.holds_congr (size_writeAll ram es) (connected_writeAll ram es)]
    exact holds_of_writeAll h e he
  rw [Window.readBytes_eq, if_pos hheld]
  congr 1
  apply List.ext_getElem
  · rw [Ram.length_slice]
  · intro i _ hi
    rw [Ram.getElem_slice]
    exact byte_of_writeAll h hapart he hi

/-- A row of `c` elements of `w` bytes each, one behind the other. -/
def row (start : Word) (w c : Nat) (data : Nat → List Byte) : List (Word × List Byte) :=
  (List.range c).map fun i => (start + BitVec.ofNat 32 (w * i), data i)

variable {start : Word} {w c : Nat} {data : Nat → List Byte}

/-- The elements of an aligned row lie apart, as long as it does not go round all of memory. -/
theorem pairwise_row (hlen : ∀ i, (data i).length = w) (hunit : w ∣ 2 ^ 31)
    (halign : w ∣ start.toNat) (hfit : w * c ≤ 2 ^ 31) : (row start w c data).Pairwise Apart := by
  obtain ⟨q, hq⟩ := hunit
  obtain ⟨s, hs⟩ := halign
  have hw : 0 < w := Nat.pos_of_ne_zero fun h => by
    rw [h, Nat.zero_mul] at hq
    contradiction
  have hcq : c ≤ q := Nat.le_of_mul_le_mul_left (hq ▸ hfit) hw
  have hoffset (i : Nat) :
      (start + BitVec.ofNat 32 (w * i)).toNat % 2 ^ 31 = w * ((s + i) % q) := by
    rw [← Window.toNat_physical, Window.toNat_physical_add, hs, ← Nat.mul_add, hq,
      Nat.mul_mod_mul_left]
  rw [row, List.pairwise_map]
  refine List.Pairwise.imp_of_mem ?_ List.pairwise_lt_range
  intro i j hi hj hij
  have hjc : j < c := List.mem_range.1 hj
  -- two elements stand in different units
  have hne : (s + i) % q ≠ (s + j) % q := by
    intro heq
    have hdiff := Nat.sub_mod_eq_zero_of_mod_eq heq.symm
    rw [Nat.mod_eq_of_lt (by omega)] at hdiff
    omega
  show _ ≤ _ ∨ _ ≤ _
  simp only [hoffset, hlen]
  rcases Nat.lt_or_gt_of_ne hne with hlt | hgt
  · exact .inl (Nat.mul_le_mul_left w hlt)
  · exact .inr (Nat.mul_le_mul_left w hgt)

/-- An aligned row that is written to its end fills its range. -/
theorem byte_of_row {ram ram' : Ram} (hlen : ∀ i, (data i).length = w) (hunit : w ∣ 2 ^ 31)
    (halign : w ∣ start.toNat) (hfit : w * c ≤ 2 ^ 31)
    (h : writeAll ram (row start w c data) = (none, ram')) {k : Nat} (hk : k < w * c) :
    ram'.byte (Window.physical (start + BitVec.ofNat 32 k)).toNat
      = (data (k / w)).getD (k % w) 0 := by
  have hw : 0 < w := Nat.pos_of_ne_zero fun h => by
    rw [h, Nat.zero_mul] at hk
    contradiction
  have hrest : k % w < w := Nat.mod_lt k hw
  have hmem : (start + BitVec.ofNat 32 (w * (k / w)), data (k / w)) ∈ row start w c data :=
    List.mem_map.2 ⟨k / w, List.mem_range.2 (Nat.div_lt_of_lt_mul hk), rfl⟩
  have hbyte := byte_of_writeAll h (pairwise_row hlen hunit halign hfit) hmem
    (j := k % w) (by rw [hlen]; exact hrest)
  -- the byte stands in its element as far on as its address says
  have hoffset : (Window.physical (start + BitVec.ofNat 32 k)).toNat =
      (start + BitVec.ofNat 32 (w * (k / w))).toNat % 2 ^ 31 + k % w := by
    obtain ⟨q, hq⟩ := hunit
    obtain ⟨s, hs⟩ := halign
    rw [← Window.toNat_physical, Window.toNat_physical_add, Window.toNat_physical_add, hs, hq,
      ← Nat.mul_add, Nat.mul_mod_mul_left, ← Window.offset_in_units hrest, Nat.mul_add,
      Nat.add_assoc, Nat.div_add_mod]
  rw [hoffset, hbyte, ← List.getElem_eq_getD]

/-- An element of an aligned row that is written to its end is read back. -/
theorem readBytes_of_row {ram ram' : Ram} (hlen : ∀ i, (data i).length = w) (hunit : w ∣ 2 ^ 31)
    (halign : w ∣ start.toNat) (hfit : w * c ≤ 2 ^ 31)
    (h : writeAll ram (row start w c data) = (none, ram')) {i : Nat} (hi : i < c) :
    Window.readBytes ram' (start + BitVec.ofNat 32 (w * i)) w = .ok (data i) := by
  have hmem : (start + BitVec.ofNat 32 (w * i), data i) ∈ row start w c data :=
    List.mem_map.2 ⟨i, List.mem_range.2 hi, rfl⟩
  have hread := readBytes_of_writeAll h (pairwise_row hlen hunit halign hfit) hmem
  simp only [hlen] at hread
  exact hread

end Storing

/-! ## The range of an instruction -/

/-- The number of bytes of a quantized store; a reserved type has none. -/
def Quantizer.span (q : Except Invalid Quantizer) (one : Bool) : Nat :=
  match q with
  | .error _ => 0
  | .ok q => if one then q.type.size else 2 * q.type.size

theorem Quantizer.span_le (q : Except Invalid Quantizer) (one : Bool) : span q one ≤ 8 := by
  cases q with
  | error err => exact Nat.zero_le 8
  | ok q =>
      have hsize : q.type.size ≤ 4 := by cases q.type <;> decide
      simp only [span]
      split <;> omega

/-- The addresses that an instruction may write: the first one and their number. A load writes
none, and a conditional store none but the reserved ones. -/
def MemoryInstr.range? (i : MemoryInstr) (r : Registers) : Option (Word × Nat) :=
  match i with
  | .store kind _ address _ => some (r.effective address, kind.size)
  | .storeConditional _ address =>
    some (r.effective address, if r.reservation = some (r.effective address) then 4 else 0)
  | .storeMultiple rs address => some (r.effective address, 4 * (32 - rs.toNat))
  | .storeString _ address count => some (r.effective address, r.stringCount count)
  | .storeQuantized _ address one gqr _ =>
    some (r.effective address, Quantizer.span (Quantizer.forStore (r.gqr.read gqr)) one)
  | .clearBlock address => some (r.effective address &&& ~~~31#32, 32)
  | _ => none

/-- The range of an instruction; only those of memory have one. -/
def Instr.range? : Instr → Registers → Option (Word × Nat)
  | .memory i, r => i.range? r
  | _, _ => none

/-- Byte `k` of the range of an instruction that fills it, counted from the most significant byte
of a register on: consecutive registers for the transfers of rows, zero for a cleared block. -/
def MemoryInstr.fill? (i : MemoryInstr) (r : Registers) (k : Nat) : Option Byte :=
  match i with
  | .storeMultiple rs _ | .storeString rs _ _ =>
    some ((r.gpr.read (rs + BitVec.ofNat 5 (k / 4))).extractLsb' (24 - 8 * (k % 4)) 8)
  | .clearBlock _ => some 0
  | _ => none

def Instr.fill? : Instr → Registers → Nat → Option Byte
  | .memory i, r, k => i.fill? r k
  | _, _, _ => none

namespace MemoryInstr

variable {i : MemoryInstr} {r : Registers}

theorem exists_storing_of_range {start : Word} {len : Nat} (h : i.range? r = some (start, len)) :
    ∃ s, i.storing? r = some s := by
  cases i <;> first | exact ⟨_, rfl⟩ | contradiction

/-- The elements of an instruction lie in its range. -/
theorem mem_elements_range {start : Word} {len : Nat} (h : i.range? r = some (start, len))
    {e : Word × Nat} (he : e ∈ i.elements r) :
    ∃ o, e.1 = start + BitVec.ofNat 32 o ∧ o + e.2 ≤ len := by
  cases i with
  | store kind rs address update =>
      cases h
      obtain rfl := List.mem_singleton.1 he
      exact ⟨0, by simp, by simp⟩
  | storeConditional rs address =>
      cases h
      by_cases hreserved : r.reservation = some (r.effective address)
      · rw [elements, if_pos hreserved] at he
        obtain rfl := List.mem_singleton.1 he
        exact ⟨0, by simp, by simp [hreserved]⟩
      · rw [elements, if_neg hreserved] at he
        contradiction
  | storeMultiple rs address =>
      cases h
      obtain ⟨n, hn, rfl⟩ := List.mem_map.1 he
      have hlt : n < 32 - rs.toNat := List.mem_range.1 hn
      exact ⟨4 * n, rfl, by show 4 * n + 4 ≤ _; omega⟩
  | storeString rs address count =>
      cases h
      obtain ⟨n, hn, rfl⟩ := List.mem_map.1 he
      exact ⟨n, rfl, List.mem_range.1 hn⟩
  | storeQuantized frs address one gqr update =>
      cases h
      cases hq : Quantizer.forStore (r.gqr.read gqr) with
      | error err =>
          simp only [elements, Quantizer.elements, hq] at he
          contradiction
      | ok q =>
          simp only [elements, Quantizer.elements, hq] at he
          cases one with
          | true =>
              obtain rfl := List.mem_singleton.1 he
              exact ⟨0, by simp, by simp [Quantizer.span]⟩
          | false =>
              rcases List.mem_cons.1 he with rfl | hin
              · exact ⟨0, by simp, by simp [Quantizer.span]; omega⟩
              · obtain rfl := List.mem_singleton.1 hin
                exact ⟨q.type.size, rfl, by simp [Quantizer.span]; omega⟩
  | clearBlock address =>
      cases h
      obtain rfl := List.mem_singleton.1 he
      exact ⟨0, by simp, by simp⟩
  | _ => contradiction

theorem ram_of_storing {m : Machine} {s : Storing} (h : i.storing? m.regs = some (.ok s)) :
    (i.exec m).machine.ram = (Storing.writeAll m.ram s.elements).2 := by
  rw [exec_of_storing h, Storing.exec?]
  rcases hw : Storing.writeAll m.ram s.elements with ⟨_ | err, ram⟩
  · rw [Storing.exec_of_written hw]
  · rw [Storing.exec_of_refused hw]

/-- What has no range leaves memory alone: it is a load. -/
theorem ram_of_range_none {m : Machine} (h : i.range? m.regs = none) :
    (i.exec m).machine.ram = m.ram := by
  cases i with
  | load kind rt address update =>
      rcases Loading.single_cases kind rt address update m with ⟨f, hfail⟩ | ⟨bytes, -, hdone⟩
      · rw [exec, hfail]
        rfl
      · rw [exec, hdone]
        rfl
  | loadReserve rd address =>
      rcases Loading.reserving_cases rd address m with ⟨f, hfail⟩ | ⟨bytes, -, hdone⟩
      · rw [exec, hfail]
        rfl
      · rw [exec, hdone]
        rfl
  | loadMultiple rd address =>
      rcases Loading.multiple_cases rd address m with ⟨a, hfail⟩ | hrow
      · rw [exec, hfail]
        rfl
      · rw [exec, hrow]
  | loadString rd address count =>
      rcases Loading.string_cases rd address count m with ⟨e, hfail⟩ | ⟨-, hrow⟩
      · rw [exec, hfail]
        rfl
      · rw [exec, hrow]
  | loadQuantized frt address one gqr update =>
      rcases Loading.quantized_cases frt address one gqr update m with
        ⟨f, hfail⟩ | ⟨q, lanes, -, -, hdone⟩
      · rw [exec, hfail]
        rfl
      · rw [exec, hdone]
        rfl
  | _ => contradiction

/-- No instruction stores more than all registers. -/
theorem range_le {start : Word} {len : Nat} (h : i.range? r = some (start, len)) : len ≤ 128 := by
  cases i with
  | store kind rs address update =>
      cases h
      cases kind <;> decide
  | storeConditional rs address =>
      cases h
      split <;> omega
  | storeMultiple rs address =>
      cases h
      omega
  | storeString rs address count =>
      cases h
      exact Nat.le_of_lt (r.stringCount_lt count)
  | storeQuantized frs address one gqr update =>
      cases h
      exact Nat.le_trans (Quantizer.span_le ..) (by decide)
  | clearBlock address =>
      cases h
      omega
  | _ => contradiction

/-- A byte that a transfer changes lies in its range, or two gigabytes above it. -/
theorem exists_range_of_changed {m : Machine} {n : Nat}
    (h : (i.exec m).machine.ram.byte n ≠ m.ram.byte n) :
    ∃ start len, i.range? m.regs = some (start, len) ∧
      ∃ k < len, n = (Window.physical (start + BitVec.ofNat 32 k)).toNat ∨
        n = 2 ^ 31 + (Window.physical (start + BitVec.ofNat 32 k)).toNat := by
  cases hrange : i.range? m.regs with
  | none =>
      rw [ram_of_range_none hrange] at h
      exact absurd rfl h
  | some range =>
      obtain ⟨start, len⟩ := range
      refine ⟨start, len, rfl, ?_⟩
      obtain ⟨f | s, hs⟩ := exists_storing_of_range hrange
      · rw [exec_of_storing hs] at h
        exact absurd rfl h
      · rw [ram_of_storing hs] at h
        obtain ⟨e, he, hlo, hhi⟩ := Storing.byte_writeAll h
        have hmem : (e.1, e.2.length) ∈ i.elements m.regs := by
          rw [← elements_of_storing hs]
          exact List.mem_map_of_mem he
        obtain ⟨o, haddress, hfit⟩ := mem_elements_range hrange hmem
        have hoffset : e.1.toNat % 2 ^ 31 = (start.toNat + o) % 2 ^ 31 := by
          rw [show e.1 = _ from haddress, ← Window.toNat_physical, Window.toNat_physical_add]
        have hlen := range_le hrange
        refine ⟨o + (n - e.1.toNat % 2 ^ 31), by simp only at hfit; omega, ?_⟩
        rw [Window.toNat_physical_add]
        simp only at hfit
        omega

/-- A storing instruction that completes has written all of its elements. -/
theorem writeAll_of_completed {m : Machine} {s : Except Failure Storing}
    (hs : i.storing? m.regs = some s) (hdone : (i.exec m).failure = none) :
    ∃ t, s = .ok t ∧ Storing.writeAll m.ram t.elements = (none, (i.exec m).machine.ram) := by
  rw [exec_of_storing hs] at hdone ⊢
  cases s with
  | error f => cases hdone
  | ok t => exact ⟨t, rfl, Storing.writeAll_of_completed hdone⟩

end MemoryInstr

/-! ## Ranges that are filled -/

/-- An address passes the check of alignment only as a multiple of four. -/
theorem dvd_of_alignmentFault {a : Word} (h : alignmentFault true a = none) : 4 ∣ a.toNat := by
  rw [alignmentFault_eq] at h
  simpa using h

/-- A cache block starts at a multiple of its size. -/
theorem dvd_of_block (a : Word) : 32 ∣ (a &&& ~~~31#32).toNat := by
  have hmod : (a &&& ~~~31#32).toNat % 2 ^ 5 = 0 := by
    have hmask : (~~~31#32).setWidth 5 = 0#5 := rfl
    rw [← BitVec.toNat_setWidth, BitVec.setWidth_and, hmask, BitVec.and_zero]
    rfl
  exact Nat.dvd_of_mod_eq_zero hmod

namespace MemoryInstr

variable {m : Machine} {rs : Reg} {address : Address}

/-- A multiple store that completes has written an aligned row of words. -/
theorem written_of_storeMultiple (hdone : ((storeMultiple rs address).exec m).failure = none) :
    4 ∣ (m.regs.effective address).toNat ∧
      Storing.writeAll m.ram (Storing.row (m.regs.effective address) 4 (32 - rs.toNat) fun i =>
        Bytes.ofWord 4 (m.regs.gpr.read (rs + BitVec.ofNat 5 i))) =
      (none, ((storeMultiple rs address).exec m).machine.ram) := by
  obtain ⟨s, hs, hw⟩ := writeAll_of_completed rfl hdone
  have haligned : 4 ∣ (m.regs.effective address).toNat := by
    refine dvd_of_alignmentFault ?_
    unfold Storing.multiple at hs
    simp only at hs
    split at hs
    · cases hs
    · assumption
  rw [Storing.multiple_ok hs] at hw
  exact ⟨haligned, hw⟩

theorem byte_of_storeMultiple (hdone : ((storeMultiple rs address).exec m).failure = none) {k : Nat}
    (hk : k < 4 * (32 - rs.toNat)) :
    ((storeMultiple rs address).exec m).machine.ram.byte
        (Window.physical (m.regs.effective address + BitVec.ofNat 32 k)).toNat
      = (m.regs.gpr.read (rs + BitVec.ofNat 5 (k / 4))).extractLsb' (24 - 8 * (k % 4)) 8 := by
  obtain ⟨haligned, hw⟩ := written_of_storeMultiple hdone
  have hlt : k % 4 < 4 := Nat.mod_lt k (by decide)
  rw [Storing.byte_of_row (fun _ => Bytes.length_ofWord 4 _) (by decide) haligned (by omega) hw hk,
    ← List.getElem_eq_getD (h := by rw [Bytes.length_ofWord]; exact hlt), Bytes.getElem_ofWord]
  congr 1
  omega

/-- A string store that completes has written a row of single bytes. -/
theorem written_of_storeString {count : ByteCount}
    (hdone : ((storeString rs address count).exec m).failure = none) :
    Storing.writeAll m.ram
        (Storing.row (m.regs.effective address) 1 (m.regs.stringCount count) fun i =>
          [(m.regs.gpr.read (rs + BitVec.ofNat 5 (i / 4))).extractLsb' (24 - 8 * (i % 4)) 8]) =
      (none, ((storeString rs address count).exec m).machine.ram) := by
  obtain ⟨s, hs, hw⟩ := writeAll_of_completed rfl hdone
  cases hs
  have hrow : (Storing.string rs address count m.regs).elements =
      Storing.row (m.regs.effective address) 1 (m.regs.stringCount count) fun i =>
        [(m.regs.gpr.read (rs + BitVec.ofNat 5 (i / 4))).extractLsb' (24 - 8 * (i % 4)) 8] := by
    simp only [Storing.string, Storing.row, Nat.one_mul]
  rw [hrow] at hw
  exact hw

theorem byte_of_storeString {count : ByteCount}
    (hdone : ((storeString rs address count).exec m).failure = none) {k : Nat}
    (hk : k < m.regs.stringCount count) :
    ((storeString rs address count).exec m).machine.ram.byte
        (Window.physical (m.regs.effective address + BitVec.ofNat 32 k)).toNat
      = (m.regs.gpr.read (rs + BitVec.ofNat 5 (k / 4))).extractLsb' (24 - 8 * (k % 4)) 8 := by
  have hw := written_of_storeString hdone
  have hcount := m.regs.stringCount_lt count
  have hunit : 1 ∣ 2 ^ 31 := Nat.one_dvd _
  have hfit : 1 * m.regs.stringCount count ≤ 2 ^ 31 := by omega
  have hin : k < 1 * m.regs.stringCount count := by omega
  have hbyte :=
    Storing.byte_of_row (fun _ => List.length_singleton) hunit (Nat.one_dvd _) hfit hw hin
  rw [Nat.div_one, Nat.mod_one] at hbyte
  exact hbyte

theorem byte_of_clearBlock (hdone : ((clearBlock address).exec m).failure = none) {k : Nat}
    (hk : k < 32) :
    ((clearBlock address).exec m).machine.ram.byte
      (Window.physical
        ((m.regs.effective address &&& ~~~31#32) + BitVec.ofNat 32 k)).toNat = 0 := by
  obtain ⟨s, hs, hw⟩ := writeAll_of_completed rfl hdone
  cases hs
  have hrow : (Storing.clearBlock address m.regs).elements =
      Storing.row (m.regs.effective address &&& ~~~31#32) 32 1 fun _ => List.replicate 32 0 := by
    simp [Storing.clearBlock, Storing.row, Window.cacheLineSize]
  rw [hrow] at hw
  have hlt : k % 32 < (List.replicate 32 (0 : Byte)).length := Nat.mod_lt k (by decide)
  rw [Storing.byte_of_row (fun _ => List.length_replicate) (by decide) (dvd_of_block _) (by decide)
    hw hk, ← List.getElem_eq_getD (h := hlt)]
  exact List.getElem_replicate ..

/-- A transfer that completes has filled its range, if it is one that fills it. -/
theorem byte_of_fill {i : MemoryInstr} (hdone : (i.exec m).failure = none) {start : Word}
    {len : Nat} (hrange : i.range? m.regs = some (start, len)) {k : Nat} (hk : k < len) {b : Byte}
    (hb : i.fill? m.regs k = some b) :
    (i.exec m).machine.ram.byte (Window.physical (start + BitVec.ofNat 32 k)).toNat = b := by
  cases i with
  | storeMultiple rs address =>
      cases hrange
      cases hb
      exact byte_of_storeMultiple hdone hk
  | storeString rs address count =>
      cases hrange
      cases hb
      exact byte_of_storeString hdone hk
  | clearBlock address =>
      cases hrange
      cases hb
      exact byte_of_clearBlock hdone hk
  | _ => contradiction

end MemoryInstr

/-! ## Every word -/

/-- What executing an instruction may have done to guest memory. -/
structure Instr.Footprint (i : Instr) (m : Machine) (o : Outcome) : Prop where
  /-- An instruction without a range leaves memory as it was. -/
  kept : i.range? m.regs = none → o.machine.ram = m.ram
  /-- Whether it completed or failed, a byte of the first two gigabytes that differs lies at an
  address of the range. -/
  changed : ∀ n < 2 ^ 31, o.machine.ram.byte n ≠ m.ram.byte n →
    ∃ start len, i.range? m.regs = some (start, len) ∧
      ∃ k < len, n = (Window.physical (start + BitVec.ofNat 32 k)).toNat
  /-- A byte behind them that differs is one of a larger memory, and has no address. It lies two
  gigabytes above the offset of an address of the range. -/
  beyond : ∀ n, 2 ^ 31 ≤ n → o.machine.ram.byte n ≠ m.ram.byte n →
    n < m.ram.size ∧ ∃ start len, i.range? m.regs = some (start, len) ∧
      ∃ k < len, n = 2 ^ 31 + (Window.physical (start + BitVec.ofNat 32 k)).toNat
  /-- The rows of registers and the cleared block have been written to their last byte. -/
  filled : o.failure = none → ∀ start len, i.range? m.regs = some (start, len) →
    ∀ k < len, ∀ b, i.fill? m.regs k = some b →
      o.machine.ram.byte (Window.physical (start + BitVec.ofNat 32 k)).toNat = b

namespace Instr

theorem ram_of_range_none {i : Instr} {m : Machine} (h : i.range? m.regs = none) :
    (i.exec m).machine.ram = m.ram := by
  cases i with
  | memory i => exact MemoryInstr.ram_of_range_none h
  | trap options ra b =>
      simp only [exec]
      split <;> rfl
  | _ => rfl

/-- No instruction changes the size of memory or its connection. -/
theorem size_exec (i : Instr) (m : Machine) :
    (i.exec m).machine.ram.size = m.ram.size ∧
      (i.exec m).machine.ram.connected = m.ram.connected := by
  cases hrange : i.range? m.regs with
  | none =>
      rw [ram_of_range_none hrange]
      exact ⟨rfl, rfl⟩
  | some range =>
      cases i with
      | memory i =>
          show (i.exec m).machine.ram.size = _ ∧ (i.exec m).machine.ram.connected = _
          obtain ⟨f | s, hs⟩ := MemoryInstr.exists_storing_of_range hrange
          · rw [MemoryInstr.exec_of_storing hs]
            exact ⟨rfl, rfl⟩
          · rw [MemoryInstr.ram_of_storing hs]
            exact ⟨Storing.size_writeAll .., Storing.connected_writeAll ..⟩
      | _ => contradiction

/-- A byte that an instruction changes lies in its range, or two gigabytes above it. -/
theorem exists_range_of_changed {i : Instr} {m : Machine} {n : Nat}
    (h : (i.exec m).machine.ram.byte n ≠ m.ram.byte n) :
    ∃ start len, i.range? m.regs = some (start, len) ∧
      ∃ k < len, n = (Window.physical (start + BitVec.ofNat 32 k)).toNat ∨
        n = 2 ^ 31 + (Window.physical (start + BitVec.ofNat 32 k)).toNat := by
  cases hrange : i.range? m.regs with
  | none =>
      rw [ram_of_range_none hrange] at h
      exact absurd rfl h
  | some range =>
      cases i with
      | memory i =>
          rw [← hrange]
          exact MemoryInstr.exists_range_of_changed h
      | _ => contradiction

/-- Past the end of memory there is nothing to change. -/
theorem lt_size_of_changed {i : Instr} {m : Machine} {n : Nat}
    (h : (i.exec m).machine.ram.byte n ≠ m.ram.byte n) : n < m.ram.size := by
  refine Classical.byContradiction fun hpast => h ?_
  have hsize := (i.size_exec m).1
  rw [Ram.byte_of_size_le (by omega), Ram.byte_of_size_le (by omega)]

theorem footprint_exec (i : Instr) (m : Machine) : i.Footprint m (i.exec m) := by
  constructor
  case kept => exact ram_of_range_none
  case changed =>
    intro n hn hne
    obtain ⟨start, len, hrange, k, hk, hplace | hplace⟩ := exists_range_of_changed hne
    · exact ⟨start, len, hrange, k, hk, hplace⟩
    · omega
  case beyond =>
    intro n hn hne
    refine ⟨lt_size_of_changed hne, ?_⟩
    obtain ⟨start, len, hrange, k, hk, hplace | hplace⟩ := exists_range_of_changed hne
    · -- an address stands for an offset below the limit
      rw [Window.toNat_physical] at hplace
      omega
    · exact ⟨start, len, hrange, k, hk, hplace⟩
  case filled =>
    intro hdone start len hrange k hk b hb
    cases i with
    | memory i => exact MemoryInstr.byte_of_fill hdone hrange hk hb
    | _ => contradiction

end Instr

namespace Machine

/-- A store of a single element completes once the element is aligned and held, and replaces the
bytes at its address. -/
theorem execute_store_of_holds {m : Machine} {w ea : Word} {kind : Store} {rs : Reg}
    {address : Address} {update : Bool}
    (hi : Instr.ofWord w = .ok (.memory (.store kind rs address update)))
    (hea : m.regs.effective address = ea) (haligned : alignmentFault kind.aligned ea = none)
    (hheld : m.ram.Holds ea kind.size) :
    m.execute w = ⟨⟨m.regs.updateBase update address ea,
      m.ram.put (ea.toNat % 2 ^ 31) (kind.bytes m.regs rs)⟩, none⟩ := by
  subst hea
  rw [execute_of_ofWord hi, Instr.exec, MemoryInstr.exec, Storing.single, haligned]
  refine Storing.exec_of_written ?_
  rw [Storing.writeAll_singleton, Window.writeBytes_eq, Store.length_bytes, if_pos hheld]

/-- **Only stores touch memory, and only in their own range.** Executing a word never changes the
size of memory; a word that is no instruction leaves memory as it was; and every instruction keeps
to its footprint, whether it completes or fails. -/
theorem execute_footprint (m : Machine) (w : Word) :
    (m.execute w).machine.ram.size = m.ram.size ∧
    (m.execute w).machine.ram.connected = m.ram.connected ∧
    (∀ e, Instr.ofWord w = .error e → (m.execute w).machine.ram = m.ram) ∧
    ∀ i, Instr.ofWord w = .ok i → i.Footprint m (m.execute w) := by
  cases hi : Instr.ofWord w with
  | error e =>
      rw [execute_of_error hi]
      exact ⟨rfl, rfl, fun _ _ => rfl, fun i h => (by cases h)⟩
  | ok i =>
      rw [execute_of_ofWord hi]
      obtain ⟨hsize, hconnected⟩ := i.size_exec m
      refine ⟨hsize, hconnected, fun e h => (by cases h), ?_⟩
      intro j hj
      cases hj
      exact i.footprint_exec m

/-- Over eight bytes of memory `stmw r30, 0(r0)` completes, and the last byte of its range is the
low byte of r31. -/
theorem execute_footprint_multiple :
    let r : Registers := Registers.initial.setGpr 31 0x01020304#32
    let m : Machine := ⟨r, .ofBytes ⟨#[0, 0, 0, 0, 0, 0, 0, 0]⟩⟩
    Instr.ofWord 0xBFC00000#32 = .ok (.memory (.storeMultiple 30 (.displaced 0 0))) ∧
      (m.execute 0xBFC00000#32).failure = none ∧
      (m.execute 0xBFC00000#32).machine.ram.byte
        (Window.physical (0#32 + BitVec.ofNat 32 7)).toNat = 4 := by
  intro r m
  have hi : Instr.ofWord 0xBFC00000#32 = .ok (.memory (.storeMultiple 30 (.displaced 0 0))) := rfl
  have hdone : (m.execute 0xBFC00000#32).failure = none := by decide +kernel
  have hrange : Instr.range? (.memory (.storeMultiple 30 (.displaced 0 0))) m.regs
      = some (0#32, 8) := by decide +kernel
  have hlast : Instr.fill? (.memory (.storeMultiple 30 (.displaced 0 0))) m.regs 7 = some 4 := by
    decide +kernel
  have hfootprint := (execute_footprint m 0xBFC00000#32).2.2.2 _ hi
  exact ⟨hi, hdone, hfootprint.filled hdone _ _ hrange 7 (by decide) _ hlast⟩

/-- If memory goes on behind two gigabytes, `stw r3, 0(r4)` completes at the last two bytes before
that limit; it changes a byte behind it, at an offset that no address stands for. -/
theorem execute_footprint_beyond :
    let m : Machine := ⟨(Registers.initial.setGpr 3 0xAABBCCDD#32).setGpr 4 0x7FFFFFFE#32,
      .zeroed 2147483652⟩
    (m.execute 0x90640000#32).failure = none ∧
      (m.execute 0x90640000#32).machine.ram.byte 0x80000000 ≠ m.ram.byte 0x80000000 ∧
      ∀ a, (Window.physical a).toNat ≠ 0x80000000 := by
  intro m
  have hi : Instr.ofWord 0x90640000#32 = .ok (.memory (.store .word 3 (.displaced 4 0) false)) :=
    rfl
  have hea : m.regs.effective (.displaced 4 0) = 0x7FFFFFFE#32 := by decide +kernel
  have hbytes : Store.word.bytes m.regs 3 = [0xAA, 0xBB, 0xCC, 0xDD] := by decide +kernel
  have hfit : 0x7FFFFFFE + [0xAA, 0xBB, 0xCC, (0xDD : Byte)].length ≤ m.ram.size := by
    rw [Ram.size_zeroed]
    decide
  have hexecute := execute_store_of_holds hi hea rfl ⟨rfl, hfit⟩
  have hplace : (0x7FFFFFFE#32).toNat % 2 ^ 31 = 0x7FFFFFFE := by decide
  rw [hplace, hbytes] at hexecute
  rw [hexecute]
  refine ⟨rfl, ?_, ?_⟩
  · rw [Ram.byte_put hfit, Ram.byte_zeroed]
    decide
  · intro a
    rw [Window.toNat_physical]
    omega

end Machine

end Broadway
