import Broadway.Exec.Memory
import Broadway.Proofs.Memory.Access

/-!
# Transfers of several elements

A memory instruction transfers a list of elements, each an effective address and a number of bytes
(`MemoryInstr.elements`). A transfer that fails has done exactly the elements before the one at
which it failed:

* a run of writes changes bytes of its elements only (`Storing.byte_writeAll`), and if it fails it
  has written a beginning of its list and stopped at the first element that memory does not hold
  (`Storing.writeAll_failed`);
* the multiple and the string loads write general purpose registers of their range only
  (`Loading.words_frame`, `Loading.bytes_frame`).
-/

namespace Broadway

/-- The check of alignment looks at the two low bits, so it finds the multiples of four. -/
theorem alignmentFault_eq (needed : Bool) (a : Word) :
    alignmentFault needed a =
      if needed = true ∧ ¬ 4 ∣ a.toNat then some (.fault .alignment a) else none := by
  have hlow : a &&& 3#32 = 0#32 ↔ 4 ∣ a.toNat := by
    have hmod : (a &&& 3#32).toNat = a.toNat % 4 :=
      (BitVec.toNat_and a 3#32).trans (Nat.and_two_pow_sub_one_eq_mod a.toNat 2)
    rw [Nat.dvd_iff_mod_eq_zero, ← hmod]
    exact BitVec.toNat_eq
  unfold alignmentFault
  cases needed <;> simp [hlow]

/-! ## What a storing instruction works out -/

namespace Storing

variable {r : Registers} {s : Storing}

theorem single_ok {kind : Store} {rs : Reg} {address : Address} {update : Bool}
    (h : single kind rs address update r = .ok s) :
    s = ⟨[(r.effective address, kind.bytes r rs)],
      r.updateBase update address (r.effective address)⟩ := by
  simp only [single] at h
  split at h
  · contradiction
  · cases h
    rfl

theorem multiple_ok {rs : Reg} {address : Address} (h : multiple rs address r = .ok s) :
    s = ⟨(List.range (32 - rs.toNat)).map fun i => (r.effective address + BitVec.ofNat 32 (4 * i),
      Bytes.ofWord 4 (r.gpr.read (rs + BitVec.ofNat 5 i))), r⟩ := by
  simp only [multiple] at h
  split at h
  · contradiction
  · cases h
    rfl

theorem conditional_ok {rs : Reg} {address : Address} (h : conditional rs address r = .ok s) :
    s.elements = (if r.reservation = some (r.effective address) then
        [(r.effective address, Bytes.ofWord 4 (r.gpr.read rs))] else []) ∧
      ∃ flags, s.regs = { r.setCrField 0 flags with reservation := none } := by
  simp only [conditional] at h
  split at h
  · contradiction
  · cases h
    exact ⟨rfl, _, rfl⟩

theorem quantized_ok {frs : Reg} {address : Address} {one : Bool} {gqr : BitVec 3} {update : Bool}
    (h : quantized frs address one gqr update r = .ok s) :
    ∃ q, Quantizer.forStore (r.gqr.read gqr) = .ok q ∧
      s.elements = (if one then [(r.effective address, q.quantize (r.fpr.read frs).ps0)]
        else [(r.effective address, q.quantize (r.fpr.read frs).ps0),
          (r.effective address + BitVec.ofNat 32 q.type.size,
            q.quantize (r.fpr.read frs).ps1)]) ∧
      s.regs = r.updateBase update address (r.effective address) := by
  simp only [quantized] at h
  split at h
  · contradiction
  · next q hq =>
    cases h
    exact ⟨q, hq, rfl, rfl⟩

end Storing

/-! ## The elements of an instruction -/

/-- The number of bytes that a store writes. -/
def Store.size : Store → Nat
  | .byte => 1
  | .half | .halfReversed => 2
  | .word | .wordReversed | .external | .single | .floatWord => 4
  | .double => 8

@[simp]
theorem Store.length_bytes (kind : Store) (r : Registers) (rs : Reg) :
    (kind.bytes r rs).length = kind.size := by
  cases kind <;> simp [bytes, size]

@[simp]
theorem Quantizer.length_quantize (q : Quantizer) (lane : Double) :
    (q.quantize lane).length = q.type.size := by
  unfold quantize
  cases q.type <;> simp [QuantizeType.size]

/-- The elements of a quantized transfer; a reserved type has none. -/
def Quantizer.elements (q : Except Invalid Quantizer) (ea : Word) (one : Bool) :
    List (Word × Nat) :=
  match q with
  | .error _ => []
  | .ok q =>
    if one then [(ea, q.type.size)]
    else [(ea, q.type.size), (ea + BitVec.ofNat 32 q.type.size, q.type.size)]

namespace MemoryInstr

/-- The elements that an instruction transfers, in the order of the transfer: where each lies and
how many bytes it has. -/
def elements (i : MemoryInstr) (r : Registers) : List (Word × Nat) :=
  match i with
  | .load kind _ address _ => [(r.effective address, kind.size)]
  | .store kind _ address _ => [(r.effective address, kind.size)]
  | .loadMultiple first address | .storeMultiple first address =>
    (List.range (32 - first.toNat)).map fun i => (r.effective address + BitVec.ofNat 32 (4 * i), 4)
  | .loadString _ address count | .storeString _ address count =>
    (List.range (r.stringCount count)).map fun i => (r.effective address + BitVec.ofNat 32 i, 1)
  | .loadReserve _ address => [(r.effective address, 4)]
  | .storeConditional _ address =>
    if r.reservation = some (r.effective address) then [(r.effective address, 4)] else []
  | .loadQuantized _ address one gqr _ =>
    Quantizer.elements (Quantizer.forLoad (r.gqr.read gqr)) (r.effective address) one
  | .storeQuantized _ address one gqr _ =>
    Quantizer.elements (Quantizer.forStore (r.gqr.read gqr)) (r.effective address) one
  | .clearBlock address => [(r.effective address &&& ~~~31#32, 32)]

/-- What a storing instruction has worked out before it writes; a load works out nothing. -/
def storing? (i : MemoryInstr) (r : Registers) : Option (Except Failure Storing) :=
  match i with
  | .store kind rs address update => some (Storing.single kind rs address update r)
  | .storeMultiple rs address => some (Storing.multiple rs address r)
  | .storeString rs address count => some (.ok (Storing.string rs address count r))
  | .storeConditional rs address => some (Storing.conditional rs address r)
  | .storeQuantized frs address one gqr update =>
    some (Storing.quantized frs address one gqr update r)
  | .clearBlock address => some (.ok (Storing.clearBlock address r))
  | _ => none

/-- All storing instructions are carried out in one way. -/
theorem exec_of_storing {i : MemoryInstr} {m : Machine} {s : Except Failure Storing}
    (h : i.storing? m.regs = some s) : i.exec m = Storing.exec? s m := by
  cases i <;> cases h <;> rfl

/-- What a storing instruction writes are its elements. -/
theorem elements_of_storing {i : MemoryInstr} {r : Registers} {s : Storing}
    (h : i.storing? r = some (.ok s)) :
    s.elements.map (fun e => (e.1, e.2.length)) = i.elements r := by
  cases i with
  | store kind rs address update =>
      rw [Storing.single_ok (Option.some.inj h)]
      simp [elements]
  | storeMultiple rs address =>
      rw [Storing.multiple_ok (Option.some.inj h)]
      simp [elements, Function.comp_def]
  | storeString rs address count =>
      cases h
      simp [elements, Storing.string, Function.comp_def]
  | storeConditional rs address =>
      rw [(Storing.conditional_ok (Option.some.inj h)).1]
      by_cases hres : r.reservation = some (r.effective address) <;> simp [elements, hres]
  | storeQuantized frs address one gqr update =>
      obtain ⟨q, hq, helements, -⟩ := Storing.quantized_ok (Option.some.inj h)
      rw [helements]
      cases one <;> simp [elements, Quantizer.elements, hq]
  | clearBlock address =>
      cases h
      rfl
  | _ => contradiction

end MemoryInstr

namespace Ram

/-- Whether an access is held depends on the size of memory and its connection alone. -/
theorem holds_congr {r r' : Ram} (hsize : r'.size = r.size) (hcon : r'.connected = r.connected)
    (a : Word) (n : Nat) : r'.Holds a n ↔ r.Holds a n := by
  rw [Holds, Holds, hsize, hcon]

end Ram

/-! ## Writes in a row -/

namespace Storing

theorem writeAll_cons (ram : Ram) (a : Word) (data : List Byte) (rest : List (Word × List Byte)) :
    writeAll ram ((a, data) :: rest) =
      if ram.Holds a data.length then writeAll (ram.put (a.toNat % 2 ^ 31) data) rest
      else (some (ram.outside a data.length), ram) := by
  rw [writeAll, Window.writeBytes_eq]
  by_cases h : ram.Holds a data.length
  · rw [if_pos h, if_pos h]
  · rw [if_neg h, if_neg h]

@[simp]
theorem size_writeAll (ram : Ram) (es : List (Word × List Byte)) :
    (writeAll ram es).2.size = ram.size := by
  induction es generalizing ram with
  | nil => rfl
  | cons e rest ih =>
      rw [writeAll_cons]
      split
      · rw [ih, Ram.size_put]
      · rfl

@[simp]
theorem connected_writeAll (ram : Ram) (es : List (Word × List Byte)) :
    (writeAll ram es).2.connected = ram.connected := by
  induction es generalizing ram with
  | nil => rfl
  | cons e rest ih =>
      rw [writeAll_cons]
      split
      · rw [ih, Ram.connected_put]
      · rfl

theorem writeAll_singleton (ram : Ram) (a : Word) (data : List Byte) :
    writeAll ram [(a, data)] = Window.writeBytes ram a data := by
  rw [writeAll_cons, Window.writeBytes_eq]
  rfl

/-- Once all is written the registers are those that were worked out. -/
theorem exec_of_written {s : Storing} {m : Machine} {ram : Ram}
    (h : writeAll m.ram s.elements = (none, ram)) : s.exec m = ⟨⟨s.regs, ram⟩, none⟩ := by
  simp only [exec, h]

/-- A store that is not written to its end leaves the registers alone. -/
theorem exec_of_refused {s : Storing} {m : Machine} {e : MemoryError} {ram : Ram}
    (h : writeAll m.ram s.elements = (some e, ram)) :
    s.exec m = ⟨⟨m.regs, ram⟩, some (.ofMemory e)⟩ := by
  simp only [exec, h]

/-- A store that completes has written all its elements. -/
theorem writeAll_of_completed {s : Storing} {m : Machine} (h : (s.exec m).failure = none) :
    writeAll m.ram s.elements = (none, (s.exec m).machine.ram) := by
  rcases hw : writeAll m.ram s.elements with ⟨_ | err, ram⟩
  · rw [exec_of_written hw]
  · rw [exec_of_refused hw] at h
    contradiction

/-- A run of writes changes bytes of its elements only. -/
theorem byte_writeAll {ram : Ram} {es : List (Word × List Byte)} {n : Nat}
    (h : (writeAll ram es).2.byte n ≠ ram.byte n) :
    ∃ e ∈ es, e.1.toNat % 2 ^ 31 ≤ n ∧ n < e.1.toNat % 2 ^ 31 + e.2.length := by
  induction es generalizing ram with
  | nil => exact absurd rfl h
  | cons e rest ih =>
      rw [writeAll_cons] at h
      split at h
      · by_cases hin : e.1.toNat % 2 ^ 31 ≤ n ∧ n < e.1.toNat % 2 ^ 31 + e.2.length
        · exact ⟨e, List.mem_cons_self, hin⟩
        · have hkeep : (ram.put (e.1.toNat % 2 ^ 31) e.2).byte n = ram.byte n :=
            Ram.byte_put_of_outside ram (by omega)
          rw [← hkeep] at h
          obtain ⟨x, hx, hn⟩ := ih h
          exact ⟨x, List.mem_cons_of_mem _ hx, hn⟩
      · exact absurd rfl h

/-- A run of writes that fails has written what stands before the first element that memory does
not hold. -/
theorem writeAll_failed {ram : Ram} {es : List (Word × List Byte)} {err : MemoryError}
    (h : (writeAll ram es).1 = some err) :
    ∃ done e rest, es = done ++ e :: rest ∧
      writeAll ram done = (none, (writeAll ram es).2) ∧
      (∀ x ∈ done, ram.Holds x.1 x.2.length) ∧
      ¬ ram.Holds e.1 e.2.length ∧ err = ram.outside e.1 e.2.length := by
  induction es generalizing ram with
  | nil => contradiction
  | cons e rest ih =>
      rw [writeAll_cons] at h ⊢
      by_cases hheld : ram.Holds e.1 e.2.length
      · rw [if_pos hheld] at h ⊢
        obtain ⟨done, x, post, rfl, hdone, hbefore, hx, herr⟩ := ih h
        -- a write leaves size and connection alone, so the same accesses are held after it
        have hsame := Ram.holds_congr (Ram.size_put ram (e.1.toNat % 2 ^ 31) e.2)
          (Ram.connected_put ram (e.1.toNat % 2 ^ 31) e.2)
        refine ⟨e :: done, x, post, rfl, ?_, ?_, ?_, herr⟩
        · rw [writeAll_cons, if_pos hheld, hdone]
        · intro y hy
          rcases List.mem_cons.1 hy with rfl | hy
          · exact hheld
          · exact (hsame y.1 y.2.length).1 (hbefore y hy)
        · exact fun hheld' => hx ((hsame x.1 x.2.length).2 hheld')
      · rw [if_neg hheld] at h ⊢
        cases h
        exact ⟨[], e, rest, rfl, rfl, fun x hx => absurd hx List.not_mem_nil, hheld, rfl⟩

end Storing

/-! ## Loads in a row -/

namespace Loading

/-- A single load fails before it changes anything, or fills its target from what it read. -/
theorem single_cases (kind : Load) (rt : Reg) (address : Address) (update : Bool) (m : Machine) :
    (∃ f, single kind rt address update m = m.fail f) ∨
    ∃ bytes, element m.ram (m.regs.effective address) kind.size = .ok bytes ∧
      single kind rt address update m =
        m.done ((kind.fill m.regs rt bytes).updateBase update address
          (m.regs.effective address)) := by
  unfold single
  simp only
  split
  · next f _ => exact .inl ⟨f, rfl⟩
  · split
    · next f _ => exact .inl ⟨f, rfl⟩
    · next bytes hbytes => exact .inr ⟨bytes, hbytes, rfl⟩

theorem reserving_cases (rd : Reg) (address : Address) (m : Machine) :
    (∃ f, reserving rd address m = m.fail f) ∨
    ∃ bytes, element m.ram (m.regs.effective address) 4 = .ok bytes ∧
      reserving rd address m = m.done { m.regs.setGpr rd (Bytes.toWord 4 bytes) with
        reservation := some (m.regs.effective address) } := by
  unfold reserving
  simp only
  split
  · next f _ => exact .inl ⟨f, rfl⟩
  · split
    · next f _ => exact .inl ⟨f, rfl⟩
    · next bytes hbytes => exact .inr ⟨bytes, hbytes, rfl⟩

theorem quantized_cases (frt : Reg) (address : Address) (one : Bool) (gqr : BitVec 3)
    (update : Bool) (m : Machine) :
    (∃ f, quantized frt address one gqr update m = m.fail f) ∨
    ∃ q lanes, Quantizer.forLoad (m.regs.gqr.read gqr) = .ok q ∧
      quantizedLanes m.ram q (m.regs.effective address) one = .ok lanes ∧
      quantized frt address one gqr update m =
        m.done ((m.regs.setFpr frt lanes).updateBase update address
          (m.regs.effective address)) := by
  unfold quantized
  simp only
  split
  · exact .inl ⟨_, rfl⟩
  · next q hq =>
    split
    · next f _ => exact .inl ⟨f, rfl⟩
    · next lanes hlanes => exact .inr ⟨q, lanes, hq, hlanes, rfl⟩

/-- A multiple load is not aligned and changes nothing, or reads a row of words. -/
theorem multiple_cases (rd : Reg) (address : Address) (m : Machine) :
    (∃ a, multiple rd address m = m.fail (.fault .alignment a)) ∨
    multiple rd address m =
      ⟨{ m with regs := (words m.ram (32 - rd.toNat) rd (m.regs.effective address) m.regs).2 },
        (words m.ram (32 - rd.toNat) rd (m.regs.effective address) m.regs).1⟩ := by
  unfold multiple
  simp only
  split
  · next f halign =>
    unfold alignmentFault at halign
    split at halign
    · cases halign
      exact .inl ⟨_, rfl⟩
    · contradiction
  · exact .inr rfl

/-- A string load that would overwrite a register of its address is refused; any other reads a row
of bytes. -/
theorem string_cases (rd : Reg) (address : Address) (count : ByteCount) (m : Machine) :
    (∃ e, string rd address count m = m.fail (.invalid e)) ∨
    (∀ t ∈ address.registers, covers rd (m.regs.stringCount count) t = false) ∧
      string rd address count m =
        ⟨{ m with regs := (bytes m.ram rd (m.regs.effective address)
            (m.regs.stringCount count) 0 m.regs).2 },
          (bytes m.ram rd (m.regs.effective address) (m.regs.stringCount count) 0 m.regs).1⟩ := by
  unfold string
  simp only
  split
  · exact .inl ⟨_, rfl⟩
  · next hfind =>
    refine .inr ⟨?_, rfl⟩
    intro t ht
    exact Bool.eq_false_iff.2 (List.find?_eq_none.1 hfind t ht)

theorem element_eq (ram : Ram) (a : Word) (n : Nat) :
    element ram a n =
      if ram.Holds a n then .ok (ram.slice (a.toNat % 2 ^ 31) n) else .error (.fault .dsi a) := by
  rw [element, Window.readBytes_eq]
  by_cases h : ram.Holds a n
  · rw [if_pos h, if_pos h]
  · rw [if_neg h, if_neg h]
    show Except.error (Failure.fault .dsi (ram.outside a n).address) = _
    rw [Ram.address_outside]

/-- Reading a row of words writes general purpose registers of its range only. -/
theorem words_frame (ram : Ram) (n : Nat) (rd : Reg) (a : Word) (r : Registers) :
    (words ram n rd a r).2 = { r with gpr := (words ram n rd a r).2.gpr } ∧
    ∀ t, (words ram n rd a r).2.gpr.read t ≠ r.gpr.read t → (t - rd).toNat < n := by
  induction n generalizing rd a r with
  | zero => exact ⟨rfl, fun t ht => absurd rfl ht⟩
  | succ n ih =>
      unfold words
      cases element ram a 4 with
      | error f => exact ⟨rfl, fun t ht => absurd rfl ht⟩
      | ok bytes =>
          obtain ⟨hregs, hgpr⟩ := ih (rd + 1) (a + 4) (r.setGpr rd (Bytes.toWord 4 bytes))
          refine ⟨hregs, ?_⟩
          intro t ht
          by_cases htr : rd = t
          · subst htr
            simp
          · -- the register was not the first, so the rest of the row has written it
            have hkeep : (r.setGpr rd (Bytes.toWord 4 bytes)).gpr.read t = r.gpr.read t :=
              Bank.read_write_of_ne _ _ htr
            have hlt := hgpr t (by rw [hkeep]; exact ht)
            bv_omega

/-- A row of words fails with a data access fault only. -/
theorem words_failure {ram : Ram} {n : Nat} {rd : Reg} {a : Word} {r : Registers} {f : Failure}
    (h : (words ram n rd a r).1 = some f) : ∃ address, f = .fault .dsi address := by
  induction n generalizing rd a r with
  | zero => contradiction
  | succ n ih =>
      unfold words at h
      rw [element_eq] at h
      split at h
      · next he =>
        split at he
        · contradiction
        · cases he
          cases h
          exact ⟨a, rfl⟩
      · exact ih h

/-- Reading a row of bytes writes general purpose registers of its range only. -/
theorem bytes_frame (ram : Ram) (rd : Reg) (ea : Word) (n i : Nat) (r : Registers) :
    (bytes ram rd ea n i r).2 = { r with gpr := (bytes ram rd ea n i r).2.gpr } ∧
    ∀ t, (bytes ram rd ea n i r).2.gpr.read t ≠ r.gpr.read t →
      (t - rd).toNat < (i + n + 3) / 4 := by
  induction n generalizing i r with
  | zero => exact ⟨rfl, fun t ht => absurd rfl ht⟩
  | succ n ih =>
      have htarget : (rd + BitVec.ofNat 5 (i / 4) - rd).toNat < (i + (n + 1) + 3) / 4 := by
        have hsub : rd + BitVec.ofNat 5 (i / 4) - rd = BitVec.ofNat 5 (i / 4) := by bv_omega
        have hle : (BitVec.ofNat 5 (i / 4)).toNat ≤ i / 4 := Nat.mod_le _ _
        rw [hsub]
        omega
      unfold bytes
      simp only
      generalize rd + BitVec.ofNat 5 (i / 4) = target at htarget ⊢
      -- before its first byte is read the target may have been cleared
      obtain ⟨r', hr', hregs', hkeep'⟩ : ∃ r', (if i % 4 = 0 then r.setGpr target 0 else r) = r' ∧
          r' = { r with gpr := r'.gpr } ∧ ∀ t, target ≠ t → r'.gpr.read t = r.gpr.read t := by
        by_cases h0 : i % 4 = 0
        · exact ⟨_, if_pos h0, rfl, fun t ht => Bank.read_write_of_ne _ _ ht⟩
        · exact ⟨_, if_neg h0, rfl, fun t _ => rfl⟩
      rw [hr']
      cases element ram (ea + BitVec.ofNat 32 i) 1 with
      | error f =>
          refine ⟨hregs', ?_⟩
          intro t ht
          by_cases htr : target = t
          · exact htr ▸ htarget
          · exact absurd (hkeep' t htr) ht
      | ok b =>
          obtain ⟨hregs, hgpr⟩ := ih (i + 1)
            (r'.setGpr target (r'.gpr.read target |||
              (Bytes.toWord 1 b).setWidth 32 <<< (24 - 8 * (i % 4))))
          refine ⟨?_, ?_⟩
          · rw [hregs, hregs']
            rfl
          · intro t ht
            by_cases htr : target = t
            · exact htr ▸ htarget
            · have hlt := hgpr t (by
                rw [Registers.setGpr, Bank.read_write_of_ne _ _ htr, hkeep' t htr]
                exact ht)
              omega

/-- A row of bytes fails with a data access fault only. -/
theorem bytes_failure {ram : Ram} {rd : Reg} {ea : Word} {n i : Nat} {r : Registers} {f : Failure}
    (h : (bytes ram rd ea n i r).1 = some f) : ∃ address, f = .fault .dsi address := by
  induction n generalizing i r with
  | zero => contradiction
  | succ n ih =>
      unfold bytes at h
      simp only at h
      rw [element_eq] at h
      split at h
      · next he =>
        split at he
        · contradiction
        · cases he
          cases h
          exact ⟨ea + BitVec.ofNat 32 i, rfl⟩
      · exact ih h

end Loading

end Broadway
