import Broadway.Proofs.Instr.Legal
import Broadway.Proofs.Memory.Transfer
import Broadway.Proofs.Run.Step

/-!
# Failed instructions are atomic

An instruction that is invalid changes nothing. An instruction that faults changes nothing either,
apart from what the transfers of several elements have done by then: the multiple and the string
loads have filled some registers of their range, the multiple, string and quantized stores have
written elements before the one that failed (`Instr.Interrupted`). A step that fails leaves the
program counter, the time base and the count of instructions alone as well
(`Machine.failed_atomic`).
-/

namespace Broadway

namespace Instr

/-- Whether an instruction is a store of several elements. -/
def storesSeveral : Instr → Bool
  | .memory (.storeMultiple ..) | .memory (.storeString ..) | .memory (.storeQuantized ..) => true
  | _ => false

/-- The registers that an instruction may have filled by the time it faults: those in the range of
a multiple or a string load, none of which belongs to its address. -/
def MayFill (i : Instr) (r : Registers) (t : Reg) : Prop :=
  match i with
  | .memory (.loadMultiple rd address) => rd ≤ t ∧ t ∉ address.registers
  | .memory (.loadString rd address count) =>
    (t - rd).toNat < (r.stringCount count + 3) / 4 ∧ t ∉ address.registers
  | _ => False

/-- The elements that an instruction transfers. -/
def elements (i : Instr) (r : Registers) : List (Word × Nat) :=
  match i with
  | .memory i => i.elements r
  | _ => []

/-- What a fault at `address` may leave behind. -/
structure Interrupted (i : Instr) (before after : Machine) (address : Word) : Prop where
  /-- No register but a general purpose one has changed, -/
  regs : after.regs = { before.regs with gpr := after.regs.gpr }
  /-- and of these only what a multiple or a string load fills. -/
  gpr : ∀ t, after.regs.gpr.read t ≠ before.regs.gpr.read t → i.MayFill before.regs t
  /-- Memory is as before unless the instruction stores several elements, -/
  ram : i.storesSeveral = false → after.ram = before.ram
  size : after.ram.size = before.ram.size
  connected : after.ram.connected = before.ram.connected
  /-- and then a byte that has changed lies in an element before the first that memory does not
  hold, which is the one at the address of the fault. -/
  bytes : ∀ n, after.ram.byte n ≠ before.ram.byte n →
    ∃ done e rest, i.elements before.regs = done ++ e :: rest ∧ e.1 = address ∧
      (∀ x ∈ done, before.ram.Holds x.1 x.2) ∧ ¬ before.ram.Holds e.1 e.2 ∧
      ∃ x ∈ done, x.1.toNat % 2 ^ 31 ≤ n ∧ n < x.1.toNat % 2 ^ 31 + x.2

/-- A fault before anything is done leaves nothing behind. -/
theorem Interrupted.refl (i : Instr) (m : Machine) (address : Word) :
    i.Interrupted m m address where
  regs := rfl
  gpr _ ht := absurd rfl ht
  ram _ := rfl
  size := rfl
  connected := rfl
  bytes _ hn := absurd rfl hn

end Instr

/-! ## Stores -/

namespace Storing

/-- A storing instruction that fails on the way has changed no register, and memory as far as the
first element that memory does not hold. -/
theorem exec_failed {s : Storing} {m : Machine} {f : Failure} (h : (s.exec m).failure = some f) :
    ∃ done e rest, s.elements = done ++ e :: rest ∧ f = .fault .dsi e.1 ∧
      (∀ x ∈ done, m.ram.Holds x.1 x.2.length) ∧ ¬ m.ram.Holds e.1 e.2.length ∧
      (s.exec m).machine = ⟨m.regs, (writeAll m.ram done).2⟩ := by
  rcases hw : writeAll m.ram s.elements with ⟨err | err, ram⟩
  · simp only [exec, hw] at h
    contradiction
  · simp only [exec, hw] at h ⊢
    cases h
    obtain ⟨done, e, rest, helements, hdone, hbefore, hfail, herr⟩ := writeAll_failed
      (congrArg Prod.fst hw)
    refine ⟨done, e, rest, helements, ?_, hbefore, hfail, ?_⟩
    · rw [herr, Failure.ofMemory, Ram.address_outside]
    · rw [hdone, hw]

theorem exec?_invalid {s : Except Failure Storing} {m : Machine} {e : Invalid}
    (h : (exec? s m).failure = some (.invalid e)) : (exec? s m).machine = m := by
  cases s with
  | error f => rfl
  | ok s =>
      obtain ⟨done, e, rest, -, hf, -⟩ := exec_failed h
      contradiction

end Storing

namespace MemoryInstr

/-- A store of one element has none before the one that fails. -/
theorem length_elements_le {i : MemoryInstr} {r : Registers} {s : Except Failure Storing}
    (hs : i.storing? r = some s) (hone : (Instr.memory i).storesSeveral = false) :
    (i.elements r).length ≤ 1 := by
  cases i with
  | store | clearBlock => exact Nat.le_refl 1
  | storeConditional rs address =>
      simp only [elements]
      split
      · exact Nat.le_refl 1
      · exact Nat.zero_le 1
  | storeMultiple | storeString | storeQuantized => contradiction
  | load | loadMultiple | loadString | loadReserve | loadQuantized => contradiction

theorem interrupted_of_storing {i : MemoryInstr} {m : Machine} {s : Except Failure Storing}
    {cause : Cause} {address : Word} (hs : i.storing? m.regs = some s)
    (h : (i.exec m).failure = some (.fault cause address)) :
    (Instr.memory i).Interrupted m (i.exec m).machine address := by
  rw [exec_of_storing hs] at h ⊢
  cases s with
  | error f => exact .refl _ _ _
  | ok s =>
      obtain ⟨done, e, rest, helements, hf, hbefore, hfail, hm⟩ := Storing.exec_failed h
      cases hf
      show (Instr.memory i).Interrupted m (s.exec m).machine e.1
      rw [hm]
      -- the written elements, as addresses and lengths
      have hsplit : i.elements m.regs =
          done.map (fun x => (x.1, x.2.length)) ++ (e.1, e.2.length) ::
            rest.map (fun x => (x.1, x.2.length)) := by
        rw [← elements_of_storing hs, helements, List.map_append, List.map_cons]
      refine ⟨rfl, fun t ht => absurd rfl ht, ?_, Storing.size_writeAll ..,
        Storing.connected_writeAll .., ?_⟩
      · intro hone
        have hlen := length_elements_le hs hone
        rw [hsplit, List.length_append, List.length_cons, List.length_map] at hlen
        have hnil : done = [] := List.length_eq_zero_iff.1 (by omega)
        rw [hnil]
        rfl
      · intro n hn
        obtain ⟨x, hx, hin⟩ := Storing.byte_writeAll hn
        refine ⟨_, _, _, hsplit, rfl, ?_, hfail, (x.1, x.2.length), ?_, hin⟩
        · intro y hy
          obtain ⟨z, hz, rfl⟩ := List.mem_map.1 hy
          exact hbefore z hz
        · exact List.mem_map.2 ⟨x, hx, rfl⟩

end MemoryInstr

/-! ## Loads -/

namespace Loading

/-- Single, reserving and quantized loads do nothing unless they complete. -/
theorem single_failed {kind : Load} {rt : Reg} {address : Address} {update : Bool} {m : Machine}
    {f : Failure} (h : (single kind rt address update m).failure = some f) :
    (single kind rt address update m).machine = m := by
  rcases single_cases kind rt address update m with ⟨g, hfail⟩ | ⟨bytes, -, hdone⟩
  · rw [hfail, Machine.machine_fail]
  · rw [hdone, Machine.failure_done] at h
    contradiction

theorem reserving_failed {rd : Reg} {address : Address} {m : Machine} {f : Failure}
    (h : (reserving rd address m).failure = some f) : (reserving rd address m).machine = m := by
  rcases reserving_cases rd address m with ⟨g, hfail⟩ | ⟨bytes, -, hdone⟩
  · rw [hfail, Machine.machine_fail]
  · rw [hdone, Machine.failure_done] at h
    contradiction

theorem quantized_failed {frt : Reg} {address : Address} {one : Bool} {gqr : BitVec 3}
    {update : Bool} {m : Machine} {f : Failure}
    (h : (quantized frt address one gqr update m).failure = some f) :
    (quantized frt address one gqr update m).machine = m := by
  rcases quantized_cases frt address one gqr update m with ⟨g, hfail⟩ | ⟨q, lanes, -, -, hdone⟩
  · rw [hfail, Machine.machine_fail]
  · rw [hdone, Machine.failure_done] at h
    contradiction

/-- A multiple load fails with a fault, and has then changed registers from its first one on. -/
theorem multiple_failed {rd : Reg} {address : Address} {m : Machine} {f : Failure}
    (h : (multiple rd address m).failure = some f) :
    (∃ cause a, f = .fault cause a) ∧ (multiple rd address m).machine.ram = m.ram ∧
    (multiple rd address m).machine.regs =
      { m.regs with gpr := (multiple rd address m).machine.regs.gpr } ∧
    ∀ t, (multiple rd address m).machine.regs.gpr.read t ≠ m.regs.gpr.read t → rd ≤ t := by
  rcases multiple_cases rd address m with ⟨a, hfail⟩ | hrow
  · rw [hfail, Machine.failure_fail] at h
    cases h
    rw [hfail, Machine.machine_fail]
    exact ⟨⟨_, _, rfl⟩, rfl, rfl, fun t ht => absurd rfl ht⟩
  · rw [hrow] at h ⊢
    obtain ⟨a, rfl⟩ := words_failure h
    obtain ⟨hregs, hgpr⟩ := words_frame m.ram (32 - rd.toNat) rd (m.regs.effective address) m.regs
    refine ⟨⟨_, _, rfl⟩, rfl, hregs, ?_⟩
    intro t ht
    -- the range ends at register 31, so it does not go round to the registers below the first
    have hlt := hgpr t ht
    bv_omega

/-- A string load is either refused, and then does nothing, or fails with a fault and has changed
registers of its range only, none of which belongs to the address. -/
theorem string_failed {rd : Reg} {address : Address} {count : ByteCount} {m : Machine}
    {f : Failure} (h : (string rd address count m).failure = some f) :
    (string rd address count m).machine = m ∨
    (∃ cause a, f = .fault cause a) ∧ (string rd address count m).machine.ram = m.ram ∧
    (string rd address count m).machine.regs =
      { m.regs with gpr := (string rd address count m).machine.regs.gpr } ∧
    ∀ t, (string rd address count m).machine.regs.gpr.read t ≠ m.regs.gpr.read t →
      (t - rd).toNat < (m.regs.stringCount count + 3) / 4 ∧ t ∉ address.registers := by
  rcases string_cases rd address count m with ⟨e, hfail⟩ | ⟨hclear, hrow⟩
  · exact .inl (by rw [hfail, Machine.machine_fail])
  · rw [hrow] at h ⊢
    obtain ⟨a, rfl⟩ := bytes_failure h
    obtain ⟨hregs, hgpr⟩ := bytes_frame m.ram rd (m.regs.effective address)
      (m.regs.stringCount count) 0 m.regs
    refine .inr ⟨⟨_, _, rfl⟩, rfl, hregs, ?_⟩
    intro t ht
    have hlt := hgpr t ht
    rw [Nat.zero_add] at hlt
    refine ⟨hlt, ?_⟩
    -- a register of the address in the range would have been refused
    intro hmem
    have hnot : covers rd (m.regs.stringCount count) t = false := hclear t hmem
    exact absurd hlt (of_decide_eq_false hnot)

end Loading

/-! ## Instructions -/

namespace Instr

/-- An invalid instruction changes nothing. -/
theorem exec_invalid {i : Instr} {m : Machine} {reason : Invalid}
    (h : (i.exec m).failure = some (.invalid reason)) : (i.exec m).machine = m := by
  cases i with
  | fixed | branch | condition | system | float | paired => contradiction
  | trap options ra b =>
      simp only [exec] at h
      split at h
      · cases h
      · contradiction
  | memory i =>
      show (i.exec m).machine = m
      replace h : (i.exec m).failure = some (.invalid reason) := h
      cases hs : i.storing? m.regs with
      | some s =>
          rw [MemoryInstr.exec_of_storing hs] at h ⊢
          exact Storing.exec?_invalid h
      | none =>
          cases i with
          | load => exact Loading.single_failed h
          | loadReserve => exact Loading.reserving_failed h
          | loadQuantized => exact Loading.quantized_failed h
          | loadMultiple =>
              obtain ⟨⟨_, _, hf⟩, -⟩ := Loading.multiple_failed h
              contradiction
          | loadString =>
              rcases Loading.string_failed h with hm | ⟨⟨_, _, hf⟩, -⟩
              · exact hm
              · contradiction
          | _ => contradiction

/-- An instruction that faults leaves behind no more than its transfers have done by then. -/
theorem exec_fault {i : Instr} {m : Machine} {cause : Cause} {address : Word}
    (h : (i.exec m).failure = some (.fault cause address)) (hlegal : i.Legal) :
    i.Interrupted m (i.exec m).machine address := by
  cases i with
  | fixed | branch | condition | system | float | paired => contradiction
  | trap options ra b =>
      unfold exec at h ⊢
      simp only at h ⊢
      split
      · exact .refl _ _ _
      · exact .refl _ _ _
  | memory i =>
      show (Instr.memory i).Interrupted m (i.exec m).machine address
      replace h : (i.exec m).failure = some (.fault cause address) := h
      cases hs : i.storing? m.regs with
      | some s => exact MemoryInstr.interrupted_of_storing hs h
      | none =>
          have hload : (i.exec m).machine = m →
              (Instr.memory i).Interrupted m (i.exec m).machine address := by
            intro hm
            rw [hm]
            exact .refl _ _ _
          cases i with
          | load => exact hload (Loading.single_failed h)
          | loadReserve => exact hload (Loading.reserving_failed h)
          | loadQuantized => exact hload (Loading.quantized_failed h)
          | loadMultiple rd a =>
              obtain ⟨-, hram, hregs, hgpr⟩ := Loading.multiple_failed h
              refine ⟨hregs, ?_, fun _ => hram, congrArg Ram.size hram,
                congrArg Ram.connected hram, ?_⟩
              · intro t ht
                refine ⟨hgpr t ht, ?_⟩
                -- a legal multiple load has its address below its range
                intro hmem
                exact absurd (hgpr t ht) (BitVec.not_le.2 (hlegal t hmem))
              · exact fun n hn => absurd (congrArg (fun r => r.byte n) hram) hn
          | loadString rd a count =>
              rcases Loading.string_failed h with hm | ⟨-, hram, hregs, hgpr⟩
              · exact hload hm
              · exact ⟨hregs, hgpr, fun _ => hram, congrArg Ram.size hram,
                  congrArg Ram.connected hram,
                  fun n hn => absurd (congrArg (fun r => r.byte n) hram) hn⟩
          | _ => contradiction

end Instr

namespace Machine

theorem execute_invalid {m : Machine} {w : Word} {reason : Invalid}
    (h : (m.execute w).failure = some (.invalid reason)) : (m.execute w).machine = m := by
  cases hi : Instr.ofWord w with
  | error e =>
      rw [execute_of_error hi]
      rfl
  | ok i =>
      rw [execute_of_ofWord hi] at h ⊢
      exact Instr.exec_invalid h

theorem execute_fault {m : Machine} {w : Word} {cause : Cause} {address : Word}
    (h : (m.execute w).failure = some (.fault cause address)) :
    ∃ i, Instr.ofWord w = .ok i ∧ i.Interrupted m (m.execute w).machine address := by
  cases hi : Instr.ofWord w with
  | error e =>
      rw [execute_of_error hi] at h
      cases h
  | ok i =>
      rw [execute_of_ofWord hi] at h ⊢
      exact ⟨i, rfl, Instr.exec_fault h (Instr.legal_ofWord hi)⟩

/-- Failed instructions are atomic, up to what a transfer of several elements has done by then: an
invalid instruction changes nothing, one that faults leaves at most such a part behind, and a step
that fails keeps the program counter, the time base and the count of instructions. -/
theorem failed_atomic :
    (∀ (m : Machine) (w : Word) (reason : Invalid),
      (m.execute w).failure = some (.invalid reason) → (m.execute w).machine = m) ∧
    (∀ (m : Machine) (w : Word) (cause : Cause) (address : Word),
      (m.execute w).failure = some (.fault cause address) →
      ∃ i, Instr.ofWord w = .ok i ∧ i.Interrupted m (m.execute w).machine address) ∧
    ∀ (i j : Interpreter) (f : Failure), i.step = (j, some f) →
      j.executed = i.executed ∧ j.limit = i.limit ∧ j.state = i.state ∧
      j.regs.pc = i.regs.pc ∧ j.regs.tb = i.regs.tb ∧
      (j.regs.npc = i.regs.npc ∨ j.regs.npc = i.regs.pc + 4) ∧
      (∀ reason, f = .invalid reason → j.machine = i.machine.fetched) ∧
      ∀ cause address, f = .fault cause address →
        j.machine = i.machine ∨
        ∃ w instr, Window.read i.ram 4 i.regs.pc = .ok w ∧ Instr.ofWord w = .ok instr ∧
          instr.Interrupted i.machine.fetched j.machine address := by
  refine ⟨fun m w reason => execute_invalid, fun m w cause address => execute_fault, ?_⟩
  intro i j f h
  obtain ⟨hstep, hj⟩ := Interpreter.step_failed h
  have hcounts : j.executed = i.executed ∧ j.limit = i.limit ∧ j.state = i.state := by
    rw [hj]
    exact ⟨rfl, rfl, rfl⟩
  refine ⟨hcounts.1, hcounts.2.1, hcounts.2.2, ?_⟩
  rcases step_failed hstep with ⟨hm, hf, -⟩ | ⟨w, hread, hex⟩
  · -- the fetch failed
    have hregs : j.regs = i.regs := congrArg Machine.regs hm
    rw [hregs]
    refine ⟨rfl, rfl, .inl rfl, ?_, fun _ _ _ => .inl hm⟩
    intro reason hreason
    rw [hreason] at hf
    contradiction
  · cases f with
    | invalid reason =>
        have hm : j.machine = i.machine.fetched := by
          have hfail : (i.machine.fetched.execute w).failure = some (.invalid reason) := by rw [hex]
          have hsame := execute_invalid hfail
          rw [hex] at hsame
          exact hsame
        have hregs : j.regs = i.machine.fetched.regs := congrArg Machine.regs hm
        rw [hregs]
        exact ⟨rfl, rfl, .inr rfl, fun _ _ => hm, fun _ _ hf => by contradiction⟩
    | fault cause address =>
        have hfail : (i.machine.fetched.execute w).failure = some (.fault cause address) := by
          rw [hex]
        obtain ⟨instr, hinstr, hleft⟩ := execute_fault hfail
        rw [hex] at hleft
        have hregs : j.regs = { i.machine.fetched.regs with gpr := j.regs.gpr } := hleft.regs
        rw [hregs]
        refine ⟨rfl, rfl, .inr rfl, fun _ hf => by contradiction, ?_⟩
        intro cause' address' hf
        cases hf
        exact .inr ⟨w, instr, hread, hinstr, hleft⟩

/-- Over four bytes of memory, `lmw r30, 0(r0)` fills its first register and faults at the second
word. -/
theorem failed_atomic_multiple :
    let m : Machine := .initial (.ofBytes ⟨#[1, 2, 3, 4]⟩)
    let o := m.execute 0xBBC00000#32
    o.failure = some (.fault .dsi 4#32) ∧ o.machine.regs.gpr.read 30 = 0x01020304#32 ∧
      ∃ i, Instr.ofWord 0xBBC00000#32 = .ok i ∧ i.Interrupted m o.machine 4#32 := by
  refine ⟨by decide, by decide, ?_⟩
  exact failed_atomic.2.1 _ _ .dsi 4#32 (by decide)

end Machine

end Broadway
