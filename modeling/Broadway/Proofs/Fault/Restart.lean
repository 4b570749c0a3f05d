import Broadway.Proofs.Fault.Atomic
import Broadway.Proofs.Memory.Repair

/-!
# Faults are restartable

An instruction that has faulted may be carried out again once memory is repaired, over whatever it
has left behind. If it would have completed on the repaired memory from the start, it completes now
and leaves the same registers and the same memory (`Machine.execute_restart`).

* A storing instruction faults with its registers as they were, its reservation among them, so it
  works out the same elements again and writes them over those it has written already
  (`Storing.exec_restart`).
* A multiple or a string load has not touched the registers that its address and its count come
  from, and fills its range from scratch (`Loading.multiple_restart`, `Loading.string_restart`).
-/

namespace Broadway

namespace Machine

/-- The machine after a repair of its memory. -/
def repaired (m : Machine) (size : Nat) (on : Bool) : Machine :=
  { m with ram := m.ram.repaired size on }

end Machine

variable {m : Machine} {size : Nat} {on : Bool} {f : Failure}

namespace Storing

theorem exec_restart {s : Storing} (hsize : m.ram.size ≤ size)
    (hfail : (s.exec m).failure = some f)
    (hok : (s.exec (m.repaired size on)).failure = none) :
    s.exec ((s.exec m).machine.repaired size on) = s.exec (m.repaired size on) := by
  obtain ⟨done, e, rest, helements, -, -, -, hm⟩ := exec_failed hfail
  -- what is left behind differs from memory where the elements already written lie
  have hsame : writeAll ((writeAll m.ram done).2.repaired size on) s.elements
      = writeAll (m.ram.repaired size on) s.elements := by
    have hsize' : (writeAll m.ram done).2.size ≤ size := by
      rw [size_writeAll]
      exact hsize
    refine writeAll_congr ?_ ?_ ?_ (congrArg Prod.fst (writeAll_of_completed hok))
    · rw [Ram.size_repaired, Ram.size_repaired]
    · rw [Ram.connected_repaired, Ram.connected_repaired, connected_writeAll]
    · intro n hn
      rw [Ram.byte_repaired hsize', Ram.byte_repaired hsize] at hn
      obtain ⟨x, hx, hin⟩ := byte_writeAll hn
      refine ⟨x, ?_, hin⟩
      rw [helements]
      exact List.mem_append_left _ hx
  rw [hm]
  simp only [exec, Machine.repaired]
  rw [hsame]

theorem exec?_restart {s : Except Failure Storing} (hsize : m.ram.size ≤ size)
    (hfail : (exec? s m).failure = some f)
    (hok : (exec? s (m.repaired size on)).failure = none) :
    exec? s ((exec? s m).machine.repaired size on) = exec? s (m.repaired size on) := by
  cases s with
  | error g => contradiction
  | ok s => exact exec_restart hsize hfail hok

end Storing

namespace MemoryInstr

/-- A storing instruction that fails keeps its registers. -/
theorem regs_of_storing_failed {i : MemoryInstr} {s : Except Failure Storing}
    (hs : i.storing? m.regs = some s) (hfail : (i.exec m).failure = some f) :
    (i.exec m).machine.regs = m.regs := by
  rw [exec_of_storing hs] at hfail ⊢
  cases s with
  | error g => rfl
  | ok s =>
      obtain ⟨done, e, rest, -, -, -, -, hm⟩ := Storing.exec_failed hfail
      show (s.exec m).machine.regs = m.regs
      rw [hm]

theorem storing_restart {i : MemoryInstr} {s : Except Failure Storing}
    (hs : i.storing? m.regs = some s) (hsize : m.ram.size ≤ size)
    (hfail : (i.exec m).failure = some f)
    (hok : (i.exec (m.repaired size on)).failure = none) :
    i.exec ((i.exec m).machine.repaired size on) = i.exec (m.repaired size on) := by
  have hs₁ : i.storing? (m.repaired size on).regs = some s := hs
  have hs₂ : i.storing? ((i.exec m).machine.repaired size on).regs = some s :=
    (congrArg i.storing? (regs_of_storing_failed hs hfail)).trans hs
  rw [exec_of_storing hs₂, exec_of_storing hs₁]
  rw [exec_of_storing hs] at hfail ⊢
  rw [exec_of_storing hs₁] at hok
  exact Storing.exec?_restart hsize hfail hok

end MemoryInstr

namespace Loading

theorem multiple_of_aligned {rd : Reg} {address : Address}
    (h : alignmentFault true (m.regs.effective address) = none) :
    multiple rd address m =
      ⟨{ m with regs := (words m.ram (32 - rd.toNat) rd (m.regs.effective address) m.regs).2 },
        (words m.ram (32 - rd.toNat) rd (m.regs.effective address) m.regs).1⟩ := by
  unfold multiple
  simp only [h]

theorem multiple_restart {rd : Reg} {address : Address}
    (hlegal : ∀ x ∈ address.registers, x < rd)
    (hok : (multiple rd address (m.repaired size on)).failure = none) :
    multiple rd address ((multiple rd address m).machine.repaired size on)
      = multiple rd address (m.repaired size on) := by
  have halign : alignmentFault true (m.regs.effective address) = none := by
    unfold multiple at hok
    simp only at hok
    split at hok
    · contradiction
    · next h => exact h
  have hdiffer : m.regs.DifferWithin (fun t => (t - rd).toNat < 32 - rd.toNat)
      (words m.ram (32 - rd.toNat) rd (m.regs.effective address) m.regs).2 :=
    ⟨(words_frame ..).1, (words_frame ..).2⟩
  rw [multiple_of_aligned (m := m.repaired size on) halign] at hok ⊢
  rw [multiple_of_aligned (m := m) halign]
  generalize (words m.ram _ rd _ m.regs).2 = left at hdiffer ⊢
  -- the range ends at register 31, so it does not go round to the address below it
  have heffective : left.effective address = m.regs.effective address := by
    refine hdiffer.effective fun t ht hin => ?_
    have hlt := hlegal t ht
    bv_omega
  have hsame := words_congr hdiffer hok
  rw [multiple_of_aligned (m := Machine.repaired ⟨left, m.ram⟩ size on)
    ((congrArg (alignmentFault true) heffective).trans halign)]
  simp only [Machine.repaired] at hsame ⊢
  rw [heffective, hsame]

theorem string_of_clear {rd : Reg} {address : Address} {count : ByteCount}
    (h : address.registers.find? (covers rd (m.regs.stringCount count)) = none) :
    string rd address count m =
      ⟨{ m with regs := (bytes m.ram rd (m.regs.effective address)
          (m.regs.stringCount count) 0 m.regs).2 },
        (bytes m.ram rd (m.regs.effective address) (m.regs.stringCount count) 0 m.regs).1⟩ := by
  unfold string
  simp only [h]

/-- The first byte of a register in the range is the one that the register waits for. -/
theorem awaits_of_lt {rd t : Reg} {n : Nat} (h : (t - rd).toNat < (0 + n + 3) / 4) :
    Awaits rd 0 (0 + n) t := by
  refine ⟨4 * (t - rd).toNat, Nat.zero_le _, by omega, Nat.mul_mod_right 4 _, ?_⟩
  rw [Nat.mul_div_cancel_left _ (by decide), BitVec.ofNat_toNat, BitVec.setWidth_eq]
  bv_omega

theorem string_restart {rd : Reg} {address : Address} {count : ByteCount}
    (hok : (string rd address count (m.repaired size on)).failure = none) :
    string rd address count ((string rd address count m).machine.repaired size on)
      = string rd address count (m.repaired size on) := by
  have hclear : address.registers.find? (covers rd (m.regs.stringCount count)) = none := by
    unfold string at hok
    simp only at hok
    split at hok
    · contradiction
    · next h => exact h
  have hdiffer : m.regs.DifferWithin
      (fun t => (t - rd).toNat < (0 + m.regs.stringCount count + 3) / 4)
      (bytes m.ram rd (m.regs.effective address) (m.regs.stringCount count) 0 m.regs).2 :=
    ⟨(bytes_frame ..).1, (bytes_frame ..).2⟩
  rw [string_of_clear (m := m.repaired size on) hclear] at hok ⊢
  rw [string_of_clear (m := m) hclear]
  generalize (bytes m.ram rd _ _ 0 m.regs).2 = left at hdiffer ⊢
  have hcount := hdiffer.stringCount count
  have heffective : left.effective address = m.regs.effective address := by
    refine hdiffer.effective fun t ht hin => ?_
    have hnot := List.find?_eq_none.1 hclear t ht
    rw [Nat.zero_add] at hin
    exact hnot (decide_eq_true hin)
  have hsame := bytes_congr (hdiffer.mono fun t => awaits_of_lt) hok
  rw [string_of_clear (m := Machine.repaired ⟨left, m.ram⟩ size on)
    ((congrArg (fun n => address.registers.find? (covers rd n)) hcount).trans hclear)]
  simp only [Machine.repaired] at hsame ⊢
  rw [heffective, hcount, hsame]

end Loading

/-! ## Instructions -/

/-- An instruction that has faulted completes on repaired memory as it would have completed there
from the start. -/
theorem Instr.exec_restart {i : Instr} (hlegal : i.Legal) (hsize : m.ram.size ≤ size)
    (hfail : (i.exec m).failure = some f)
    (hok : (i.exec (m.repaired size on)).failure = none) :
    i.exec ((i.exec m).machine.repaired size on) = i.exec (m.repaired size on) := by
  cases i with
  | fixed | branch | condition | system | float | paired => contradiction
  | trap options ra b =>
      have hm : ((Instr.trap options ra b).exec m).machine = m := by
        unfold exec
        simp only
        split <;> rfl
      rw [hm]
  | memory i =>
      cases hs : i.storing? m.regs with
      | some s => exact MemoryInstr.storing_restart hs hsize hfail hok
      | none =>
          have hload : (i.exec m).machine = m →
              i.exec ((i.exec m).machine.repaired size on) = i.exec (m.repaired size on) := by
            intro hm
            rw [hm]
          cases i with
          | load => exact hload (Loading.single_failed hfail)
          | loadReserve => exact hload (Loading.reserving_failed hfail)
          | loadQuantized => exact hload (Loading.quantized_failed hfail)
          | loadMultiple => exact Loading.multiple_restart hlegal hok
          | loadString => exact Loading.string_restart hok
          | _ => contradiction

namespace Machine

/-- **Faults are restartable.** An instruction that has faulted is carried out again over what it
has left behind, after memory has grown or has been attached again; if it would have completed on
memory repaired in this way without the first attempt, it completes with the same registers and the
same memory. -/
theorem execute_restart {w : Word} {cause : Cause} {address : Word} (hsize : m.ram.size ≤ size)
    (hfault : (m.execute w).failure = some (.fault cause address))
    (hok : ((m.repaired size on).execute w).failure = none) :
    ((m.execute w).machine.repaired size on).execute w = (m.repaired size on).execute w := by
  cases hi : Instr.ofWord w with
  | error e =>
      rw [execute_of_error hi] at hok
      contradiction
  | ok i =>
      simp only [execute_of_ofWord hi] at hfault hok ⊢
      exact Instr.exec_restart (Instr.legal_ofWord hi) hsize hfault hok

/-- `lmw r30, 0(r0)` over four bytes of memory faults with its first register filled, and fills both
registers once memory has grown to eight bytes. -/
theorem execute_restart_multiple :
    let m : Machine := .initial (.ofBytes ⟨#[1, 2, 3, 4]⟩)
    (m.execute 0xBBC00000#32).failure = some (.fault .dsi 4#32) ∧
      ((m.repaired 8 false).execute 0xBBC00000#32).failure = none ∧
      ((m.execute 0xBBC00000#32).machine.repaired 8 false).execute 0xBBC00000#32
        = (m.repaired 8 false).execute 0xBBC00000#32 := by
  have hfault : ((Machine.initial (.ofBytes ⟨#[1, 2, 3, 4]⟩)).execute 0xBBC00000#32).failure
      = some (.fault .dsi 4#32) := by decide
  have hok : (((Machine.initial (.ofBytes ⟨#[1, 2, 3, 4]⟩)).repaired 8 false).execute
      0xBBC00000#32).failure = none := by decide
  exact ⟨hfault, hok, execute_restart (by decide) hfault hok⟩

end Machine

end Broadway
