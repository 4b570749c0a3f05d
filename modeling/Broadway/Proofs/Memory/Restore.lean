import Broadway.Proofs.Memory.Strings

/-!
# Registers that are saved and restored

A store of a row of registers and a load of the same row go through memory in the same order, also
where addresses or register numbers go round. A multiple load reads back the words that a multiple
store has written, and over registers that hold them already it changes nothing
(`Loading.words_held`). A string load finds the bytes of the stored registers, so each of its words
is a register as far as it was stored (`Loading.packed_bytes`).
-/

namespace Broadway

open Opcode

/-! ## Leading bytes -/

namespace Word

/-- The first `k` bytes of a word with zeros behind them. -/
def leading (w : Word) (k : Nat) : Word := w >>> (32 - 8 * k) <<< (32 - 8 * k)

theorem leading_of_le (w : Word) {k : Nat} (h : 4 ≤ k) : w.leading k = w := by
  have hshift : 32 - 8 * k = 0 := by omega
  rw [leading, hshift, BitVec.ushiftRight_zero, BitVec.shiftLeft_zero]

theorem byte_leading (w : Word) (k : Nat) {i : Nat} (hi : i < 4) :
    (w.leading k).byte i = if i < k then w.byte i else 0 := by
  apply BitVec.eq_of_getLsbD_eq
  intro j hj
  have hin : 24 - 8 * i + j < 32 := by omega
  simp only [leading, byte, BitVec.getLsbD_extractLsb', BitVec.getLsbD_shiftLeft,
    BitVec.getLsbD_ushiftRight, hj, hin, decide_true, Bool.true_and]
  by_cases hik : i < k
  · have hge : ¬ 24 - 8 * i + j < 32 - 8 * k := by omega
    have hback : 32 - 8 * k + (24 - 8 * i + j - (32 - 8 * k)) = 24 - 8 * i + j := by omega
    rw [if_pos hik, hback]
    simp [hge, hj]
  · have hlt : 24 - 8 * i + j < 32 - 8 * k := by omega
    rw [if_neg hik]
    simp [hlt]

end Word

/-! ## Rows that are read back -/

theorem Registers.setGpr_read (r : Registers) (i : Reg) : r.setGpr i (r.gpr.read i) = r := by
  have hsame : r.gpr.write i (r.gpr.read i) = r.gpr := by
    apply Bank.ext_read
    intro t
    rw [Bank.read_write]
    split
    · next heq => rw [heq]
    · rfl
  rw [setGpr, hsame]

namespace Loading

theorem element_of_readBytes {ram : Ram} {a : Word} {n : Nat} {bytes : List Byte}
    (h : Window.readBytes ram a n = .ok bytes) : element ram a n = .ok bytes := by
  rw [element, h]

/-- A row of words that the registers of its range hold already is read to its end and leaves them
alone. -/
theorem words_held {ram : Ram} {n : Nat} {rd : Reg} {a : Word} {r : Registers}
    (h : ∀ i < n, Window.readBytes ram (a + BitVec.ofNat 32 (4 * i)) 4 =
      .ok (Bytes.ofWord 4 (r.gpr.read (rd + BitVec.ofNat 5 i)))) :
    words ram n rd a r = (none, r) := by
  induction n generalizing rd a with
  | zero => rfl
  | succ n ih =>
      have hfirst := element_of_readBytes (h 0 (Nat.zero_lt_succ n))
      simp only [Nat.mul_zero, BitVec.add_zero] at hfirst
      have hrest : words ram n (rd + 1) (a + 4) r = (none, r) := by
        apply ih
        intro i hi
        have haddress : a + 4 + BitVec.ofNat 32 (4 * i) = a + BitVec.ofNat 32 (4 * (i + 1)) := by
          bv_omega
        have hnumber : rd + 1 + BitVec.ofNat 5 i = rd + BitVec.ofNat 5 (i + 1) := by bv_omega
        rw [haddress, hnumber]
        exact h (i + 1) (Nat.succ_lt_succ hi)
      rw [words, hfirst]
      show words ram n (rd + 1) (a + 4) (r.setGpr rd (Bytes.toWord 4 (Bytes.ofWord 4 _))) = _
      rw [Bytes.toWord_ofWord, Registers.setGpr_read, hrest]

/-- Bytes of a row of words make up the words, as far as there are any. -/
theorem packed_bytes (v : Nat → Word) (n j : Nat) :
    packed (fun k => (v (k / 4)).byte (k % 4)) n j = (v j).leading (n - 4 * j) := by
  apply Word.ext_byte
  intro k hk
  have hword : (4 * j + k) / 4 = j := by omega
  have hplace : (4 * j + k) % 4 = k := by omega
  have hsame : 4 * j + k < n ↔ k < n - 4 * j := by omega
  simp only [byte_packed hk, Word.byte_leading _ _ hk, hword, hplace, hsame]

end Loading

/-! ## Words that save and restore -/

namespace Machine

open Loading (targets)

variable {m : Machine} {s l : Word} {rs : Reg} {a a' : Address} {count count' : ByteCount}
  {r : Registers}

/-- A multiple load after a multiple store of the same registers. -/
theorem execute_restore_multiple (hs : s.MultipleAccess .stmw rs a)
    (hl : l.MultipleAccess .lmw rs a) (hbase : a.base < rs) (hdone : (m.execute s).failure = none)
    (hkept : ∀ t < rs, r.gpr.read t = m.regs.gpr.read t) :
    execute ⟨r, (m.execute s).machine.ram⟩ l =
      ⟨⟨{ r with gpr := m.regs.gpr }, (m.execute s).machine.ram⟩, none⟩ := by
  rw [execute_of_ofWord (Instr.ofWord_of_stmw hs)] at hdone ⊢
  rw [execute_of_ofWord (Instr.ofWord_of_lmw hl hbase)]
  obtain ⟨haligned, hwritten⟩ := MemoryInstr.written_of_storeMultiple hdone
  show Loading.multiple rs a ⟨r, ((MemoryInstr.storeMultiple rs a).exec m).machine.ram⟩ =
    ⟨⟨_, ((MemoryInstr.storeMultiple rs a).exec m).machine.ram⟩, none⟩
  generalize ((MemoryInstr.storeMultiple rs a).exec m).machine.ram = ram at hwritten ⊢
  have hdiffer : { r with gpr := m.regs.gpr }.DifferWithin
      (fun t => (t - rs).toNat < 32 - rs.toNat) r := by
    refine ⟨rfl, ?_⟩
    intro t ht
    have hge : ¬ t < rs := fun hlt => ht (hkept t hlt)
    bv_omega
  have heffective : r.effective a = m.regs.effective a := by
    obtain ⟨-, -, rfl⟩ := hs
    have hbelow : Registers.gprOrZero r (Field.ra s) = m.regs.gprOrZero (Field.ra s) := by
      rw [Registers.gprOrZero, Registers.gprOrZero, hkept (Field.ra s) hbase]
    rw [Registers.effective, Registers.effective, hbelow]
  have hrun : Loading.words ram (32 - rs.toNat) rs (m.regs.effective a)
      { r with gpr := m.regs.gpr } = (none, { r with gpr := m.regs.gpr }) := by
    apply Loading.words_held
    intro i hi
    exact Storing.readBytes_of_row (fun _ => Bytes.length_ofWord 4 _) (by decide) haligned
      (by omega) hwritten hi
  have hcongr := Loading.words_congr hdiffer (congrArg Prod.fst hrun)
  have halign : alignmentFault true (r.effective a) = none := by
    rw [heffective, alignmentFault_eq, if_neg fun h => h.2 haligned]
  rw [Loading.multiple_of_aligned (m := ⟨r, ram⟩) halign]
  simp only [heffective, hcongr, hrun]

/-- The bytes that a string store has written. -/
theorem read_of_storeString (hs : s.StringAccess .stswi .stswx rs a count)
    (hdone : (m.execute s).failure = none) {k : Nat} (hk : k < m.regs.stringCount count) :
    Window.read (m.execute s).machine.ram 1 (m.regs.effective a + BitVec.ofNat 32 k) =
      .ok (Word.byte (m.regs.gpr.read (rs + BitVec.ofNat 5 (k / 4))) (k % 4)) := by
  rw [execute_of_ofWord (Instr.ofWord_of_storeString hs)] at hdone ⊢
  have hwritten := MemoryInstr.written_of_storeString hdone
  have hcount := m.regs.stringCount_lt count
  have hread := Storing.readBytes_of_row (fun _ => List.length_singleton) (Nat.one_dvd _)
    (Nat.one_dvd _) (by omega) hwritten hk
  rw [Nat.one_mul] at hread
  rw [Window.read, Instr.exec, hread]
  exact congrArg Except.ok (Bytes.toWord_singleton _)

/-- What the registers `after` hold once `n` bytes of the registers `saved` have been loaded over
the registers `before`, from `rs` on. -/
structure Restored (rs : Reg) (n : Nat) (saved before after : Registers) : Prop where
  /-- Registers that were stored as a whole hold what they held. -/
  whole : ∀ j, 4 * j + 4 ≤ n →
    after.gpr.read (rs + BitVec.ofNat 5 j) = saved.gpr.read (rs + BitVec.ofNat 5 j)
  /-- The last register, if it was stored in part, holds these bytes and zeros behind them. -/
  part : ∀ j, 4 * j < n → n < 4 * j + 4 →
    after.gpr.read (rs + BitVec.ofNat 5 j) =
      Word.leading (saved.gpr.read (rs + BitVec.ofNat 5 j)) (n - 4 * j)
  others : ∀ t ∉ targets rs n, after.gpr.read t = before.gpr.read t
  rest : after = { before with gpr := after.gpr }

/-- A string load after a string store of the same registers. -/
theorem execute_restore_string (hs : s.StringAccess .stswi .stswx rs a count)
    (hl : l.StringAccess .lswi .lswx rs a' count') (hdone : (m.execute s).failure = none)
    (hcount : r.stringCount count' = m.regs.stringCount count)
    (haddress : r.effective a' = m.regs.effective a)
    (hvalid : ∀ t ∈ a'.registers, t ∉ targets rs (m.regs.stringCount count)) :
    ∃ after, execute ⟨r, (m.execute s).machine.ram⟩ l =
        ⟨⟨after, (m.execute s).machine.ram⟩, none⟩ ∧
      Restored rs (m.regs.stringCount count) m.regs r after := by
  have hbound := m.regs.stringCount_lt count
  rw [execute_of_ofWord (Instr.ofWord_of_loadString hl)]
  have hclear : ∀ t ∈ a'.registers, t ∉ targets rs (r.stringCount count') := by
    rw [hcount]
    exact hvalid
  obtain ⟨after, hload, hfilled⟩ := Loading.string_filled
    (m := ⟨r, (m.execute s).machine.ram⟩)
    (b := fun k => Word.byte (m.regs.gpr.read (rs + BitVec.ofNat 5 (k / 4))) (k % 4)) hclear
    (by
      intro k hk
      show Window.read (m.execute s).machine.ram 1 (r.effective a' + BitVec.ofNat 32 k) = _
      rw [haddress]
      exact read_of_storeString hs hdone (hcount ▸ hk))
  change Loading.Filled rs _ (r.stringCount count') r after at hfilled
  rw [hcount] at hfilled
  have hwords : ∀ j, 4 * j < m.regs.stringCount count →
      after.gpr.read (rs + BitVec.ofNat 5 j) =
        Word.leading (m.regs.gpr.read (rs + BitVec.ofNat 5 j))
          (m.regs.stringCount count - 4 * j) := by
    intro j hj
    rw [hfilled.read_target (by omega) hj]
    exact Loading.packed_bytes (fun i => m.regs.gpr.read (rs + BitVec.ofNat 5 i)) _ j
  refine ⟨after, hload, ?_, ?_, ?_, hfilled.rest⟩
  · intro j hj
    rw [hwords j (by omega), Word.leading_of_le _ (by omega)]
  · intro j hj _
    exact hwords j hj
  · intro t ht
    exact hfilled.read_other ht

/-- **Registers that were saved are restored.** After a multiple store the registers of the row may
hold anything, and so may all that is no general purpose register: the multiple load completes and
the general purpose registers are what they were. After a string store any registers will do that
give the load the same address and count, if the load is valid with them. Memory is left as the
store has left it. -/
theorem save_restore :
    (∀ (m : Machine) (s l : Word) (rs : Reg) (a : Address) (r : Registers),
      s.MultipleAccess .stmw rs a → l.MultipleAccess .lmw rs a → a.base < rs →
      (m.execute s).failure = none → (∀ t < rs, r.gpr.read t = m.regs.gpr.read t) →
      execute ⟨r, (m.execute s).machine.ram⟩ l =
        ⟨⟨{ r with gpr := m.regs.gpr }, (m.execute s).machine.ram⟩, none⟩) ∧
    ∀ (m : Machine) (s l : Word) (rs : Reg) (a a' : Address) (count count' : ByteCount)
      (r : Registers),
      s.StringAccess .stswi .stswx rs a count → l.StringAccess .lswi .lswx rs a' count' →
      (m.execute s).failure = none →
      r.stringCount count' = m.regs.stringCount count → r.effective a' = m.regs.effective a →
      (∀ t ∈ a'.registers, t ∉ targets rs (m.regs.stringCount count)) →
      ∃ after, execute ⟨r, (m.execute s).machine.ram⟩ l =
          ⟨⟨after, (m.execute s).machine.ram⟩, none⟩ ∧
        Restored rs (m.regs.stringCount count) m.regs r after := by
  refine ⟨?_, ?_⟩
  · intro m s l rs a r hs hl hbase hdone hkept
    exact execute_restore_multiple hs hl hbase hdone hkept
  · intro m s l rs a a' count count' r hs hl hdone hcount haddress hvalid
    exact execute_restore_string hs hl hdone hcount haddress hvalid

/-- r30 and r31 are saved with `stmw` and restored with `lmw`, then six bytes of r31 and r0 with
`stswi` and `lswi`. -/
theorem save_restore_round :
    let saved : Registers := (Registers.initial.setGpr 31 0x01020304#32).setGpr 0 0x05060708#32
    let m : Machine := ⟨saved, .zeroed 8⟩
    let wiped : Registers := saved.setGpr 31 0
    (execute ⟨wiped, (m.execute 0xBFC00000#32).machine.ram⟩ 0xBBC00000#32).machine.regs.gpr =
        saved.gpr ∧
      ∃ after : Registers,
        execute ⟨.initial, (m.execute 0x7FE135AA#32).machine.ram⟩ 0x7FE134AA#32 =
          ⟨⟨after, (m.execute 0x7FE135AA#32).machine.ram⟩, none⟩ ∧
        after.gpr.read 31 = 0x01020304#32 ∧ after.gpr.read 0 = 0x05060000#32 := by
  intro saved m wiped
  have hwiped : ∀ t < (30 : Reg), wiped.gpr.read t = m.regs.gpr.read t := by
    intro t ht
    have hne : (31 : Reg) ≠ t := by bv_omega
    exact Bank.read_write_of_ne _ _ hne
  have hmultiple := save_restore.1 m 0xBFC00000#32 0xBBC00000#32 30 (.displaced 0 0) wiped
    ⟨by decide, by decide, by decide⟩ ⟨by decide, by decide, by decide⟩ (by decide)
    (by decide +kernel) hwiped
  obtain ⟨after, hload, hrestored⟩ := save_restore.2 m 0x7FE135AA#32 0x7FE134AA#32 31
    (.displaced 1 0) (.displaced 1 0) (.immediate 6) (.immediate 6) .initial
    (.immediate (by decide)) (.immediate (by decide)) (by decide +kernel) rfl (by decide +kernel)
    (by decide)
  refine ⟨by rw [hmultiple], after, hload, ?_, ?_⟩
  · have hwhole := hrestored.whole 0 (by decide)
    exact hwhole.trans (by decide +kernel)
  · have hpart := hrestored.part 1 (by decide) (by decide)
    exact hpart.trans (by decide +kernel)

end Machine

end Broadway
