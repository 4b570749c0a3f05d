import Broadway.Proofs.Bytes
import Broadway.Proofs.Fault.Restart
import Broadway.Proofs.Instr.Transfers
import Broadway.Proofs.Memory.Copy

/-!
# String loads

A string load fills registers in a row, four bytes each, and the row goes on with register zero
behind register 31. The loop clears a register before its first byte and puts byte after byte into
it, so after `i` bytes the registers hold the first `i` bytes of the string and zeros behind them
(`Loading.Filled`). A load is refused exactly when one of the registers of its address is among
those it would fill (`Machine.string_load_exact`).
-/

namespace Broadway

open Opcode

/-! ## Words byte by byte -/

namespace Word

/-- Byte `k` of a word, counted from the most significant one. -/
def byte (w : Word) (k : Nat) : Byte := w.extractLsb' (24 - 8 * k) 8

theorem byte_toWord {bytes : List Byte} (h : bytes.length = 4) {k : Nat} (hk : k < bytes.length) :
    byte (Bytes.toWord 4 bytes) k = bytes[k] := by
  have hplace : 24 - 8 * k = 8 * (4 - 1 - k) := by omega
  have hlt : k < (Bytes.ofWord 4 (Bytes.toWord 4 bytes)).length := by
    rw [Bytes.length_ofWord]
    omega
  rw [byte, hplace, ← Bytes.getElem_ofWord 4 _ k hlt]
  simp only [Bytes.ofWord_toWord h]

/-- A word is known by its bytes. -/
theorem ext_byte {v w : Word} (h : ∀ k < 4, v.byte k = w.byte k) : v = w := by
  have hbytes : Bytes.ofWord 4 v = Bytes.ofWord 4 w := by
    apply List.ext_getElem
    · rw [Bytes.length_ofWord, Bytes.length_ofWord]
    · intro k hk _
      rw [Bytes.length_ofWord] at hk
      have hplace : 8 * (4 - 1 - k) = 24 - 8 * k := by omega
      rw [Bytes.getElem_ofWord, Bytes.getElem_ofWord, hplace]
      exact h k hk
  rw [← Bytes.toWord_ofWord 4 v, hbytes, Bytes.toWord_ofWord]

theorem byte_or (v w : Word) (k : Nat) : byte (v ||| w) k = v.byte k ||| w.byte k := by
  apply BitVec.eq_of_getLsbD_eq
  intro j hj
  simp only [byte, BitVec.getLsbD_extractLsb', BitVec.getLsbD_or, hj, decide_true, Bool.true_and]

/-- A byte that is shifted to its place stands there and nowhere else. -/
theorem byte_shifted (b : Byte) {k r : Nat} (hk : k < 4) (hr : r < 4) :
    byte (b.setWidth 32 <<< (24 - 8 * r)) k = if k = r then b else 0 := by
  apply BitVec.eq_of_getLsbD_eq
  intro j hj
  have hin : 24 - 8 * k + j < 32 := by omega
  simp only [byte, BitVec.getLsbD_extractLsb', BitVec.getLsbD_shiftLeft, BitVec.getLsbD_setWidth,
    hj, hin, decide_true, Bool.true_and]
  rcases Nat.lt_trichotomy k r with hlt | heq | hgt
  · -- the place lies above the byte
    have hge : 8 ≤ 24 - 8 * k + j - (24 - 8 * r) := by omega
    rw [if_neg (by omega), BitVec.getLsbD_of_ge b _ hge]
    simp
  · subst heq
    have hsub : 24 - 8 * k + j - (24 - 8 * k) = j := by omega
    have hnot : ¬ 24 - 8 * k + j < 24 - 8 * k := by omega
    have hlt : j < 32 := by omega
    rw [if_pos rfl, hsub]
    simp [hnot, hlt]
  · have hlt : 24 - 8 * k + j < 24 - 8 * r := by omega
    rw [if_neg (by omega)]
    simp [hlt]

end Word

/-! ## Strings in registers -/

namespace Loading

/-- Word `j` of a string of `n` bytes; what is missing of it is zero. -/
def packed (b : Nat → Byte) (n j : Nat) : Word :=
  Bytes.toWord 4 ((List.range 4).map fun k => if 4 * j + k < n then b (4 * j + k) else 0)

/-- The registers that a string of `n` bytes fills, from `rd` on. -/
def targets (rd : Reg) (n : Nat) : List Reg :=
  (List.range ((n + 3) / 4)).map fun j => rd + BitVec.ofNat 5 j

variable {b : Nat → Byte} {rd t : Reg} {n i j : Nat}

theorem byte_packed {k : Nat} (hk : k < 4) :
    (packed b n j).byte k = if 4 * j + k < n then b (4 * j + k) else 0 := by
  have hlength : ((List.range 4).map fun k => if 4 * j + k < n then b (4 * j + k) else 0).length
      = 4 := by
    rw [List.length_map, List.length_range]
  rw [packed, Word.byte_toWord hlength (by rw [hlength]; exact hk), List.getElem_map,
    List.getElem_range]

/-- A word that is yet to come is zero. -/
theorem packed_of_le (h : n ≤ 4 * j) : packed b n j = 0 := by
  apply Word.ext_byte
  intro k hk
  rw [byte_packed hk, if_neg (by omega)]
  exact (BitVec.extractLsb'_zero ..).symm

/-- A further byte changes no other word. -/
theorem packed_succ_of_ne (h : j ≠ i / 4) : packed b (i + 1) j = packed b i j := by
  apply Word.ext_byte
  intro k hk
  have hsame : 4 * j + k < i + 1 ↔ 4 * j + k < i := by omega
  simp only [byte_packed hk, hsame]

/-- A further byte is put behind those that its word has already. -/
theorem packed_succ : packed b (i + 1) (i / 4) =
    packed b i (i / 4) ||| (b i).setWidth 32 <<< (24 - 8 * (i % 4)) := by
  apply Word.ext_byte
  intro k hk
  have hplace : 4 * (i / 4) + i % 4 = i := Nat.div_add_mod i 4
  rw [Word.byte_or, Word.byte_shifted (b i) hk (Nat.mod_lt i (by decide)), byte_packed hk,
    byte_packed hk]
  by_cases heq : k = i % 4
  · rw [if_pos heq, if_pos (by omega), if_neg (by omega), heq, hplace]
    exact (BitVec.zero_or ..).symm
  · have hsame : 4 * (i / 4) + k < i + 1 ↔ 4 * (i / 4) + k < i := by omega
    simp only [if_neg heq, hsame]
    exact (BitVec.or_zero ..).symm

theorem covers_iff : covers rd n t = true ↔ (t - rd).toNat < (n + 3) / 4 := by
  rw [covers, decide_eq_true_iff]

/-- The check of a load describes the registers that its loop fills. -/
theorem mem_targets : t ∈ targets rd n ↔ covers rd n t = true := by
  rw [covers_iff, targets, List.mem_map]
  constructor
  · rintro ⟨j, hj, rfl⟩
    have hsub : rd + BitVec.ofNat 5 j - rd = BitVec.ofNat 5 j := by bv_omega
    have hle : (BitVec.ofNat 5 j).toNat ≤ j := Nat.mod_le _ _
    have hlt : j < (n + 3) / 4 := List.mem_range.1 hj
    rw [hsub]
    omega
  · intro hlt
    refine ⟨(t - rd).toNat, List.mem_range.2 hlt, ?_⟩
    rw [BitVec.ofNat_toNat, BitVec.setWidth_eq]
    bv_omega

/-- The second register file is the first one with the first `i` bytes of a string in it. -/
structure Filled (rd : Reg) (b : Nat → Byte) (i : Nat) (r r' : Registers) : Prop where
  rest : r' = { r with gpr := r'.gpr }
  gpr : ∀ t, r'.gpr.read t =
    if covers rd i t then packed b i (t - rd).toNat else r.gpr.read t

namespace Filled

variable {r r' : Registers}

theorem zero (rd : Reg) (b : Nat → Byte) (r : Registers) : Filled rd b 0 r r where
  rest := rfl
  gpr t := by
    have hnone : ¬ covers rd 0 t = true := by
      rw [covers_iff]
      omega
    rw [if_neg hnone]

/-- One turn of the loop: the target is cleared if the byte is its first, and the byte is put into
it. -/
theorem step (h : Filled rd b i r r') (hi : i < 128) {target : Reg}
    (htarget : target = rd + BitVec.ofNat 5 (i / 4)) {cleared : Registers}
    (hcleared : cleared = if i % 4 = 0 then r'.setGpr target 0 else r') :
    Filled rd b (i + 1) r (cleared.setGpr target
      (cleared.gpr.read target ||| (b i).setWidth 32 <<< (24 - 8 * (i % 4)))) := by
  have hnumber : (target - rd).toNat = i / 4 := by
    have hsub : target - rd = BitVec.ofNat 5 (i / 4) := by
      rw [htarget]
      bv_omega
    rw [hsub, BitVec.toNat_ofNat]
    omega
  have hrest : cleared = { r with gpr := cleared.gpr } := by
    rw [hcleared]
    split
    · rw [Registers.setGpr, h.rest]
    · exact h.rest
  have hread : cleared.gpr.read target = packed b i (i / 4) := by
    rw [hcleared]
    split
    · rw [packed_of_le (by omega)]
      exact Bank.read_write_self ..
    · have hcovered : covers rd i target = true := by
        rw [covers_iff, hnumber]
        omega
      rw [h.gpr, if_pos hcovered, hnumber]
  have hother : ∀ t, target ≠ t → cleared.gpr.read t = r'.gpr.read t := by
    intro t hne
    rw [hcleared]
    split
    · exact Bank.read_write_of_ne _ _ hne
    · rfl
  constructor
  · rw [Registers.setGpr, hrest]
  · intro t
    rw [Registers.setGpr, Bank.read_write]
    by_cases heq : target = t
    · subst heq
      have hcovered : covers rd (i + 1) target = true := by
        rw [covers_iff, hnumber]
        omega
      rw [if_pos rfl, if_pos hcovered, hread, hnumber, packed_succ]
    · have hne : (t - rd).toNat ≠ i / 4 := by
        intro hsame
        have hback : t = target := by
          rw [htarget, ← hsame, BitVec.ofNat_toNat, BitVec.setWidth_eq]
          bv_omega
        exact heq hback.symm
      have hcovers : covers rd (i + 1) t = covers rd i t := by
        rw [Bool.eq_iff_iff, covers_iff, covers_iff]
        omega
      rw [if_neg heq, hother t heq, h.gpr, hcovers, packed_succ_of_ne hne]

/-- A string without bytes fills nothing. -/
theorem eq (h : Filled rd b 0 r r') : r' = r := by
  have hgpr : r'.gpr = r.gpr := by
    apply Bank.ext_read
    intro t
    have hnone : ¬ covers rd 0 t = true := by
      rw [covers_iff]
      omega
    rw [h.gpr, if_neg hnone]
  rw [h.rest, hgpr]

/-- A filled register holds its word of the string. -/
theorem read_target (h : Filled rd b n r r') (hn : n ≤ 128) (hj : 4 * j < n) :
    r'.gpr.read (rd + BitVec.ofNat 5 j) = packed b n j := by
  have hnumber : (rd + BitVec.ofNat 5 j - rd).toNat = j := by
    have hsub : rd + BitVec.ofNat 5 j - rd = BitVec.ofNat 5 j := by bv_omega
    rw [hsub, BitVec.toNat_ofNat]
    omega
  have hcovered : covers rd n (rd + BitVec.ofNat 5 j) = true := by
    rw [covers_iff, hnumber]
    omega
  rw [h.gpr, if_pos hcovered, hnumber]

theorem read_other (h : Filled rd b n r r') (ht : t ∉ targets rd n) :
    r'.gpr.read t = r.gpr.read t := by
  rw [mem_targets] at ht
  rw [h.gpr, if_neg ht]

end Filled

/-- A row of bytes that memory holds is read to its end, and fills the registers of its range. -/
theorem bytes_filled {ram : Ram} {ea : Word} {r r' : Registers} (h : Filled rd b i r r')
    (hn : i + n ≤ 128)
    (hread : ∀ k, i ≤ k → k < i + n → Window.read ram 1 (ea + BitVec.ofNat 32 k) = .ok (b k)) :
    ∃ final, bytes ram rd ea n i r' = (none, final) ∧ Filled rd b (i + n) r final := by
  induction n generalizing i r' with
  | zero => exact ⟨r', rfl, h⟩
  | succ n ih =>
      obtain ⟨first, hfirst, hvalue⟩ :=
        element_of_read (hread i (Nat.le_refl i) (by omega))
      have hnext : i + 1 + n = i + (n + 1) := by omega
      obtain ⟨final, hrest, hfilled⟩ := ih (h.step (by omega) rfl rfl) (by omega)
        fun k hik hkn => hread k (by omega) (by omega)
      refine ⟨final, ?_, hnext ▸ hfilled⟩
      rw [bytes]
      simp only [hfirst, hvalue]
      exact hrest

/-- A string load over bytes that memory holds completes, unless it would fill a register of its
address. -/
theorem string_filled {m : Machine} {a : Address} {count : ByteCount}
    (hclear : ∀ t ∈ a.registers, t ∉ targets rd (m.regs.stringCount count))
    (hread : ∀ k < m.regs.stringCount count,
      Window.read m.ram 1 (m.regs.effective a + BitVec.ofNat 32 k) = .ok (b k)) :
    ∃ final, string rd a count m = m.done final ∧
      Filled rd b (m.regs.stringCount count) m.regs final := by
  have hcount := m.regs.stringCount_lt count
  have hfind : a.registers.find? (covers rd (m.regs.stringCount count)) = none := by
    rw [List.find?_eq_none]
    intro t ht
    rw [← mem_targets]
    exact hclear t ht
  have hrow : ∀ k, 0 ≤ k → k < 0 + m.regs.stringCount count →
      Window.read m.ram 1 (m.regs.effective a + BitVec.ofNat 32 k) = .ok (b k) := by
    intro k _ hk
    exact hread k (by omega)
  obtain ⟨final, hrun, hfilled⟩ := bytes_filled (.zero rd b m.regs) (by omega) hrow
  rw [Nat.zero_add] at hfilled
  refine ⟨final, ?_, hfilled⟩
  rw [string_of_clear hfind, hrun]
  rfl

/-- A string load is refused for the registers of its address, and for nothing else. -/
theorem string_invalid_iff {m : Machine} {a : Address} {count : ByteCount} :
    (∃ e, (string rd a count m).failure = some (.invalid e)) ↔
      ∃ t ∈ a.registers, t ∈ targets rd (m.regs.stringCount count) := by
  constructor
  · rintro ⟨e, he⟩
    refine Classical.byContradiction fun hnone => ?_
    have hfind : a.registers.find? (covers rd (m.regs.stringCount count)) = none := by
      rw [List.find?_eq_none]
      intro t ht hcovers
      exact hnone ⟨t, ht, mem_targets.2 hcovers⟩
    rw [string_of_clear hfind] at he
    obtain ⟨address, hfault⟩ := bytes_failure he
    contradiction
  · rintro ⟨t, ht, htarget⟩
    cases hfind : a.registers.find? (covers rd (m.regs.stringCount count)) with
    | none => exact absurd (mem_targets.1 htarget) (List.find?_eq_none.1 hfind t ht)
    | some source =>
        refine ⟨.stringOverSource (stringMnemonic count) source rd, ?_⟩
        unfold string
        simp only [hfind]
        rfl

end Loading

/-! ## Words that load strings -/

namespace Machine

open Loading (packed targets)

/-- The word `w` loads a string of `n` bytes at `ea` into registers from `rd` on. The registers
`sources` make its address. -/
structure LoadsString (m : Machine) (w : Word) (rd : Reg) (sources : List Reg) (ea : Word)
    (n : Nat) : Prop where
  /-- It is invalid if and only if it would fill a register of its address. -/
  invalid : (∃ e, (m.execute w).failure = some (.invalid e)) ↔ ∃ t ∈ sources, t ∈ targets rd n
  /-- If it is valid and memory holds the bytes of the string, it completes. Every register of its
  range becomes its word of the string, and nothing else changes. -/
  loads : (∀ t ∈ sources, t ∉ targets rd n) → ∀ b : Nat → Byte,
    (∀ k < n, Window.read m.ram 1 (ea + BitVec.ofNat 32 k) = .ok (b k)) →
    ∃ regs : Registers, m.execute w = m.done regs ∧
      (∀ j, 4 * j < n → regs.gpr.read (rd + BitVec.ofNat 5 j) = packed b n j) ∧
      (∀ t ∉ targets rd n, regs.gpr.read t = m.regs.gpr.read t) ∧
      regs = { m.regs with gpr := regs.gpr }
  empty : n = 0 → m.execute w = m.done m.regs

variable {m : Machine} {w : Word} {rd : Reg} {a : Address} {count : ByteCount}

theorem loadsString (hw : w.StringAccess .lswi .lswx rd a count) :
    m.LoadsString w rd a.registers (m.regs.effective a) (m.regs.stringCount count) := by
  have hexec : m.execute w = Loading.string rd a count m := by
    rw [execute_of_ofWord (Instr.ofWord_of_loadString hw)]
    rfl
  have hcount := m.regs.stringCount_lt count
  constructor
  case invalid =>
    rw [hexec]
    exact Loading.string_invalid_iff
  case loads =>
    intro hclear b hread
    obtain ⟨regs, hdone, hfilled⟩ := Loading.string_filled hclear hread
    refine ⟨regs, hexec.trans hdone, ?_, ?_, hfilled.rest⟩
    · intro j hj
      exact hfilled.read_target (by omega) hj
    · intro t ht
      exact hfilled.read_other ht
  case empty =>
    intro hzero
    have hclear : ∀ t ∈ a.registers, t ∉ targets rd (m.regs.stringCount count) := by
      intro t _
      rw [hzero]
      exact List.not_mem_nil
    obtain ⟨regs, hdone, hfilled⟩ := Loading.string_filled (b := fun _ => 0) hclear
      fun k hk => absurd hk (by omega)
    rw [hzero] at hfilled
    rw [hexec, hdone, hfilled.eq]

/-- **String loads are exact and reject exactly the dangerous forms.** An immediate count of zero
is 32; the other count is in the seven low bits of XER. Register zero is no base, but it must not
be filled when an address names it. -/
theorem string_load_exact (m : Machine) (w : Word) :
    (Fixed.lswi.Selects w → m.LoadsString w (Field.rt w) [Field.ra w]
      (m.regs.gprOrZero (Field.ra w)) (if Field.rb w = 0 then 32 else (Field.rb w).toNat)) ∧
    (Fixed.lswx.Selects w → m.LoadsString w (Field.rt w) [Field.ra w, Field.rb w]
      (m.regs.gprOrZero (Field.ra w) + m.regs.gpr.read (Field.rb w))
      (m.regs.xer.extractLsb' 0 7).toNat) := by
  constructor
  · intro hw
    have hloads := loadsString (m := m) (.immediate hw)
    have heffective : m.regs.effective (.displaced (Field.ra w) 0) =
        m.regs.gprOrZero (Field.ra w) := BitVec.add_zero _
    rw [heffective] at hloads
    exact hloads
  · intro hw
    have hloads := loadsString (m := m) (.indexed hw)
    have hcount : m.regs.stringCount .fromXer = (m.regs.xer.extractLsb' 0 7).toNat := by
      show (m.regs.xer &&& 0x7F#32).toNat = _
      rw [BitVec.toNat_and, BitVec.extractLsb'_toNat, Nat.shiftRight_zero]
      exact Nat.and_two_pow_sub_one_eq_mod m.regs.xer.toNat 7
    rw [hcount] at hloads
    exact hloads

/-- `lswi r31, r1, 6` goes round to register zero, and `lswx r3, 0, r4` may not load eight bytes. -/
theorem string_load_exact_round :
    let m : Machine := ⟨{ Registers.initial with xer := 8 }, .ofBytes ⟨#[1, 2, 3, 4, 5, 6]⟩⟩
    (∃ regs : Registers, m.execute 0x7FE134AA#32 = m.done regs ∧
      regs.gpr.read 31 = 0x01020304#32 ∧ regs.gpr.read 0 = 0x05060000#32) ∧
    ∃ e, (m.execute 0x7C60242A#32).failure = some (.invalid e) := by
  intro m
  have hlswi := (string_load_exact m 0x7FE134AA#32).1 (by decide)
  have hlswx := (string_load_exact m 0x7C60242A#32).2 (by decide)
  have hread : ∀ k < 6, Window.read m.ram 1 (0#32 + BitVec.ofNat 32 k) =
      .ok (BitVec.ofNat 8 (k + 1)) := by
    intro k hk
    have hheld : m.ram.Holds (0#32 + BitVec.ofNat 32 k) 1 := by
      refine ⟨rfl, ?_⟩
      show (0#32 + BitVec.ofNat 32 k).toNat % 2 ^ 31 + 1 ≤ 6
      simp
      omega
    rw [Window.read_of_holds hheld]
    rcases k with _ | _ | _ | _ | _ | _ | k
    all_goals first | rfl | omega
  obtain ⟨regs, hdone, hwords, -⟩ := hlswi.loads (by decide) (fun k => BitVec.ofNat 8 (k + 1)) hread
  exact ⟨⟨regs, hdone, hwords 0 (by decide), hwords 1 (by decide)⟩,
    hlswx.invalid.2 ⟨4, by decide, by decide⟩⟩

end Machine

end Broadway
