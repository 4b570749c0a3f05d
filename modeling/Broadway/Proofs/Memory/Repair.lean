import Broadway.Proofs.Memory.Transfer

/-!
# Repaired memory and repeated transfers

Memory is repaired by growing it, by attaching it again, or by both (`Ram.repaired`); none of the
bytes it held is touched (`Ram.byte_repaired`).

A transfer that is repeated over what an earlier attempt has left behind comes to the same end,
because it writes once more whatever the attempt may have written: a row of writes covers every
byte in which two memories differ (`Storing.writeAll_congr`), and a row of loads fills every
register in which two register files differ, from scratch (`Loading.words_congr`,
`Loading.bytes_congr`).
-/

namespace Broadway

namespace Ram

/-- Size, connection and bytes are all that there is to memory. -/
theorem ext_byte {r r' : Ram} (hsize : r.size = r'.size) (hcon : r.connected = r'.connected)
    (hbyte : ∀ i, r.byte i = r'.byte i) : r = r' := by
  cases r with | mk b c => cases r' with | mk b' c' =>
  cases b with | mk d => cases b' with | mk d' =>
  congr
  apply Array.ext
  · exact hsize
  · intro i hi hi'
    have h := hbyte i
    simp only [byte, ByteArray.get!] at h
    rw [getElem!_pos d i hi, getElem!_pos d' i hi'] at h
    exact UInt8.toBitVec_inj.1 h

/-- Memory that has grown holds the bytes it held. -/
theorem byte_resize {r : Ram} {size : Nat} (h : r.size ≤ size) (i : Nat) :
    (r.resize size).byte i = r.byte i := by
  unfold resize
  split
  · next hle =>
    have hsize : size = r.bytes.size := Nat.le_antisymm hle h
    rw [byte, hsize, ByteArray.extract_zero_size, byte]
  · rw [byte, get!_appendZeros, byte]

/-- Memory after a repair: grown to `size`, and attached again if `on` says so. -/
def repaired (r : Ram) (size : Nat) (on : Bool) : Ram :=
  if on then (r.resize size).setConnected true else r.resize size

@[simp]
theorem size_repaired (r : Ram) (size : Nat) (on : Bool) : (r.repaired size on).size = size := by
  unfold repaired
  split
  · exact size_resize r size
  · exact size_resize r size

theorem connected_repaired (r : Ram) (size : Nat) (on : Bool) :
    (r.repaired size on).connected = (on || r.connected) := by
  have hresize : (r.resize size).connected = r.connected := by
    unfold resize
    split <;> rfl
  cases on with
  | true => rfl
  | false => exact hresize

theorem byte_repaired {r : Ram} {size : Nat} (h : r.size ≤ size) (on : Bool) (i : Nat) :
    (r.repaired size on).byte i = r.byte i := by
  unfold repaired
  split
  · exact byte_resize h i
  · exact byte_resize h i

end Ram

/-! ## Writes over other writes -/

namespace Storing

/-- A row of writes that completes comes to the same end from any memory that differs only where it
writes. -/
theorem writeAll_congr {es : List (Word × List Byte)} {ram ram' : Ram}
    (hsize : ram'.size = ram.size) (hcon : ram'.connected = ram.connected)
    (hbyte : ∀ n, ram'.byte n ≠ ram.byte n →
      ∃ e ∈ es, e.1.toNat % 2 ^ 31 ≤ n ∧ n < e.1.toNat % 2 ^ 31 + e.2.length)
    (h : (writeAll ram es).1 = none) : writeAll ram' es = writeAll ram es := by
  induction es generalizing ram ram' with
  | nil =>
      have hsame : ram' = ram := by
        refine Ram.ext_byte hsize hcon fun n => ?_
        by_cases hn : ram'.byte n = ram.byte n
        · exact hn
        · obtain ⟨e, he, -⟩ := hbyte n hn
          contradiction
      rw [hsame]
  | cons e rest ih =>
      rw [writeAll_cons] at h ⊢
      rw [writeAll_cons]
      by_cases hheld : ram.Holds e.1 e.2.length
      · have hheld' : ram'.Holds e.1 e.2.length := (Ram.holds_congr hsize hcon _ _).2 hheld
        rw [if_pos hheld] at h ⊢
        rw [if_pos hheld']
        refine ih ?_ hcon ?_ h
        · rw [Ram.size_put, Ram.size_put, hsize]
        · intro n hn
          rw [Ram.byte_put hheld'.2, Ram.byte_put hheld.2] at hn
          -- where the first element lies both memories now hold its bytes
          split at hn
          · exact absurd rfl hn
          · next hout =>
            obtain ⟨x, hx, hin⟩ := hbyte n hn
            rcases List.mem_cons.1 hx with rfl | hx
            · exact absurd hin hout
            · exact ⟨x, hx, hin⟩
      · rw [if_neg hheld] at h
        contradiction

end Storing

/-! ## Loads over other loads -/

namespace Registers

/-- The second register file differs from the first at most in general purpose registers of a given
set. -/
structure DifferWithin (S : Reg → Prop) (r r' : Registers) : Prop where
  rest : r' = { r with gpr := r'.gpr }
  gpr : ∀ t, r'.gpr.read t ≠ r.gpr.read t → S t

namespace DifferWithin

variable {S T : Reg → Prop} {r r' : Registers}

theorem mono (h : DifferWithin S r r') (hST : ∀ t, S t → T t) : DifferWithin T r r' :=
  ⟨h.rest, fun t ht => hST t (h.gpr t ht)⟩

theorem read (h : DifferWithin S r r') {t : Reg} (ht : ¬ S t) : r'.gpr.read t = r.gpr.read t := by
  by_cases hsame : r'.gpr.read t = r.gpr.read t
  · exact hsame
  · exact absurd (h.gpr t hsame) ht

theorem eq (h : DifferWithin S r r') (hS : ∀ t, ¬ S t) : r' = r := by
  have hgpr : r'.gpr = r.gpr := Bank.ext_read fun t => h.read (hS t)
  rw [h.rest, hgpr]

/-- A register that is filled anew does not differ any more. -/
theorem setGpr (h : DifferWithin S r r') (i : Reg) (v : Word) :
    DifferWithin (fun t => S t ∧ t ≠ i) (r.setGpr i v) (r'.setGpr i v) := by
  constructor
  · rw [h.rest]
    rfl
  · intro t ht
    rw [Registers.setGpr, Registers.setGpr, Bank.read_write, Bank.read_write] at ht
    split at ht
    · exact absurd rfl ht
    · next hne => exact ⟨h.gpr t ht, fun heq => hne heq.symm⟩

/-- A register that is changed in place does not begin to differ. -/
theorem changeGpr (h : DifferWithin S r r') (i : Reg) (f : Word → Word) :
    DifferWithin S (r.setGpr i (f (r.gpr.read i))) (r'.setGpr i (f (r'.gpr.read i))) := by
  constructor
  · rw [h.rest]
    rfl
  · intro t ht
    rw [Registers.setGpr, Registers.setGpr, Bank.read_write, Bank.read_write] at ht
    split at ht
    · next heq =>
      subst heq
      exact h.gpr i fun hsame => ht (congrArg f hsame)
    · exact h.gpr t ht

theorem gprOrZero (h : DifferWithin S r r') {t : Reg} (ht : ¬ S t) :
    r'.gprOrZero t = r.gprOrZero t := by
  rw [Registers.gprOrZero, Registers.gprOrZero, h.read ht]

theorem effective (h : DifferWithin S r r') {address : Address}
    (hS : ∀ t ∈ address.registers, ¬ S t) : r'.effective address = r.effective address := by
  cases address with
  | displaced b d =>
      have hb : ¬ S b := hS b (List.mem_singleton_self b)
      rw [Registers.effective, Registers.effective, h.gprOrZero hb]
  | indexed b i =>
      have hb : ¬ S b := hS b List.mem_cons_self
      have hi : ¬ S i := hS i (List.mem_cons_of_mem b (List.mem_singleton_self i))
      rw [Registers.effective, Registers.effective, h.gprOrZero hb, h.read hi]

theorem stringCount (h : DifferWithin S r r') (count : ByteCount) :
    r'.stringCount count = r.stringCount count := by
  rw [h.rest]
  rfl

end DifferWithin

end Registers

namespace Loading

/-- A row of words that completes comes to the same end from any registers that differ only in its
range. -/
theorem words_congr {ram : Ram} {n : Nat} {rd : Reg} {a : Word} {r r' : Registers}
    (hdiffer : r.DifferWithin (fun t => (t - rd).toNat < n) r')
    (h : (words ram n rd a r).1 = none) : words ram n rd a r' = words ram n rd a r := by
  induction n generalizing rd a r r' with
  | zero => rw [hdiffer.eq fun t => Nat.not_lt_zero _]
  | succ n ih =>
      unfold words at h ⊢
      cases helement : element ram a 4 with
      | error f =>
          rw [helement] at h
          contradiction
      | ok bytes =>
          rw [helement] at h
          refine ih ((hdiffer.setGpr rd _).mono ?_) h
          rintro t ⟨hlt, hne⟩
          bv_omega

/-- A register that one of the bytes from number `i` up to number `k` is the first to reach. -/
def Awaits (rd : Reg) (i k : Nat) (t : Reg) : Prop :=
  ∃ j, i ≤ j ∧ j < k ∧ j % 4 = 0 ∧ t = rd + BitVec.ofNat 5 (j / 4)

/-- A row of bytes that completes comes to the same end from any registers that differ only in
targets that are yet to be cleared. -/
theorem bytes_congr {ram : Ram} {rd : Reg} {ea : Word} {n i : Nat} {r r' : Registers}
    (hdiffer : r.DifferWithin (Awaits rd i (i + n)) r')
    (h : (bytes ram rd ea n i r).1 = none) : bytes ram rd ea n i r' = bytes ram rd ea n i r := by
  induction n generalizing i r r' with
  | zero =>
      have hnone : ∀ t, ¬ Awaits rd i (i + 0) t := by
        rintro t ⟨j, hij, hji, -⟩
        omega
      rw [hdiffer.eq hnone]
  | succ n ih =>
      have hlater : ∀ t, Awaits rd i (i + (n + 1)) t →
          (i % 4 = 0 → t ≠ rd + BitVec.ofNat 5 (i / 4)) → Awaits rd (i + 1) (i + 1 + n) t := by
        rintro t ⟨j, hij, hjn, hj0, hjt⟩ htarget
        have hne : j ≠ i := by
          intro heq
          subst heq
          exact htarget hj0 hjt
        exact ⟨j, by omega, by omega, hj0, hjt⟩
      unfold bytes at h ⊢
      simp only at h ⊢
      generalize rd + BitVec.ofNat 5 (i / 4) = target at h hlater ⊢
      -- the target is either cleared now or has been before
      have hcleared : (if i % 4 = 0 then r.setGpr target 0 else r).DifferWithin
          (Awaits rd (i + 1) (i + 1 + n)) (if i % 4 = 0 then r'.setGpr target 0 else r') := by
        by_cases h0 : i % 4 = 0
        · rw [if_pos h0, if_pos h0]
          exact (hdiffer.setGpr target 0).mono fun t ht => hlater t ht.1 fun _ => ht.2
        · rw [if_neg h0, if_neg h0]
          exact hdiffer.mono fun t ht => hlater t ht fun h0' => absurd h0' h0
      cases helement : element ram (ea + BitVec.ofNat 32 i) 1 with
      | error f =>
          rw [helement] at h
          contradiction
      | ok b =>
          rw [helement] at h
          exact ih (hcleared.changeGpr target (· ||| _)) h

end Loading

end Broadway
