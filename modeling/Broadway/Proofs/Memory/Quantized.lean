import Broadway.Proofs.Float.Quantize
import Broadway.Proofs.Instr.Transfers
import Broadway.Proofs.Memory.Copy
import Broadway.Proofs.Memory.Repair

/-!
# Quantized transfers

A quantized store scales a lane, cuts off the fraction and clamps, as one does with rational numbers
(`Quantizer.Stored`); what it clamps to keeps the order of the lanes and does not wrap
(`Machine.quantized_store_exact`).

A quantized load makes lanes of elements and a quantized store makes elements of lanes. One after
the other, in the same form and at the same address, they write what memory holds already
(`Storing.writeAll_of_held`), so memory stays as it is (`Machine.quantized_load_store`).
-/

namespace Broadway

/-! ## Lanes in memory -/

/-- The order of the numbers and the infinities. What is not a number is not in it. -/
inductive Datum.AtMost : Datum → Datum → Prop
  | number {d e : Datum} {v w : Rat} (hd : d.value? = some v) (he : e.value? = some w)
      (h : v ≤ w) : AtMost d e
  | negative {e : Datum} (he : e ≠ .nan) : AtMost (.infinity true) e
  | positive {d : Datum} (hd : d ≠ .nan) : AtMost d (.infinity false)

namespace Quantizer

variable {q : Quantizer}

/-- The integer that a datum is to be stored as. -/
inductive Stored (q : Quantizer) : Datum → Int → Prop
  /-- The exact product without its fraction, or the end of the integers that it is beyond. -/
  | number {d : Datum} {v : Rat} (hd : d.value? = some v) :
      Stored q d
        (max q.type.ends.1 (min q.type.ends.2 (Rounding.towardZero.round (v * 2 ^ q.scale))))
  | positive : Stored q (.infinity false) q.type.ends.2
  | negative : Stored q (.infinity true) q.type.ends.1
  | nan : Stored q .nan q.type.ends.1

theorem stored_toInteger (htype : q.type ≠ .float) (hq : q.ScaleFits) (x : Double) :
    q.Stored x.datum (q.toInteger x) := by
  have hrange := QuantizeType.range_eq_ends htype
  cases hx : x.datum with
  | nan =>
      rw [toInteger_nan hx, hrange]
      exact .nan
  | infinity s =>
      rw [toInteger_infinity hq hx, hrange]
      cases s with
      | true => exact .negative
      | false => exact .positive
  | finite s m e =>
      have hv : x.datum.value? = some _ := congrArg Datum.value? hx
      rw [toInteger_number hq hv, hrange]
      exact .number rfl

/-- A greater lane is stored as a greater integer, or as the same one. -/
theorem toInteger_mono (hq : q.ScaleFits) {x y : Double} (h : x.datum.AtMost y.datum) :
    q.toInteger x ≤ q.toInteger y := by
  obtain ⟨hxlow, hxhigh⟩ := q.toInteger_within x
  obtain ⟨hylow, hyhigh⟩ := q.toInteger_within y
  generalize hx : x.datum = d at h
  generalize hy : y.datum = e at h
  cases h with
  | @number d e v w hd he hle =>
      have hscale : v * 2 ^ q.scale ≤ w * 2 ^ q.scale :=
        Rat.mul_le_mul_of_nonneg_right hle (Rat.le_of_lt (Rat.zpow_pos (by decide)))
      have hround := Rounding.towardZero_mono hscale
      rw [toInteger_number hq (hx ▸ hd), toInteger_number hq (hy ▸ he)]
      omega
  | negative he =>
      rw [toInteger_infinity hq hx]
      exact hylow
  | positive hd =>
      rw [toInteger_infinity hq hy]
      exact hxhigh

/-- How a lane lies in memory as an integer. -/
structure Stores (q : Quantizer) (x : Double) (n : Int) : Prop where
  exact : q.Stored x.datum n
  /-- The bytes are those of the integer in two's complement, the most significant one first. -/
  bytes : q.quantize x = Bytes.ofWord q.type.size (BitVec.ofInt (8 * q.type.size) n)
  /-- The integer does not wrap: it is the one that the bytes are read back as. -/
  readBack : q.type.integer (q.quantize x) = n

theorem stores_toInteger (htype : q.type ≠ .float) (hq : q.ScaleFits) (x : Double) :
    q.Stores x (q.toInteger x) where
  exact := stored_toInteger htype hq x
  bytes := quantize_eq htype x
  readBack := integer_quantize htype x

end Quantizer

/-! ## Elements that are read and written -/

/-- What memory holds may be written where it is. -/
theorem Ram.put_slice {ram : Ram} {offset n : Nat} (h : offset + n ≤ ram.size) :
    ram.put offset (ram.slice offset n) = ram := by
  have hfit : offset + (ram.slice offset n).length ≤ ram.size := by
    rw [length_slice]
    exact h
  apply ext_byte
  · exact size_put ..
  · rfl
  · intro i
    rw [byte_put hfit]
    split
    · next hin =>
      have hlt : i - offset < (ram.slice offset n).length := by omega
      rw [← List.getElem_eq_getD (h := hlt), getElem_slice, Nat.add_sub_cancel' hin.1]
    · rfl

/-- A run of writes of what memory holds completes and changes nothing. -/
theorem Storing.writeAll_of_held {ram : Ram} {es : List (Word × List Byte)}
    (h : ∀ e ∈ es, Window.readBytes ram e.1 e.2.length = .ok e.2) :
    writeAll ram es = (none, ram) := by
  induction es with
  | nil => rfl
  | cons e rest ih =>
      have hread := h e List.mem_cons_self
      rw [Window.readBytes_eq] at hread
      split at hread
      · next hheld =>
        have hput : ram.put (e.1.toNat % 2 ^ 31) e.2 = ram := by
          rw [← Except.ok.inj hread]
          exact Ram.put_slice hheld.2
        rw [writeAll_cons, if_pos hheld, hput]
        exact ih fun x hx => h x (List.mem_cons_of_mem e hx)
      · contradiction

namespace Loading

theorem readBytes_of_element {ram : Ram} {a : Word} {n : Nat} {bytes : List Byte}
    (h : element ram a n = .ok bytes) :
    Window.readBytes ram a n = .ok bytes ∧ bytes.length = n := by
  rw [element_eq] at h
  split at h
  · next hheld =>
    rw [← Except.ok.inj h]
    exact ⟨by rw [Window.readBytes_eq, if_pos hheld], Ram.length_slice ..⟩
  · contradiction

/-- The lanes of a quantized load stand for elements that memory holds. -/
theorem quantizedLanes_ok {ram : Ram} {q : Quantizer} {ea : Word} {one : Bool} {lanes : Lanes}
    (h : quantizedLanes ram q ea one = .ok lanes) :
    (∃ bytes, element ram ea q.type.size = .ok bytes ∧ lanes.ps0 = q.dequantize bytes) ∧
    (one = false → ∃ bytes,
      element ram (ea + BitVec.ofNat 32 q.type.size) q.type.size = .ok bytes ∧
        lanes.ps1 = q.dequantize bytes) := by
  unfold quantizedLanes at h
  split at h
  · contradiction
  · next bytes hbytes =>
    cases one with
    | true =>
        cases h
        exact ⟨⟨bytes, hbytes, rfl⟩, nofun⟩
    | false =>
        rw [if_neg Bool.false_ne_true] at h
        split at h
        · contradiction
        · next bytes' hbytes' =>
          cases h
          exact ⟨⟨bytes, hbytes, rfl⟩, fun _ => ⟨bytes', hbytes', rfl⟩⟩

/-- An element that was made a lane is written back as it was read. -/
theorem readBytes_quantize {ram : Ram} {q : Quantizer} (hq : q.ScaleFits) {a : Word}
    {bytes : List Byte} (h : element ram a q.type.size = .ok bytes) :
    Window.readBytes ram a (q.quantize (q.dequantize bytes)).length =
      .ok (q.quantize (q.dequantize bytes)) := by
  obtain ⟨hread, hlength⟩ := readBytes_of_element h
  rw [Quantizer.quantize_dequantize hq hlength, hlength]
  exact hread

end Loading

namespace Storing

/-- The elements of a quantized store. -/
def lanes (q : Quantizer) (ea : Word) (one : Bool) (x : Lanes) : List (Word × List Byte) :=
  if one then [(ea, q.quantize x.ps0)]
  else [(ea, q.quantize x.ps0), (ea + BitVec.ofNat 32 q.type.size, q.quantize x.ps1)]

variable {q : Quantizer} {ea : Word} {one : Bool} {x : Lanes}

theorem quantized_eq {r : Registers} {t : Reg} {a : Address} {g : BitVec 3} {u : Bool}
    (h : Quantizer.forStore (r.gqr.read g) = .ok q) :
    quantized t a one g u r =
      .ok ⟨lanes q (r.effective a) one (r.fpr.read t), r.updateBase u a (r.effective a)⟩ := by
  simp only [quantized, h]
  rfl

theorem first_mem_lanes : (ea, q.quantize x.ps0) ∈ lanes q ea one x := by
  cases one <;> exact List.mem_cons_self

theorem second_mem_lanes (h : one = false) :
    (ea + BitVec.ofNat 32 q.type.size, q.quantize x.ps1) ∈ lanes q ea one x := by
  subst h
  exact List.mem_cons_of_mem _ (List.mem_singleton.2 rfl)

theorem mem_lanes {e : Word × List Byte} (h : e ∈ lanes q ea one x) :
    e = (ea, q.quantize x.ps0) ∨
      one = false ∧ e = (ea + BitVec.ofNat 32 q.type.size, q.quantize x.ps1) := by
  cases one with
  | true => exact .inl (List.mem_singleton.1 h)
  | false =>
      rcases List.mem_cons.1 h with hfirst | hsecond
      · exact .inl hfirst
      · exact .inr ⟨rfl, List.mem_singleton.1 hsecond⟩

theorem pairwise_lanes : (lanes q ea one x).Pairwise Apart := by
  cases one with
  | true => exact List.pairwise_singleton _ _
  | false =>
      refine List.pairwise_cons.2 ⟨?_, List.pairwise_singleton _ _⟩
      intro e he
      obtain rfl := List.mem_singleton.1 he
      have hsum : (q.quantize x.ps0).length + (q.quantize x.ps1).length ≤ 2 ^ 31 := by
        rw [Quantizer.length_quantize, Quantizer.length_quantize]
        cases q.type <;> decide
      have hapart := apart_following ea hsum
      rwa [Quantizer.length_quantize] at hapart

end Storing

/-! ## Stores -/

namespace Machine

variable {m : Machine} {w l s : Word} {t : Reg} {a b : Address} {one u : Bool} {g : BitVec 3}
  {q : Quantizer}

/-- A quantized store that completes leaves its lanes in memory. -/
theorem readBytes_of_quantized (hw : Instr.ofWord w = .ok (.memory (.storeQuantized t a one g u)))
    (hq : Quantizer.forStore (m.regs.gqr.read g) = .ok q) (hdone : (m.execute w).failure = none) :
    Window.readBytes (m.execute w).machine.ram (m.regs.effective a) q.type.size =
      .ok (q.quantize (m.regs.fpr.read t).ps0) ∧
    (one = false →
      Window.readBytes (m.execute w).machine.ram
          (m.regs.effective a + BitVec.ofNat 32 q.type.size) q.type.size =
        .ok (q.quantize (m.regs.fpr.read t).ps1)) := by
  have hstore := execute_of_ofWord hw m
  rw [Instr.exec, MemoryInstr.exec, Storing.quantized_eq hq, Storing.exec?] at hstore
  rw [hstore] at hdone ⊢
  have hwritten : Storing.writeAll m.ram
      (Storing.lanes q (m.regs.effective a) one (m.regs.fpr.read t)) = (none, _) :=
    Storing.writeAll_of_completed hdone
  refine ⟨?_, ?_⟩
  · have hread :=
      Storing.readBytes_of_writeAll hwritten Storing.pairwise_lanes Storing.first_mem_lanes
    simp only [Quantizer.length_quantize] at hread
    exact hread
  · intro hone
    have hread :=
      Storing.readBytes_of_writeAll hwritten Storing.pairwise_lanes (Storing.second_mem_lanes hone)
    simp only [Quantizer.length_quantize] at hread
    exact hread

/-- **Quantized stores scale, truncate and saturate exactly.** For every integer type, every scale
of six bits and every lane, what is written are the bytes of the integer that the rule on rational
numbers asks for, the order of the lanes is kept, and the integer does not wrap. A quantized store
that completes leaves these bytes at its address, and those of the second lane behind them. -/
theorem quantized_store_exact :
    (∀ q : Quantizer, q.type ≠ .float → -32 ≤ q.scale ∧ q.scale ≤ 31 →
      (∀ x, ∃ n, q.Stores x n) ∧
      ∀ x y : Double, x.datum.AtMost y.datum →
        q.type.integer (q.quantize x) ≤ q.type.integer (q.quantize y)) ∧
    ∀ (m : Machine) (w : Word) (t : Reg) (a : Address) (one : Bool) (g : BitVec 3) (u : Bool)
      (q : Quantizer),
      Instr.ofWord w = .ok (.memory (.storeQuantized t a one g u)) →
      Quantizer.forStore (m.regs.gqr.read g) = .ok q → (m.execute w).failure = none →
      Window.readBytes (m.execute w).machine.ram (m.regs.effective a) q.type.size =
        .ok (q.quantize (m.regs.fpr.read t).ps0) ∧
      (one = false →
        Window.readBytes (m.execute w).machine.ram
            (m.regs.effective a + BitVec.ofNat 32 q.type.size) q.type.size =
          .ok (q.quantize (m.regs.fpr.read t).ps1)) := by
  refine ⟨?_, ?_⟩
  · intro q htype hq
    refine ⟨fun x => ⟨q.toInteger x, Quantizer.stores_toInteger htype hq x⟩, ?_⟩
    intro x y hxy
    rw [Quantizer.integer_quantize htype, Quantizer.integer_quantize htype]
    exact Quantizer.toInteger_mono hq hxy
  · intro m w t a one g u q hw hq hdone
    exact readBytes_of_quantized hw hq hdone

/-- A lane of 1.5, in eighths and as a signed byte, is stored as twelve. -/
theorem quantized_store_exact_eighths :
    let q : Quantizer := ⟨.s8, 3⟩
    let r : Registers := { Registers.initial with
      fpr := .fill 5 (.both 0x3FF8000000000000#64), gqr := .fill 3 0x00000306#32 }
    let m : Machine := ⟨r, .zeroed 8⟩
    (∃ n, q.Stores 0x3FF8000000000000#64 n) ∧
      q.type.integer (q.quantize 0x3FF8000000000000#64) ≤
        q.type.integer (q.quantize 0x7FF0000000000000#64) ∧
      Window.readBytes (m.execute 0xF0208004#32).machine.ram 4#32 1 = .ok [12] := by
  intro q r m
  obtain ⟨hstores, hmono⟩ := quantized_store_exact.1 q (by decide) (by decide)
  have hatMost : Datum.AtMost (Double.datum 0x3FF8000000000000#64)
      (Double.datum 0x7FF0000000000000#64) := .positive (by decide)
  have hbytes : q.quantize 0x3FF8000000000000#64 = [12] := by decide +kernel
  have hq : Quantizer.forStore (m.regs.gqr.read 0) = .ok q := by
    rw [show m.regs.gqr.read 0 = 0x00000306#32 from Bank.read_fill ..]
    rfl
  obtain ⟨hread, -⟩ := quantized_store_exact.2 m 0xF0208004#32 1 (.displaced 0 4) true 0 false q
    rfl hq (by decide +kernel)
  have hlanes : m.regs.fpr.read 1 = .both 0x3FF8000000000000#64 := Bank.read_fill ..
  rw [hlanes] at hread
  exact ⟨hstores _, hmono _ _ hatMost, hread.trans (congrArg Except.ok hbytes)⟩

/-! ## Loads and stores after them -/

/-- A quantized load that completes can be undone by a quantized store, which leaves memory as it
is. -/
theorem ram_of_quantized (hl : Instr.ofWord l = .ok (.memory (.loadQuantized t a one g false)))
    (hs : Instr.ofWord s = .ok (.memory (.storeQuantized t b one g false)))
    (htype : (m.regs.gqr.read g).extractLsb' 16 3 = (m.regs.gqr.read g).extractLsb' 0 3)
    (hscale : (m.regs.gqr.read g).extractLsb' 24 6 = (m.regs.gqr.read g).extractLsb' 8 6)
    (hdone : (m.execute l).failure = none)
    (haddress : m.regs.effective b = m.regs.effective a) :
    ((m.execute l).machine.execute s).failure = none ∧
      ((m.execute l).machine.execute s).machine.ram = m.ram := by
  have hload := execute_of_ofWord hl m
  rw [Instr.exec, MemoryInstr.exec] at hload
  rcases Loading.quantized_cases t a one g false m with ⟨f, hfail⟩ | ⟨q, lanes, hq, hlanes, hok⟩
  · rw [hload, hfail] at hdone
    contradiction
  · obtain ⟨-, hram, hfpr, hgqr⟩ := loaded (hload.trans hok)
    have hfits : q.ScaleFits := Quantizer.scale_bounds hq
    -- the load leaves the registers of the address alone
    have heffective : (m.execute l).machine.regs.effective b = m.regs.effective a := by
      rw [← haddress, hload, hok]
      rfl
    -- both halves of the register hold the same form
    have hq' : Quantizer.forStore ((m.execute l).machine.regs.gqr.read g) = .ok q := by
      rw [hgqr, Quantizer.forStore, ← htype, ← hscale]
      exact hq
    obtain ⟨⟨bytes, hbytes, hps0⟩, hsecond⟩ := Loading.quantizedLanes_ok hlanes
    have hheld : ∀ e ∈ Storing.lanes q (m.regs.effective a) one lanes,
        Window.readBytes m.ram e.1 e.2.length = .ok e.2 := by
      intro e he
      rcases Storing.mem_lanes he with rfl | ⟨hone, rfl⟩
      · rw [hps0]
        exact Loading.readBytes_quantize hfits hbytes
      · obtain ⟨bytes', hbytes', hps1⟩ := hsecond hone
        rw [hps1]
        exact Loading.readBytes_quantize hfits hbytes'
    have hwritten : Storing.writeAll (m.execute l).machine.ram
        (Storing.lanes q (m.regs.effective a) one lanes) = (none, m.ram) := by
      rw [hram]
      exact Storing.writeAll_of_held hheld
    have hstore := execute_of_ofWord hs (m.execute l).machine
    rw [Instr.exec, MemoryInstr.exec, Storing.quantized_eq hq', Storing.exec?, hfpr, heffective,
      Storing.exec_of_written hwritten] at hstore
    rw [hstore]
    exact ⟨rfl, rfl⟩

/-- **A quantized load and a quantized store after it leave memory as it was.** Every element of
every type and scale is what its lane is stored as. So when both halves of a quantization register
hold one type and one scale, `psq_l` or `psq_lx`, if it completes, may be followed by `psq_st` or
`psq_stx` of the same register, width and address, which completes and changes no byte. -/
theorem quantized_load_store :
    (∀ (q : Quantizer) (bytes : List Byte), -32 ≤ q.scale ∧ q.scale ≤ 31 →
      bytes.length = q.type.size → q.quantize (q.dequantize bytes) = bytes) ∧
    ∀ (m : Machine) (l s : Word) (t : Reg) (a b : Address) (one : Bool) (g : BitVec 3),
      l.QuantizedAccess .psqL .psqLx t a one g → s.QuantizedAccess .psqSt .psqStx t b one g →
      (m.regs.gqr.read g).extractLsb' 16 3 = (m.regs.gqr.read g).extractLsb' 0 3 →
      (m.regs.gqr.read g).extractLsb' 24 6 = (m.regs.gqr.read g).extractLsb' 8 6 →
      (m.execute l).failure = none →
      m.regs.effective b = m.regs.effective a →
      ((m.execute l).machine.execute s).failure = none ∧
        ((m.execute l).machine.execute s).machine.ram = m.ram := by
  refine ⟨?_, ?_⟩
  · intro q bytes hq hlength
    exact Quantizer.quantize_dequantize hq hlength
  · intro m l s t a b one g hl hs htype hscale hdone haddress
    exact ram_of_quantized (Instr.ofWord_of_loadQuantized hl) (Instr.ofWord_of_storeQuantized hs)
      htype hscale hdone haddress

/-- `psq_l` and `psq_st` of two signed halfwords in units of eight. -/
theorem quantized_load_store_halves :
    let m : Machine := ⟨{ Registers.initial with gqr := .fill 3 0x3D073D07#32 },
      (Ram.zeroed 8).put 2 [0x80, 0x00, 0x7F, 0xFF]⟩
    let q : Quantizer := ⟨.s16, -3⟩
    q.quantize (q.dequantize [0x80, 0x00]) = [0x80, 0x00] ∧
      ((m.execute 0xE0200002#32).machine.execute 0xF0200002#32).failure = none ∧
      ((m.execute 0xE0200002#32).machine.execute 0xF0200002#32).machine.ram = m.ram := by
  intro m q
  have hl : Word.QuantizedAccess .psqL .psqLx 0xE0200002#32 1 (.displaced 0 2) false 0 :=
    .displaced rfl
  have hs : Word.QuantizedAccess .psqSt .psqStx 0xF0200002#32 1 (.displaced 0 2) false 0 :=
    .displaced rfl
  have hdone : (m.execute 0xE0200002#32).failure = none := by decide +kernel
  refine ⟨quantized_load_store.1 q _ (by decide) rfl, ?_⟩
  exact quantized_load_store.2 m _ _ 1 (.displaced 0 2) (.displaced 0 2) false 0 hl hs
    (by decide +kernel) (by decide +kernel) hdone rfl

end Machine

end Broadway
