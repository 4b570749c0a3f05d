import Broadway.Proofs.Float.Storage
import Broadway.Proofs.Memory.Footprint
import Broadway.Proofs.Memory.Window

/-!
# Words copied through the floating point registers

A load widens the words that it reads and a store narrows what it writes, so the two together copy
words, whatever is in them (`storage_lossless`). Single precision loads and stores move one word,
quantized ones of the float type one or two; what the words of a row become is told by
`Storing.read_of_writeAll`.
-/

namespace Broadway

/-! ## Elements that are read -/

/-- A value that is read from memory is held there, and so are its bytes. -/
theorem Loading.element_of_read {ram : Ram} {k : Nat} {a : Word} {v : BitVec (8 * k)}
    (h : Window.read ram k a = .ok v) :
    ∃ bytes, Loading.element ram a k = .ok bytes ∧ Bytes.toWord k bytes = v := by
  rw [Window.read_eq] at h
  rw [Loading.element_eq]
  split at h
  · next hheld =>
    rw [if_pos hheld]
    exact ⟨_, rfl, Except.ok.inj h⟩
  · contradiction

namespace Storing

/-- A run of writes completes if memory holds all its elements. -/
theorem writeAll_of_holds {ram : Ram} {es : List (Word × List Byte)}
    (h : ∀ e ∈ es, ram.Holds e.1 e.2.length) : (writeAll ram es).1 = none := by
  induction es generalizing ram with
  | nil => rfl
  | cons e rest ih =>
      rw [writeAll_cons, if_pos (h e List.mem_cons_self)]
      apply ih
      intro x hx
      exact (Ram.holds_congr (Ram.size_put _ _ _) (Ram.connected_put _ _ _) _ _).2
        (h x (List.mem_cons_of_mem _ hx))

/-- The words of a run of writes are read back, if its elements lie apart. -/
theorem read_of_writeAll {ram : Ram} {es : List (Word × List Byte)}
    (h : ∀ e ∈ es, ram.Holds e.1 e.2.length) (hapart : es.Pairwise Apart) {a v : Word}
    (hmem : (a, Bytes.ofWord 4 v) ∈ es) : Window.read (writeAll ram es).2 4 a = .ok v := by
  have hrun : writeAll ram es = (none, (writeAll ram es).2) :=
    Prod.ext (writeAll_of_holds h) rfl
  have hbytes : Window.readBytes (writeAll ram es).2 a (Bytes.ofWord 4 v).length = _ :=
    readBytes_of_writeAll hrun hapart hmem
  rw [Bytes.length_ofWord] at hbytes
  rw [Window.read, hbytes]
  exact congrArg Except.ok (Bytes.toWord_ofWord 4 v)

/-- The elements of a transfer of one word, or of two that lie one behind the other. -/
def wordElements (start : Word) (one : Bool) (x y : Word) : List (Word × List Byte) :=
  (start, Bytes.ofWord 4 x) :: if one then [] else [(start + 4#32, Bytes.ofWord 4 y)]

theorem mem_wordElements {start x y : Word} {one : Bool} {e : Word × List Byte}
    (h : e ∈ wordElements start one x y) :
    e = (start, Bytes.ofWord 4 x) ∨ one = false ∧ e = (start + 4#32, Bytes.ofWord 4 y) := by
  cases one with
  | true => exact .inl (List.mem_singleton.1 h)
  | false =>
      rcases List.mem_cons.1 h with hfirst | hsecond
      · exact .inl hfirst
      · exact .inr ⟨rfl, List.mem_singleton.1 hsecond⟩

theorem pairwise_wordElements (start : Word) (one : Bool) (x y : Word) :
    (wordElements start one x y).Pairwise Apart := by
  cases one with
  | true => exact List.pairwise_singleton _ _
  | false =>
      refine List.pairwise_cons.2 ⟨?_, List.pairwise_singleton _ _⟩
      intro e he
      rw [List.mem_singleton.1 he]
      have hsum : (Bytes.ofWord 4 x).length + (Bytes.ofWord 4 y).length ≤ 2 ^ 31 := by
        rw [Bytes.length_ofWord, Bytes.length_ofWord]
        decide
      have hapart := apart_following start hsum
      rwa [Bytes.length_ofWord] at hapart

theorem holds_wordElements {ram : Ram} {start x y : Word} {one : Bool}
    (hfirst : ram.Holds start 4) (hsecond : one = false → ram.Holds (start + 4#32) 4) :
    ∀ e ∈ wordElements start one x y, ram.Holds e.1 e.2.length := by
  intro e he
  rcases mem_wordElements he with rfl | ⟨hone, rfl⟩
  · rw [Bytes.length_ofWord]
    exact hfirst
  · rw [Bytes.length_ofWord]
    exact hsecond hone

end Storing

/-! ## Loads and stores -/

/-- A load of a word that can be read leaves it in both lanes. -/
theorem Loading.single_of_read {m : Machine} {t : Reg} {a : Address} {u : Bool} {v : Word}
    (halign : 4 ∣ (m.regs.effective a).toNat)
    (hread : Window.read m.ram 4 (m.regs.effective a) = .ok v) :
    Loading.single .single t a u m =
      m.done ((m.regs.setFpr t (.both (Single.widen v))).updateBase u a (m.regs.effective a)) := by
  obtain ⟨bytes, hbytes, hv⟩ := element_of_read hread
  have hfault : alignmentFault true (m.regs.effective a) = none := by
    rw [alignmentFault_eq, if_neg fun h => h.2 halign]
  rw [← hv]
  simp only [single, Load.aligned, hfault, Load.size, hbytes]
  rfl

/-- The lanes that a quantized load of the float type reads. -/
theorem Loading.quantized_of_read {m : Machine} {t : Reg} {a : Address} {one u : Bool}
    {g : BitVec 3} {v v' : Word} (hfloat : (m.regs.gqr.read g).extractLsb' 16 3 = 0)
    (hread : Window.read m.ram 4 (m.regs.effective a) = .ok v)
    (hread' : one = false → Window.read m.ram 4 (m.regs.effective a + 4#32) = .ok v') :
    ∃ lanes : Lanes, lanes.ps0 = Single.widen v ∧ (one = false → lanes.ps1 = Single.widen v') ∧
      Loading.quantized t a one g u m =
        m.done ((m.regs.setFpr t lanes).updateBase u a (m.regs.effective a)) := by
  obtain ⟨bytes, hbytes, hv⟩ := element_of_read hread
  have htype : Quantizer.forLoad (m.regs.gqr.read g) =
      .ok ⟨.float, ((m.regs.gqr.read g).extractLsb' 24 6).toInt⟩ := by
    rw [Quantizer.forLoad, Quantizer.ofFields, hfloat]
    rfl
  rw [← hv]
  cases one with
  | true =>
      refine ⟨⟨Single.widen (Bytes.toWord 4 bytes), Double.one⟩, rfl, nofun, ?_⟩
      simp only [quantized, htype, quantizedLanes, QuantizeType.size, hbytes, if_true]
      rfl
  | false =>
      obtain ⟨bytes', hbytes', hv'⟩ := element_of_read (hread' rfl)
      rw [← hv']
      refine ⟨⟨Single.widen (Bytes.toWord 4 bytes), Single.widen (Bytes.toWord 4 bytes')⟩, rfl,
        fun _ => rfl, ?_⟩
      simp only [quantized, htype, quantizedLanes, QuantizeType.size, hbytes, hbytes',
        Bool.false_eq_true, if_false]
      rfl

namespace Storing

/-- A transfer of words that memory holds completes, and leaves the words there. -/
theorem exec_wordElements {m : Machine} {start x y : Word} {one : Bool} {regs : Registers}
    (hfirst : m.ram.Holds start 4) (hsecond : one = false → m.ram.Holds (start + 4#32) 4) :
    let o := Storing.exec ⟨wordElements start one x y, regs⟩ m
    o.failure = none ∧ Window.read o.machine.ram 4 start = .ok x ∧
      (one = false → Window.read o.machine.ram 4 (start + 4#32) = .ok y) := by
  have hholds := holds_wordElements (x := x) (y := y) hfirst hsecond
  have hapart := pairwise_wordElements start one x y
  have hrun : writeAll m.ram (wordElements start one x y) =
      (none, (writeAll m.ram (wordElements start one x y)).2) :=
    Prod.ext (writeAll_of_holds hholds) rfl
  intro o
  have ho : o = ⟨⟨regs, (writeAll m.ram (wordElements start one x y)).2⟩, none⟩ :=
    exec_of_written (s := ⟨wordElements start one x y, regs⟩) hrun
  rw [ho]
  refine ⟨rfl, read_of_writeAll hholds hapart List.mem_cons_self, ?_⟩
  rintro rfl
  exact read_of_writeAll hholds hapart (List.mem_cons_of_mem _ (List.mem_singleton.2 rfl))

/-- What a store of single precision works out. -/
theorem single_of_aligned {r : Registers} {t : Reg} {b : Address} {u : Bool}
    (halign : 4 ∣ (r.effective b).toNat) :
    single .single t b u r =
      .ok ⟨wordElements (r.effective b) true (Single.narrow (r.fpr.read t).ps0) 0,
        r.updateBase u b (r.effective b)⟩ := by
  have hfault : alignmentFault true (r.effective b) = none := by
    rw [alignmentFault_eq, if_neg fun h => h.2 halign]
  simp only [single, Store.aligned, hfault, Store.bytes]
  rfl

/-- What a quantized store of the float type works out. -/
theorem quantized_of_float {r : Registers} {t : Reg} {b : Address} {one u : Bool} {g : BitVec 3}
    (hfloat : (r.gqr.read g).extractLsb' 0 3 = 0) :
    quantized t b one g u r =
      .ok ⟨wordElements (r.effective b) one (Single.narrow (r.fpr.read t).ps0)
          (Single.narrow (r.fpr.read t).ps1), r.updateBase u b (r.effective b)⟩ := by
  have htype : Quantizer.forStore (r.gqr.read g) =
      .ok ⟨.float, ((r.gqr.read g).extractLsb' 8 6).toInt⟩ := by
    rw [Quantizer.forStore, Quantizer.ofFields, hfloat]
    rfl
  simp only [quantized, htype]
  cases one <;> rfl

end Storing

/-! ## Copies -/

/-- The word `l` loads and the word `s` stores: both complete, and then the word `v` is at the
address `target`. -/
structure Machine.Copies (m : Machine) (l s target v : Word) : Prop where
  loads : (m.execute l).failure = none
  stores : ((m.execute l).machine.execute s).failure = none
  word : Window.read ((m.execute l).machine.execute s).machine.ram 4 target = .ok v

section Copies

variable {m : Machine} {l s : Word} {t : Reg} {a b : Address} {u u' : Bool} {v v' : Word}

/-- What a load of lanes leaves for the store. -/
theorem Machine.loaded {lanes : Lanes} {e : Word}
    (h : m.execute l = m.done ((m.regs.setFpr t lanes).updateBase u a e)) :
    (m.execute l).failure = none ∧ (m.execute l).machine.ram = m.ram ∧
      (m.execute l).machine.regs.fpr.read t = lanes ∧
      (m.execute l).machine.regs.gqr = m.regs.gqr := by
  have hlanes : (m.regs.setFpr t lanes).fpr.read t = lanes := Bank.read_write_self ..
  rw [h]
  cases u <;> exact ⟨rfl, rfl, hlanes, rfl⟩

/-- A single precision load and a store of the same register copy a word. -/
theorem Machine.copies_single (hl : Instr.ofWord l = .ok (.memory (.load .single t a u)))
    (hs : Instr.ofWord s = .ok (.memory (.store .single t b u')))
    (halign : 4 ∣ (m.regs.effective a).toNat)
    (hread : Window.read m.ram 4 (m.regs.effective a) = .ok v)
    (halign' : 4 ∣ ((m.execute l).machine.regs.effective b).toNat)
    (hheld : m.ram.Holds ((m.execute l).machine.regs.effective b) 4) :
    m.Copies l s ((m.execute l).machine.regs.effective b) v := by
  have hload : m.execute l = m.done
      ((m.regs.setFpr t (.both (Single.widen v))).updateBase u a (m.regs.effective a)) := by
    rw [execute_of_ofWord hl]
    exact Loading.single_of_read halign hread
  obtain ⟨hloads, hram, hlanes, -⟩ := loaded hload
  have hword : Single.narrow ((m.execute l).machine.regs.fpr.read t).ps0 = v := by
    rw [hlanes]
    exact Single.narrow_widen v
  have hstore := execute_of_ofWord hs (m.execute l).machine
  rw [Instr.exec, MemoryInstr.exec, Storing.single_of_aligned halign', hword, Storing.exec?]
    at hstore
  have hsecond : true = false →
      (m.execute l).machine.ram.Holds ((m.execute l).machine.regs.effective b + 4#32) 4 := by
    intro hone
    contradiction
  obtain ⟨hstores, hfirst, -⟩ := Storing.exec_wordElements (hram.symm ▸ hheld) hsecond
  rw [← hstore] at hstores hfirst
  exact ⟨hloads, hstores, hfirst⟩

/-- A quantized load and a quantized store of the same register, both of the float type, copy one
word or two. -/
theorem Machine.copies_quantized {one one' : Bool} {g g' : BitVec 3}
    (hl : Instr.ofWord l = .ok (.memory (.loadQuantized t a one g u)))
    (hs : Instr.ofWord s = .ok (.memory (.storeQuantized t b one' g' u')))
    (hfloat : (m.regs.gqr.read g).extractLsb' 16 3 = 0)
    (hfloat' : (m.regs.gqr.read g').extractLsb' 0 3 = 0)
    (hread : Window.read m.ram 4 (m.regs.effective a) = .ok v)
    (hread' : one = false → Window.read m.ram 4 (m.regs.effective a + 4#32) = .ok v')
    (hheld : m.ram.Holds ((m.execute l).machine.regs.effective b) 4)
    (hheld' : one' = false → m.ram.Holds ((m.execute l).machine.regs.effective b + 4#32) 4) :
    m.Copies l s ((m.execute l).machine.regs.effective b) v ∧
      (one = false → one' = false →
        m.Copies l s ((m.execute l).machine.regs.effective b + 4#32) v') := by
  obtain ⟨lanes, hps0, hps1, hloading⟩ :=
    Loading.quantized_of_read (t := t) (u := u) hfloat hread hread'
  have hload : m.execute l =
      m.done ((m.regs.setFpr t lanes).updateBase u a (m.regs.effective a)) := by
    rw [execute_of_ofWord hl]
    exact hloading
  obtain ⟨hloads, hram, hlanes, hgqr⟩ := loaded hload
  have hword : Single.narrow ((m.execute l).machine.regs.fpr.read t).ps0 = v := by
    rw [hlanes, hps0, Single.narrow_widen]
  have hword' : one = false →
      Single.narrow ((m.execute l).machine.regs.fpr.read t).ps1 = v' := by
    intro hone
    rw [hlanes, hps1 hone, Single.narrow_widen]
  have hstore := execute_of_ofWord hs (m.execute l).machine
  rw [Instr.exec, MemoryInstr.exec, Storing.quantized_of_float (by rw [hgqr]; exact hfloat'), hword,
    Storing.exec?] at hstore
  obtain ⟨hstores, hfirst, hsecond⟩ := Storing.exec_wordElements (hram.symm ▸ hheld)
    (fun hone' => hram.symm ▸ hheld' hone')
  rw [← hstore] at hstores hfirst hsecond
  refine ⟨⟨hloads, hstores, hfirst⟩, ?_⟩
  intro hone hone'
  rw [hword' hone] at hsecond
  exact ⟨hloads, hstores, hsecond hone'⟩

end Copies

/-- **Storage in single precision is lossless**, for every word. Widening keeps the number, the
infinity or the NaN that a word stands for and narrowing takes it back; so a load of single
precision with a store after it copies a word bit for bit, and so do a quantized load and a
quantized store of the float type, with one word or two. -/
theorem storage_lossless :
    (∀ w : Word, Single.Lossless w) ∧
    (∀ (m : Machine) (l s : Word) (t : Reg) (a b : Address) (u u' : Bool) (v : Word),
      Instr.ofWord l = .ok (.memory (.load .single t a u)) →
      Instr.ofWord s = .ok (.memory (.store .single t b u')) →
      let source := m.regs.effective a
      let target := (m.execute l).machine.regs.effective b
      4 ∣ source.toNat → Window.read m.ram 4 source = .ok v →
      4 ∣ target.toNat → m.ram.Holds target 4 → m.Copies l s target v) ∧
    ∀ (m : Machine) (l s : Word) (t : Reg) (a b : Address) (one one' : Bool) (g g' : BitVec 3)
      (u u' : Bool) (v v' : Word),
      Instr.ofWord l = .ok (.memory (.loadQuantized t a one g u)) →
      Instr.ofWord s = .ok (.memory (.storeQuantized t b one' g' u')) →
      (m.regs.gqr.read g).extractLsb' 16 3 = 0 → (m.regs.gqr.read g').extractLsb' 0 3 = 0 →
      let source := m.regs.effective a
      let target := (m.execute l).machine.regs.effective b
      Window.read m.ram 4 source = .ok v →
      (one = false → Window.read m.ram 4 (source + 4#32) = .ok v') →
      m.ram.Holds target 4 → (one' = false → m.ram.Holds (target + 4#32) 4) →
      m.Copies l s target v ∧
        (one = false → one' = false → m.Copies l s (target + 4#32) v') := by
  refine ⟨Single.lossless, ?_, ?_⟩
  · intro m l s t a b u u' v hl hs source target halign hread halign' hheld
    exact Machine.copies_single hl hs halign hread halign' hheld
  · intro m l s t a b one one' g g' u u' v v' hl hs hfloat hfloat' source target hread hread' hheld
      hheld'
    exact Machine.copies_quantized hl hs hfloat hfloat' hread hread' hheld hheld'

/-- `lfs` and `stfs` copy a signalling NaN, and `psq_l` and `psq_st` a pair of a denormal number
and a negative zero. -/
theorem storage_lossless_nan :
    let nan : Machine :=
      ⟨.initial, (Ram.zeroed 8).put 0 (Bytes.ofWord 4 0x7F800001#32)⟩
    let pair : Machine :=
      ⟨.initial, (Ram.zeroed 16).put 0 (Bytes.ofWord 8 0x0000000180000000#64)⟩
    nan.Copies 0xC0200000#32 0xD0200004#32 4#32 0x7F800001#32 ∧
      pair.Copies 0xE0200000#32 0xF0200008#32 8#32 1#32 ∧
      pair.Copies 0xE0200000#32 0xF0200008#32 12#32 0x80000000#32 := by
  intro nan pair
  have hnan : Window.read nan.ram 4 0#32 = .ok 0x7F800001#32 := by
    refine (Window.read_put (r := .zeroed 8) (a := 0) (o := 0) ?_ ?_ ?_).trans (congrArg _ ?_)
    all_goals decide
  have hfirst : Window.read pair.ram 4 0#32 = .ok 1#32 := by
    refine (Window.read_put (r := .zeroed 16) (a := 0) (o := 0) ?_ ?_ ?_).trans (congrArg _ ?_)
    all_goals decide
  have hsecond : Window.read pair.ram 4 4#32 = .ok 0x80000000#32 := by
    refine (Window.read_put (r := .zeroed 16) (a := 0) (o := 4) ?_ ?_ ?_).trans (congrArg _ ?_)
    all_goals decide
  refine ⟨?_, ?_⟩
  · exact storage_lossless.2.1 nan 0xC0200000#32 0xD0200004#32 1 (.displaced 0 0) (.displaced 0 4)
      false false 0x7F800001#32 rfl rfl (by decide) hnan (by decide) (by decide)
  · obtain ⟨hcopy, hcopy'⟩ := storage_lossless.2.2 pair 0xE0200000#32 0xF0200008#32 1
      (.displaced 0 0) (.displaced 0 8) false false 0 0 false false 1#32 0x80000000#32 rfl rfl
      (by decide) (by decide) hfirst (fun _ => hsecond) (by decide) (by decide)
    exact ⟨hcopy, hcopy' rfl rfl⟩

end Broadway
