import Broadway.Proofs.Exec.ResultClass
import Broadway.Proofs.Float.Reload
import Broadway.Proofs.Memory.Truncation

/-!
# Single precision results in memory

The instructions that round to single precision (`Word.RoundsToSingle`) leave in both lanes of their
register what was rounded. Such a lane is a widened word, so it comes back as it was when a store of
single precision or a quantized one of the float type writes it and a load of the same kind reads it
(`Single.Survives`): be it a denormal number, an infinity, a zero with its sign or a NaN with its
payload. `single_results_survive` says so for every instruction and every state.
-/

namespace Broadway

open Opcode

/-! ## Instructions that round -/

/-- Words that round what they deliver to single precision: the arithmetic of group 59, the rounding
itself and paired arithmetic, selections apart. -/
inductive Word.RoundsToSingle (w : Word) : Prop
  | scalar {op : SingleArith} (hw : op.Selects w)
  | round (hw : DoubleMove.frsp.Selects w)
  | paired {op : PairedArith} (hw : op.Selects w) (hop : op ≠ .sel)

/-- Such a word completes and leaves rounded numbers in both lanes. -/
theorem Machine.execute_rounds {w : Word} (hw : w.RoundsToSingle) (m : Machine) :
    ∃ r x y, m.execute w = m.done r ∧
      r.fpr.read (Field.rt w) = ⟨Single.round x, Single.round y⟩ := by
  cases hw with
  | scalar hw =>
      exact ⟨_, _, _, execute_of_ofWord (Instr.ofWord_of_scalar hw) m,
        m.regs.read_finishFloat_single (Field.rt w) _ _⟩
  | round hw =>
      have hi : Instr.ofWord w =
          .ok (.float (.roundToSingle (Field.rt w) (Field.rb w) (Field.bit31 w))) := by
        rw [Instr.ofWord_of_doubleMove hw (by decide), Instr.ofXForm63, hw.ofCode?_xForm]
        simp only [XForm.decode, Instr.reg_setWidth]
      exact ⟨_, _, _, execute_of_ofWord hi m, m.regs.read_finishFloat_single (Field.rt w) _ _⟩
  | @paired op hw hop =>
      by_cases hsum : op = .sum1
      · -- the one instruction that takes its first lane from a register as it is
        subst hsum
        have hi : Instr.ofWord w = .ok (.paired (.sum .ps1 (Field.rt w) (Field.ra w) (Field.rb w)
            (Field.rc w) (Field.bit31 w))) := by
          rw [Instr.ofWord_of_pairedArith hw, Instr.ofAForm4, hw.ofCode?_aForm]
          simp only [AForm.decode, Instr.reg_setWidth]
        refine ⟨_, (m.regs.fpr.read (Field.rc w)).ps0, (Fpu.add m.regs.fpscr
          (m.regs.fpr.read (Field.ra w)).ps0 (m.regs.fpr.read (Field.rb w)).ps1).1,
          execute_of_ofWord hi m, ?_⟩
        simp only [PairedInstr.exec, Registers.fpr_recordStatusIf]
        exact Bank.read_write_self ..
      · have hother : op ∉ [PairedArith.sel, .sum1] := by
          simp only [List.mem_cons, List.not_mem_nil, or_false, not_or]
          exact ⟨hop, hsum⟩
        obtain ⟨x, y, s, hdone⟩ := execute_pairedArith hw hother m
        exact ⟨_, x, y, hdone, Registers.read_finishPair ..⟩

/-! ## Stores and loads -/

/-- What a quantized store of the float type leaves, if memory holds the words: the narrowed lanes,
and all else that the load after it looks at as it was. -/
structure Machine.StoresQuantized (m : Machine) (s : Word) (t : Reg) (target : Word) (one : Bool) :
    Prop where
  completes : (m.execute s).failure = none
  first : Window.read (m.execute s).machine.ram 4 target =
    .ok (Single.narrow (m.regs.fpr.read t).ps0)
  second : one = false → Window.read (m.execute s).machine.ram 4 (target + 4#32) =
    .ok (Single.narrow (m.regs.fpr.read t).ps1)
  quantizers : (m.execute s).machine.regs.gqr = m.regs.gqr
  held : ∀ a n, (m.execute s).machine.ram.Holds a n ↔ m.ram.Holds a n

section Quantized

variable {m : Machine} {s : Word} {t : Reg} {b : Address} {one u : Bool} {g : BitVec 3}

theorem Machine.storesQuantized
    (hs : Instr.ofWord s = .ok (.memory (.storeQuantized t b one g u)))
    (hfloat : (m.regs.gqr.read g).extractLsb' 0 3 = 0)
    (hheld : m.ram.Holds (m.regs.effective b) 4)
    (hheld' : one = false → m.ram.Holds (m.regs.effective b + 4#32) 4) :
    m.StoresQuantized s t (m.regs.effective b) one := by
  have hstore := execute_of_ofWord hs m
  rw [Instr.exec, MemoryInstr.exec, Storing.quantized_of_float hfloat, Storing.exec?] at hstore
  obtain ⟨hstores, hfirst, hsecond⟩ := Storing.exec_wordElements hheld hheld'
  have hrun := Storing.writeAll_of_completed hstores
  have hwritten := Storing.exec_of_written hrun
  rw [← hstore] at hstores hfirst hsecond hrun hwritten
  refine ⟨hstores, hfirst, hsecond, ?_, ?_⟩
  · rw [hwritten]
    cases u <;> rfl
  · intro a n
    have hram : _ = (m.execute s).machine.ram := congrArg Prod.snd hrun
    rw [← hram]
    exact Ram.holds_congr (Storing.size_writeAll ..) (Storing.connected_writeAll ..) a n

end Quantized

/-- A lane that comes back from memory as it was: from the first lane of a register by a store and a
load of single precision, and from either lane by a quantized store and a quantized load of the
float type. The load finds the address that the store has written to; both may move their base
register. -/
structure Single.Survives (y : Double) : Prop where
  single : ∀ (m : Machine) (s l : Word) (t t' : Reg) (b a : Address) (u u' : Bool),
    Instr.ofWord s = .ok (.memory (.store .single t b u)) →
    Instr.ofWord l = .ok (.memory (.load .single t' a u')) →
    (m.regs.fpr.read t).ps0 = y →
    let target := m.regs.effective b
    let stored := (m.execute s).machine
    4 ∣ target.toNat → m.ram.Holds target 4 → stored.regs.effective a = target →
    (m.execute s).failure = none ∧ (stored.execute l).failure = none ∧
      (stored.execute l).machine.regs.fpr.read t' = .both y
  quantized : ∀ (m : Machine) (s l : Word) (t t' : Reg) (b a : Address) (one one' : Bool)
      (g g' : BitVec 3) (u u' : Bool),
    Instr.ofWord s = .ok (.memory (.storeQuantized t b one g u)) →
    Instr.ofWord l = .ok (.memory (.loadQuantized t' a one' g' u')) →
    (m.regs.gqr.read g).extractLsb' 0 3 = 0 → (m.regs.gqr.read g').extractLsb' 16 3 = 0 →
    let target := m.regs.effective b
    let stored := (m.execute s).machine
    let loaded := (stored.execute l).machine.regs.fpr.read t'
    m.ram.Holds target 4 → (one = false ∨ one' = false → m.ram.Holds (target + 4#32) 4) →
    stored.regs.effective a = target →
    (m.execute s).failure = none ∧ (stored.execute l).failure = none ∧
      ((m.regs.fpr.read t).ps0 = y → loaded.ps0 = y) ∧
      (one = false → one' = false → (m.regs.fpr.read t).ps1 = y → loaded.ps1 = y)

/-- Lanes survive that are widened words. -/
theorem Single.survives {y : Double} (hy : widen (narrow y) = y) : Survives y := by
  constructor
  case single =>
    intro m s l t t' b a u u' hs hl hlane target stored halign hheld haddress
    obtain ⟨hstores, hword⟩ := Machine.stores_single hs halign hheld
    have hread : Window.read stored.ram 4 (stored.regs.effective a) = .ok (narrow y) := by
      rw [haddress, ← hlane]
      exact hword
    have hload : stored.execute l = stored.done
        ((stored.regs.setFpr t' (.both (widen (narrow y)))).updateBase u' a
          (stored.regs.effective a)) := by
      rw [Machine.execute_of_ofWord hl]
      exact Loading.single_of_read (haddress.symm ▸ halign) hread
    obtain ⟨hloads, -, hlanes, -⟩ := Machine.loaded hload
    refine ⟨hstores, hloads, ?_⟩
    rw [hlanes, hy]
  case quantized =>
    intro m s l t t' b a one one' g g' u u' hs hl hfloat hfloat' target stored loaded hheld hheld'
      haddress
    have hstored := Machine.storesQuantized hs hfloat hheld fun hone => hheld' (.inl hone)
    have hread : Window.read stored.ram 4 (stored.regs.effective a) =
        .ok (narrow (m.regs.fpr.read t).ps0) := by
      rw [haddress]
      exact hstored.first
    -- the second word is the narrowed lane if the store has written it
    have hread' : ∃ v, (one' = false →
        Window.read stored.ram 4 (stored.regs.effective a + 4#32) = .ok v) ∧
        (one = false → v = narrow (m.regs.fpr.read t).ps1) := by
      rw [haddress]
      cases one with
      | false => exact ⟨_, fun _ => hstored.second rfl, fun _ => rfl⟩
      | true =>
          have hword := Window.read_eq stored.ram 4 (target + 4#32)
          exact ⟨_, fun hone' => hword.trans (if_pos ((hstored.held _ _).2 (hheld' (.inr hone')))),
            fun hone => absurd hone (by decide)⟩
    obtain ⟨v, hread', hv⟩ := hread'
    have htype : (stored.regs.gqr.read g').extractLsb' 16 3 = 0 := by
      rw [hstored.quantizers]
      exact hfloat'
    obtain ⟨lanes, hps0, hps1, hloading⟩ :=
      Loading.quantized_of_read (t := t') (u := u') htype hread hread'
    have hload : stored.execute l =
        stored.done ((stored.regs.setFpr t' lanes).updateBase u' a (stored.regs.effective a)) := by
      rw [Machine.execute_of_ofWord hl]
      exact hloading
    obtain ⟨hloads, -, hlanes, -⟩ := Machine.loaded hload
    have hloaded : loaded = lanes := hlanes
    refine ⟨hstored.completes, hloads, ?_, ?_⟩
    · intro hlane
      rw [hloaded, hps0, hlane, hy]
    · intro hone hone' hlane
      rw [hloaded, hps1 hone', hv hone, hlane, hy]

/-- **Single precision results survive in memory**, for every double that is rounded and every
instruction that rounds. Rounding goes to the nearest number of single precision, with halves to the
even magnitude, and leaves of a NaN what a word has room for; narrowing and widening the result gives
it back, and so does rounding it again. Both lanes that an instruction delivers come back bit for bit
from a store and a load of single precision, and from a quantized store and a quantized load of the
float type. -/
theorem single_results_survive :
    (∀ x : Double, Single.RoundsNearest x) ∧
    (∀ x : Double, Single.widen (Single.narrow (Single.round x)) = Single.round x ∧
      Single.round (Single.round x) = Single.round x) ∧
    ∀ (m : Machine) (w : Word), w.RoundsToSingle → ∃ r, m.execute w = m.done r ∧
      ∀ lane, Single.Survives ((r.fpr.read (Field.rt w)).lane lane) := by
  refine ⟨Single.roundsNearest, ?_, ?_⟩
  · intro x
    exact ⟨Single.widen_narrow_round x, Single.round_round x⟩
  · intro m w hw
    obtain ⟨r, x, y, hdone, hlanes⟩ := m.execute_rounds hw
    refine ⟨r, hdone, fun lane => ?_⟩
    rw [hlanes]
    cases lane with
    | ps0 => exact Single.survives (Single.widen_narrow_round x)
    | ps1 => exact Single.survives (Single.widen_narrow_round y)

/-- A number in the middle between the two smallest of single precision is rounded to the even one.
`stfs` and `lfs` bring this back, and so do `psq_st` and `psq_l` with both lanes. -/
theorem single_results_survive_tie :
    let m : Machine := ⟨Registers.initial.setFpr 1 (.both 0x36A8000000000000#64), .zeroed 16⟩
    let rounded := (m.execute 0xFC400818#32).machine
    let lanes := rounded.regs.fpr.read 2
    let single := (rounded.execute 0xD0400004#32).machine.execute 0xC0600004#32
    let pair := (rounded.execute 0xF0400008#32).machine.execute 0xE0600008#32
    lanes = .both 0x36B0000000000000#64 ∧
      single.failure = none ∧ single.machine.regs.fpr.read 3 = .both lanes.ps0 ∧
      pair.failure = none ∧ pair.machine.regs.fpr.read 3 = lanes := by
  intro m rounded lanes single pair
  have hw : Word.RoundsToSingle 0xFC400818#32 := .round (by decide)
  have hrt : Field.rt 0xFC400818#32 = 2 := by decide
  have hlanes : lanes = .both 0x36B0000000000000#64 := by decide +kernel
  have hfloat : (rounded.regs.gqr.read 0).extractLsb' 0 3 = 0 ∧
      (rounded.regs.gqr.read 0).extractLsb' 16 3 = 0 := by decide +kernel
  obtain ⟨r, hdone, hsurvive⟩ := single_results_survive.2.2 m 0xFC400818#32 hw
  have hram : rounded.ram = .zeroed 16 := congrArg (fun o : Outcome => o.machine.ram) hdone
  have hregs : r = rounded.regs := congrArg (fun o : Outcome => o.machine.regs) hdone.symm
  rw [hrt, hregs] at hsurvive
  -- the rest goes for every machine with these lanes
  clear hdone hregs
  clear_value rounded
  have haddress (r : Registers) (d : Word) : r.effective (.displaced 0 d) = 0#32 + d := rfl
  obtain ⟨-, hsingle, hreload⟩ := (hsurvive .ps0).single rounded 0xD0400004#32 0xC0600004#32 2 3
    (.displaced 0 4) (.displaced 0 4) false false rfl rfl rfl
    (by rw [haddress]; decide) (by rw [haddress, hram]; decide) rfl
  have hquantized (y : Double) (hy : Single.Survives y) :=
    hy.quantized rounded 0xF0400008#32 0xE0600008#32 2 3 (.displaced 0 8) (.displaced 0 8) false
      false 0 0 false false rfl rfl hfloat.1 hfloat.2 (by rw [haddress, hram]; decide)
      (fun _ => by rw [haddress, hram]; decide) rfl
  obtain ⟨-, hpair, hps0, -⟩ := hquantized _ (hsurvive .ps0)
  obtain ⟨-, -, -, hps1⟩ := hquantized _ (hsurvive .ps1)
  refine ⟨hlanes, hsingle, hreload, hpair, ?_⟩
  have hfirst : (pair.machine.regs.fpr.read 3).ps0 = lanes.ps0 := hps0 rfl
  have hsecond : (pair.machine.regs.fpr.read 3).ps1 = lanes.ps1 := hps1 rfl rfl rfl
  calc pair.machine.regs.fpr.read 3
      = ⟨(pair.machine.regs.fpr.read 3).ps0, (pair.machine.regs.fpr.read 3).ps1⟩ := rfl
    _ = ⟨lanes.ps0, lanes.ps1⟩ := by rw [hfirst, hsecond]

end Broadway
