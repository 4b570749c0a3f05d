import Broadway.Proofs.Float.Truncation
import Broadway.Proofs.Memory.Copy

/-!
# Stores of single precision truncate

A store of single precision narrows the first lane of a register and writes the word
(`Machine.stores_single`). In the range of the format this rounds toward zero, to the denormal
numbers as to the normal ones: `single_store_truncates`.
-/

namespace Broadway

/-- A store of single precision to an aligned address that memory holds completes, and leaves the
narrowed lane there. -/
theorem Machine.stores_single {m : Machine} {s : Word} {t : Reg} {b : Address} {u : Bool}
    (hs : Instr.ofWord s = .ok (.memory (.store .single t b u)))
    (halign : 4 ∣ (m.regs.effective b).toNat) (hheld : m.ram.Holds (m.regs.effective b) 4) :
    (m.execute s).failure = none ∧ Window.read (m.execute s).machine.ram 4 (m.regs.effective b) =
      .ok (Single.narrow (m.regs.fpr.read t).ps0) := by
  have hstore := execute_of_ofWord hs m
  rw [Instr.exec, MemoryInstr.exec, Storing.single_of_aligned halign, Storing.exec?] at hstore
  have hsecond : true = false → m.ram.Holds (m.regs.effective b + 4#32) 4 := by
    intro hone
    contradiction
  obtain ⟨hstores, hfirst, -⟩ := Storing.exec_wordElements hheld hsecond
  rw [← hstore] at hstores hfirst
  exact ⟨hstores, hfirst⟩

/-- **Stores of single precision truncate**, over the whole range of the format. The range is that
of the numbers from the smallest denormal one up to the powers of two that are too large. A number
in it becomes the greatest word that is not greater, apart from the sign, which it keeps; words are
in the order of their numbers; and each word that is a number other than zero has its numbers at
one exponent of the double, a denormal one up to 896 and a normal one above. A store that is aligned
and inside memory writes this word. -/
theorem single_store_truncates :
    (∀ x : Double, Single.InRange x ↔
      ∃ v, x.datum.value? = some v ∧ 2 ^ (-149 : Int) ≤ v.abs ∧ v.abs < 2 ^ (128 : Int)) ∧
    (∀ x : Double, Single.InRange x → Single.Narrows x) ∧
    (∀ (x y : Double) (v v' u u' : Rat), Single.InRange x → Single.InRange y →
      x.datum.value? = some v → y.datum.value? = some v' → v ≤ v' →
      (Single.datum (Single.narrow x)).value? = some u →
      (Single.datum (Single.narrow y)).value? = some u' → u ≤ u') ∧
    (∀ (w : Word) (u : Rat), (Single.datum w).value? = some u → u ≠ 0 →
      ∃ e, (∃ x, Single.InRange x ∧ x.exponentField = e ∧ Single.narrow x = w) ∧
        ∀ x, Single.InRange x → Single.narrow x = w → x.exponentField = e) ∧
    ∀ (m : Machine) (s : Word) (t : Reg) (b : Address) (u : Bool),
      Instr.ofWord s = .ok (.memory (.store .single t b u)) →
      let x := (m.regs.fpr.read t).ps0
      let target := m.regs.effective b
      4 ∣ target.toNat → m.ram.Holds target 4 →
      (m.execute s).failure = none ∧
        ∃ w, Window.read (m.execute s).machine.ram 4 target = .ok w ∧
          ∀ v, Single.InRange x → x.datum.value? = some v → Single.Truncates w x.negative v := by
  refine ⟨Single.inRange_iff, ?_, ?_, ?_, ?_⟩
  · intro x hx
    exact Single.narrows hx
  · intro x y v v' u u' hx hy hv hv' hle hu hu'
    exact Single.narrow_mono hx hy hv hv' hle hu hu'
  · intro w u hu hne
    have hrange := Single.inRange_widen hu hne
    have hback := Single.narrow_widen w
    refine ⟨_, ⟨Single.widen w, hrange, rfl, hback⟩, ?_⟩
    intro x hx hword
    exact Single.exponentField_of_narrow hx hrange (hword.trans hback.symm)
  · intro m s t b u hs x target halign hheld
    obtain ⟨hstores, hword⟩ := Machine.stores_single hs halign hheld
    refine ⟨hstores, _, hword, ?_⟩
    intro v hx hv
    exact Single.truncates_narrow hx hv

/-- `stfs` of the last double below the normal numbers, next to the first of these. -/
theorem single_store_truncates_boundary :
    let x : Double := 0x380FFFFFFFFFFFFF#64
    let y : Double := 0x3810000000000000#64
    let m : Machine :=
      ⟨{ Registers.initial with fpr := Bank.write Registers.initial.fpr 1 ⟨x, 0⟩ }, .zeroed 8⟩
    Single.Narrows x ∧
      (∃ v v' u u', x.datum.value? = some v ∧ y.datum.value? = some v' ∧
        (Single.datum (Single.narrow x)).value? = some u ∧
        (Single.datum (Single.narrow y)).value? = some u' ∧ u ≤ u') ∧
      (∃ e, ∀ x, Single.InRange x → Single.narrow x = 0x00800000#32 → x.exponentField = e) ∧
      (m.execute 0xD0200004#32).failure = none ∧
        ∃ w, Window.read (m.execute 0xD0200004#32).machine.ram 4 4#32 = .ok w ∧
          ∀ v, x.datum.value? = some v → Single.Truncates w false v := by
  intro x y m
  have hx : Single.InRange x := by decide
  have hy : Single.InRange y := by decide
  have hv : x.datum.value? = some (((2 ^ 53 - 1 : Nat) : Rat) * 2 ^ (-179 : Int)) := by
    decide +kernel
  have hv' : y.datum.value? = some (2 ^ (-126 : Int)) := by decide +kernel
  have hu : (Single.datum (Single.narrow x)).value? = some (((2 ^ 23 - 1 : Nat) : Rat) * 2 ^ (-149 : Int)) := by
    decide +kernel
  have hu' : (Single.datum (Single.narrow y)).value? = some (2 ^ (-126 : Int)) := by decide +kernel
  have hword : (Single.datum 0x00800000#32).value? = some (2 ^ (-126 : Int)) := by decide +kernel
  obtain ⟨-, hnarrows, hmono, hexponent, hstore⟩ := single_store_truncates
  refine ⟨hnarrows x hx, ⟨_, _, _, _, hv, hv', hu, hu', ?_⟩, ?_, ?_⟩
  · exact hmono x y _ _ _ _ hx hy hv hv' (by decide +kernel) hu hu'
  · obtain ⟨e, -, honly⟩ := hexponent 0x00800000#32 _ hword (by decide +kernel)
    exact ⟨e, honly⟩
  · obtain ⟨hstores, w, hread, htruncates⟩ :=
      hstore m 0xD0200004#32 1 (.displaced 0 4) false rfl (by decide) (by decide)
    have hlane : (m.regs.fpr.read 1).ps0 = x :=
      congrArg Lanes.ps0 (Bank.read_write_self Registers.initial.fpr 1 ⟨x, 0⟩)
    have hsign : x.negative = false := by decide
    rw [hlane, hsign] at htruncates
    exact ⟨hstores, w, hread, fun v => htruncates v hx⟩

end Broadway
