import Broadway.Exec
import Broadway.Proofs.Instr.Legal
import Broadway.Proofs.Memory.Transfer

/-!
# What an instruction may write

All instructions work on one record of registers. For each unit one equation says which components
its instructions can replace, all others being those of the registers before (`FixedInstr.frame`,
`FloatInstr.frame` and so on; `MemoryInstr.regs_cases` tells the four cases of a transfer).

General purpose registers, the condition register and XER are written everywhere. `Part` names what
else there is, and `Instr.Writes` lists the parts that an instruction may write, read off the
instruction alone. `Instr.same_exec` is the frame law: every other part is what it was, whether the
instruction completes or fails.
-/

namespace Broadway

/-! ## The components that a unit replaces -/

theorem Registers.finish_frame (r : Registers) (rd : Reg) (oe rc : Bool) (x : ArithResult) :
    r.finish rd oe rc x = { r with
      gpr := (r.finish rd oe rc x).gpr
      cr := (r.finish rd oe rc x).cr
      xer := (r.finish rd oe rc x).xer } := by
  obtain ⟨value, carry, overflow⟩ := x
  cases oe <;> cases rc <;> cases carry <;> cases overflow <;> rfl

theorem FixedInstr.frame (i : FixedInstr) (r : Registers) :
    i.exec r = { r with gpr := (i.exec r).gpr, cr := (i.exec r).cr, xer := (i.exec r).xer } := by
  cases i with
  | compare signed => cases signed <;> rfl
  | addImmediateCarrying rd ra v rc => exact r.finish_frame rd false rc _
  | subtractFromImmediate rd ra v => exact r.finish_frame rd false false _
  | arith op rd ra rb oe rc => exact r.finish_frame rd oe rc _
  | logic op ra rs b rc => cases rc <;> rfl
  | unary op ra rs rc => cases rc <;> rfl
  | rotateAnd ra rs amount first last rc => cases rc <;> rfl
  | rotateInsert ra rs amount first last rc => cases rc <;> rfl
  | shift op ra rs amount rc => cases op <;> cases rc <;> rfl
  | addImmediate | multiplyImmediate => rfl

theorem ConditionInstr.frame (i : ConditionInstr) (r : Registers) :
    i.exec r = { r with gpr := (i.exec r).gpr, cr := (i.exec r).cr, xer := (i.exec r).xer } := by
  cases i <;> rfl

theorem FloatInstr.frame (i : FloatInstr) (r : Registers) :
    i.exec r = { r with
      fpr := (i.exec r).fpr
      cr := (i.exec r).cr
      fpscr := (i.exec r).fpscr } := by
  cases i with
  | arith op precision frt fra frb frc rc => cases precision <;> cases rc <;> rfl
  | compare | statusToCondition => rfl
  | select frt fra frb frc rc => cases rc <;> rfl
  | move op frt frb rc => cases rc <;> rfl
  | roundToSingle frt frb rc => cases rc <;> rfl
  | toInteger truncate frt frb rc => cases rc <;> rfl
  | fromStatus frt rc => cases rc <;> rfl
  | clearStatusBit b rc => cases rc <;> rfl
  | setStatusBit b rc => cases rc <;> rfl
  | setStatusField n v rc => cases rc <;> rfl
  | setStatusFields mask frb rc => cases rc <;> rfl

theorem PairedInstr.frame (i : PairedInstr) (r : Registers) :
    i.exec r = { r with
      fpr := (i.exec r).fpr
      cr := (i.exec r).cr
      fpscr := (i.exec r).fpscr } := by
  cases i with
  | arith op broadcast frt fra frb frc rc => cases rc <;> rfl
  | sum lane frt fra frb frc rc => cases lane <;> cases rc <;> rfl
  | select frt fra frb frc rc => cases rc <;> rfl
  | move op frt frb rc => cases rc <;> rfl
  | merge fromA fromB frt fra frb rc => cases rc <;> rfl
  | compare => rfl

theorem Registers.updateBase_frame (r : Registers) (update : Bool) (address : Address)
    (effective : Word) :
    r.updateBase update address effective =
      { r with gpr := (r.updateBase update address effective).gpr } := by
  cases update <;> rfl

/-- A write to a special register replaces the one component that the number names. -/
theorem Registers.setSpecial_cases (r : Registers) (n : Nat) (v : Word) {motive : Registers → Prop}
    (xer : n = Spr.xer → motive { r with xer := v })
    (lr : n = Spr.lr → motive { r with lr := v })
    (ctr : n = Spr.ctr → motive { r with ctr := v })
    (dsisr : n = Spr.dsisr → motive { r with dsisr := v })
    (dar : n = Spr.dar → motive { r with dar := v })
    (srr0 : n = Spr.srr0 → motive { r with srr0 := v })
    (srr1 : n = Spr.srr1 → motive { r with srr1 := v })
    (tb : n ∈ [Spr.tblRead, Spr.tbuRead, Spr.tblWrite, Spr.tbuWrite] →
      ∀ tb, motive { r with tb := tb })
    (gqr : Spr.gqr0 ≤ n ∧ n ≤ Spr.gqr7 → ∀ gqr, motive { r with gqr := gqr })
    (spr : ∀ spr, motive { r with spr := spr }) :
    motive (r.setSpecial n v) := by
  unfold setSpecial
  refine iteInduction xer fun _ => iteInduction lr fun _ => iteInduction ctr fun _ =>
    iteInduction dsisr fun _ => iteInduction dar fun _ => iteInduction srr0 fun _ =>
    iteInduction srr1 fun _ => iteInduction ?low fun _ => iteInduction ?high fun _ =>
    iteInduction (gqr · _) fun _ => spr _
  case low => rintro (h | h) <;> exact tb (by simp [h]) _
  case high => rintro (h | h) <;> exact tb (by simp [h]) _

/-! ## The components that a transfer replaces -/

namespace MemoryInstr

/-- Whether an instruction fills a floating point register from memory. -/
def fillsFloat : MemoryInstr → Bool
  | .load kind .. => kind.isFloat
  | .loadQuantized .. => true
  | _ => false

/-- A storing instruction changes general purpose registers at most, but for the conditional one,
which leaves flags and gives up the reservation. -/
theorem regs_of_storing {i : MemoryInstr} {m : Machine} {s : Except Failure Storing}
    (hs : i.storing? m.regs = some s) :
    ((i.exec m).machine.regs = { m.regs with gpr := (i.exec m).machine.regs.gpr }) ∨
    ∃ rs address, i = .storeConditional rs address ∧ (i.exec m).failure = none ∧
      ∃ flags, (i.exec m).machine.regs =
        { m.regs.setCrField 0 flags with reservation := none } := by
  rw [exec_of_storing hs]
  cases s with
  | error f => exact .inl rfl
  | ok s =>
      show ((s.exec m).machine.regs = { m.regs with gpr := (s.exec m).machine.regs.gpr }) ∨
        ∃ rs address, i = .storeConditional rs address ∧ (s.exec m).failure = none ∧
          ∃ flags, (s.exec m).machine.regs =
            { m.regs.setCrField 0 flags with reservation := none }
      rcases hw : Storing.writeAll m.ram s.elements with ⟨_ | err, ram⟩
      · -- all is written
        rw [Storing.exec_of_written hw]
        cases i with
        | store kind rs address update =>
            rw [Storing.single_ok (Option.some.inj hs)]
            exact .inl (Registers.updateBase_frame ..)
        | storeMultiple rs address =>
            rw [Storing.multiple_ok (Option.some.inj hs)]
            exact .inl rfl
        | storeConditional rs address =>
            obtain ⟨-, flags, hregs⟩ := Storing.conditional_ok (Option.some.inj hs)
            exact .inr ⟨rs, address, rfl, rfl, flags, hregs⟩
        | storeQuantized frs address one gqr update =>
            obtain ⟨q, -, -, hregs⟩ := Storing.quantized_ok (Option.some.inj hs)
            rw [hregs]
            exact .inl (Registers.updateBase_frame ..)
        | storeString | clearBlock =>
            cases hs
            exact .inl rfl
        | _ => contradiction
      · rw [Storing.exec_of_refused hw]
        exact .inl rfl

/-- An instruction that stores nothing is a load: it changes general purpose registers, fills a
floating point register as well, or makes a reservation. -/
theorem regs_of_loading {i : MemoryInstr} {m : Machine} (hs : i.storing? m.regs = none) :
    ((i.exec m).machine.regs = { m.regs with gpr := (i.exec m).machine.regs.gpr }) ∨
    (i.fillsFloat = true ∧ (i.exec m).machine.regs =
      { m.regs with gpr := (i.exec m).machine.regs.gpr, fpr := (i.exec m).machine.regs.fpr }) ∨
    ∃ rd address, i = .loadReserve rd address ∧ (i.exec m).failure = none ∧
      ∃ v, (i.exec m).machine.regs =
        { m.regs.setGpr rd v with reservation := some (m.regs.effective address) } := by
  cases i with
  | load kind rt address update =>
      rcases Loading.single_cases kind rt address update m with ⟨f, hfail⟩ | ⟨bytes, -, hdone⟩
      · left
        rw [exec, hfail]
        rfl
      · rw [exec, hdone]
        cases kind with
        | single | double =>
            refine .inr (.inl ⟨rfl, ?_⟩)
            cases update <;> rfl
        | _ =>
            left
            cases update <;> rfl
  | loadMultiple rd address =>
      left
      rcases Loading.multiple_cases rd address m with ⟨a, hfail⟩ | hrow
      · rw [exec, hfail]
        rfl
      · rw [exec, hrow]
        exact (Loading.words_frame ..).1
  | loadString rd address count =>
      left
      rcases Loading.string_cases rd address count m with ⟨e, hfail⟩ | ⟨-, hrow⟩
      · rw [exec, hfail]
        rfl
      · rw [exec, hrow]
        exact (Loading.bytes_frame ..).1
  | loadReserve rd address =>
      rcases Loading.reserving_cases rd address m with ⟨f, hfail⟩ | ⟨bytes, -, hdone⟩
      · left
        rw [exec, hfail]
        rfl
      · rw [exec, hdone]
        exact .inr (.inr ⟨rd, address, rfl, rfl, _, rfl⟩)
  | loadQuantized frt address one gqr update =>
      rcases Loading.quantized_cases frt address one gqr update m with
        ⟨f, hfail⟩ | ⟨q, lanes, -, -, hdone⟩
      · left
        rw [exec, hfail]
        rfl
      · refine .inr (.inl ⟨rfl, ?_⟩)
        rw [exec, hdone]
        cases update <;> rfl
  | _ => contradiction

/-- What a memory instruction can do to the registers: apart from general purpose registers only
a load changes floating point registers, and only the two instructions that are about it the
reservation. -/
theorem regs_cases (i : MemoryInstr) (m : Machine) :
    ((i.exec m).machine.regs = { m.regs with gpr := (i.exec m).machine.regs.gpr }) ∨
    (i.fillsFloat = true ∧ (i.exec m).machine.regs =
      { m.regs with gpr := (i.exec m).machine.regs.gpr, fpr := (i.exec m).machine.regs.fpr }) ∨
    (∃ rd address, i = .loadReserve rd address ∧ (i.exec m).failure = none ∧
      ∃ v, (i.exec m).machine.regs =
        { m.regs.setGpr rd v with reservation := some (m.regs.effective address) }) ∨
    ∃ rs address, i = .storeConditional rs address ∧ (i.exec m).failure = none ∧
      ∃ flags, (i.exec m).machine.regs =
        { m.regs.setCrField 0 flags with reservation := none } := by
  cases hs : i.storing? m.regs with
  | some s =>
      rcases regs_of_storing hs with hgpr | hconditional
      · exact .inl hgpr
      · exact .inr (.inr (.inr hconditional))
  | none =>
      rcases regs_of_loading hs with hgpr | hfills | hreserving
      · exact .inl hgpr
      · exact .inr (.inl hfills)
      · exact .inr (.inr (.inl hreserving))

end MemoryInstr

/-! ## Parts of the registers -/

/-- A part of the registers that few instructions write. -/
inductive Part
  | pc | npc | lr | ctr | timeBase | msr | srr0 | srr1 | dar | dsisr
  | segments
  | quantizers
  /-- The special registers without a component of their own. -/
  | specials
  | reservation
  | floats
  /-- The floating point status and control register. -/
  | status
  deriving DecidableEq

namespace Part

/-- Whether two register files agree in a part. -/
def Same (p : Part) (r r' : Registers) : Prop :=
  match p with
  | .pc => r'.pc = r.pc
  | .npc => r'.npc = r.npc
  | .lr => r'.lr = r.lr
  | .ctr => r'.ctr = r.ctr
  | .timeBase => r'.tb = r.tb
  | .msr => r'.msr = r.msr
  | .srr0 => r'.srr0 = r.srr0
  | .srr1 => r'.srr1 = r.srr1
  | .dar => r'.dar = r.dar
  | .dsisr => r'.dsisr = r.dsisr
  | .segments => r'.sr = r.sr
  | .quantizers => r'.gqr = r.gqr
  | .specials => r'.spr = r.spr
  | .reservation => r'.reservation = r.reservation
  | .floats => r'.fpr = r.fpr
  | .status => r'.fpscr = r.fpscr

theorem same_refl (p : Part) (r : Registers) : p.Same r r := by
  cases p <;> rfl

/-- Whether a number of a special register names a part; the numbers that name no component of
their own all name cells of one store. -/
def NamedBy (p : Part) (n : Nat) : Prop :=
  match p with
  | .lr => n = Spr.lr
  | .ctr => n = Spr.ctr
  | .timeBase => n ∈ [Spr.tblRead, Spr.tbuRead, Spr.tblWrite, Spr.tbuWrite]
  | .srr0 => n = Spr.srr0
  | .srr1 => n = Spr.srr1
  | .dar => n = Spr.dar
  | .dsisr => n = Spr.dsisr
  | .quantizers => Spr.gqr0 ≤ n ∧ n ≤ Spr.gqr7
  | .specials => True
  | _ => False

theorem same_setSpecial {p : Part} {n : Nat} (h : ¬ p.NamedBy n) (r : Registers) (v : Word) :
    p.Same r (r.setSpecial n v) := by
  apply r.setSpecial_cases n v (motive := p.Same r)
  case xer =>
    intro _
    cases p <;> rfl
  case spr =>
    intro _
    cases p with
    | specials => exact absurd trivial h
    | _ => rfl
  case tb =>
    intro hn _
    cases p with
    | timeBase => exact absurd hn h
    | _ => rfl
  case gqr =>
    intro hn _
    cases p with
    | quantizers => exact absurd hn h
    | _ => rfl
  all_goals
    intro hn
    cases p <;> first | rfl | exact absurd hn h

end Part

/-! ## The parts that an instruction may write -/

def BranchInstr.Writes (i : BranchInstr) (p : Part) : Prop :=
  match i with
  | .always _ lk => p = .npc ∨ p = .lr ∧ lk = true
  | .conditional bo _ _ lk =>
    p = .npc ∨ p = .lr ∧ lk = true ∨ p = .ctr ∧ (BranchPolicy.ofBo bo).decrements = true

def SystemInstr.Writes (i : SystemInstr) (p : Part) : Prop :=
  match i with
  | .toSpecial n _ => p.NamedBy n.toNat
  | .toMsr _ => p = .msr
  | .toSegment .. => p = .segments
  | .call => p ∈ [.npc, .msr, .srr0, .srr1]
  | .returnFromInterrupt => p ∈ [.npc, .msr, .reservation]
  | _ => False

/-- Whether an instruction makes or uses up a reservation. -/
def MemoryInstr.concernsReservation : MemoryInstr → Bool
  | .loadReserve .. | .storeConditional .. => true
  | _ => false

def MemoryInstr.Writes (i : MemoryInstr) (p : Part) : Prop :=
  p = .floats ∧ i.fillsFloat = true ∨ p = .reservation ∧ i.concernsReservation = true

/-- The parts that an instruction may write. -/
def Instr.Writes (i : Instr) (p : Part) : Prop :=
  match i with
  | .branch i => i.Writes p
  | .system i => i.Writes p
  | .memory i => i.Writes p
  | .float _ | .paired _ => p = .floats ∨ p = .status
  | _ => False

theorem BranchInstr.same_exec {i : BranchInstr} {p : Part} (h : ¬ i.Writes p) (r : Registers) :
    p.Same r (i.exec r) := by
  cases i with
  | always target lk =>
      obtain ⟨hnpc, hlr⟩ := not_or.1 h
      cases p with
      | npc => exact absurd rfl hnpc
      | lr =>
          cases lk with
          | false => rfl
          | true => exact absurd ⟨rfl, rfl⟩ hlr
      | _ => cases lk <;> rfl
  | conditional bo bi target lk =>
      obtain ⟨hnpc, hlink⟩ := not_or.1 h
      obtain ⟨hlr, hctr⟩ := not_or.1 hlink
      cases p with
      | npc => exact absurd rfl hnpc
      | lr =>
          cases lk with
          | false => rfl
          | true => exact absurd ⟨rfl, rfl⟩ hlr
      | ctr =>
          have hkeep : ¬ (BranchPolicy.ofBo bo).decrements = true := fun hdec => hctr ⟨rfl, hdec⟩
          cases lk <;> exact if_neg hkeep
      | _ => cases lk <;> rfl

theorem SystemInstr.same_exec {i : SystemInstr} {p : Part} (h : ¬ i.Writes p) (r : Registers) :
    p.Same r (i.exec r) := by
  cases i with
  | toSpecial n rs => exact Part.same_setSpecial h r _
  | fromTimeBase rd upper => cases upper <;> cases p <;> rfl
  | toMsr rs =>
      cases p with
      | msr => exact absurd rfl h
      | _ => rfl
  | toSegment s rs =>
      cases p with
      | segments => exact absurd rfl h
      | _ => rfl
  | call =>
      cases p with
      | npc | msr | srr0 | srr1 => exact absurd (by decide : _ ∈ [_, _, _, _]) h
      | _ => rfl
  | returnFromInterrupt =>
      cases p with
      | npc | msr | reservation => exact absurd (by decide : _ ∈ [_, _, _]) h
      | _ => rfl
  | _ => cases p <;> rfl

theorem MemoryInstr.same_exec {i : MemoryInstr} {p : Part} (h : ¬ i.Writes p) (m : Machine) :
    p.Same m.regs (i.exec m).machine.regs := by
  obtain ⟨hfloat, hreservation⟩ := not_or.1 h
  rcases i.regs_cases m with hgpr | ⟨hfills, hregs⟩ | ⟨rd, address, rfl, -, v, hregs⟩ |
    ⟨rs, address, rfl, -, flags, hregs⟩
  · rw [hgpr]
    cases p <;> rfl
  · rw [hregs]
    cases p with
    | floats => exact absurd ⟨rfl, hfills⟩ hfloat
    | _ => rfl
  all_goals
    rw [hregs]
    cases p with
    | reservation => exact absurd ⟨rfl, rfl⟩ hreservation
    | _ => rfl

/-- The frame law: an instruction leaves every part alone that it may not write. -/
theorem Instr.same_exec {i : Instr} {p : Part} (h : ¬ i.Writes p) (m : Machine) :
    p.Same m.regs (i.exec m).machine.regs := by
  cases i with
  | fixed i =>
      show p.Same m.regs (i.exec m.regs)
      rw [i.frame m.regs]
      cases p <;> rfl
  | condition i =>
      show p.Same m.regs (i.exec m.regs)
      rw [i.frame m.regs]
      cases p <;> rfl
  | float i =>
      show p.Same m.regs (i.exec m.regs)
      rw [i.frame m.regs]
      cases p with
      | floats => exact absurd (.inl rfl) h
      | status => exact absurd (.inr rfl) h
      | _ => rfl
  | paired i =>
      show p.Same m.regs (i.exec m.regs)
      rw [i.frame m.regs]
      cases p with
      | floats => exact absurd (.inl rfl) h
      | status => exact absurd (.inr rfl) h
      | _ => rfl
  | branch i => exact i.same_exec h m.regs
  | system i => exact i.same_exec h m.regs
  | memory i => exact i.same_exec h m
  | trap options ra b =>
      simp only [exec]
      split <;> exact p.same_refl m.regs

end Broadway
