import Broadway.Proofs.Exec.Status
import Broadway.Proofs.Float.Class
import Broadway.Proofs.Instr.Groups

/-!
# Paired arithmetic, lane by lane

Paired and scalar single precision arithmetic are two units with encodings of their own.
`PairedArith.lanewise?` tells which scalar instruction a paired one carries out on each of its
lanes, and `Registers.laneOperand` which number a lane takes from each register.

A paired instruction does to the registers and to the status what the scalar instruction does that
is run on the first lane and then, with the status that this leaves, on the second one; only the
class on record is the one of the first result (`paired_lanewise`). The scalar runs may name any
registers, so it makes no difference which registers of the paired instruction coincide.
-/

namespace Broadway

open Opcode

/-! ## Operands and operations -/

/-- The places of a floating point instruction that name its operands. -/
inductive FloatOperand
  | a | b | c
  deriving DecidableEq

/-- The register that a word names in a place. -/
def FloatOperand.field : FloatOperand → Word → Reg
  | .a => Field.ra
  | .b => Field.rb
  | .c => Field.rc

namespace Opcode

/-- The operands that an instruction takes. -/
def SingleArith.operands : SingleArith → List FloatOperand
  | .fadds | .fsubs | .fdivs => [.a, .b]
  | .fmuls => [.a, .c]
  | .fres => [.b]
  | .fmadds | .fmsubs | .fnmadds | .fnmsubs => [.a, .b, .c]

def SingleArith.operation : SingleArith → FloatOp
  | .fadds => .add
  | .fsubs => .sub
  | .fmuls => .mul
  | .fdivs => .div
  | .fres => .reciprocal
  | .fmadds => .madd
  | .fmsubs => .msub
  | .fnmadds => .nmadd
  | .fnmsubs => .nmsub

/-- The scalar instruction that a paired one carries out on each lane, and the lane of frC that
serves both lanes, if one does. -/
def PairedArith.lanewise? : PairedArith → Option (SingleArith × Option Lane)
  | .add => some (.fadds, none)
  | .sub => some (.fsubs, none)
  | .mul => some (.fmuls, none)
  | .div => some (.fdivs, none)
  | .madd => some (.fmadds, none)
  | .msub => some (.fmsubs, none)
  | .nmadd => some (.fnmadds, none)
  | .nmsub => some (.fnmsubs, none)
  | .res => some (.fres, none)
  | .muls0 => some (.fmuls, some .ps0)
  | .muls1 => some (.fmuls, some .ps1)
  | .madds0 => some (.fmadds, some .ps0)
  | .madds1 => some (.fmadds, some .ps1)
  | .sum0 | .sum1 | .sel | .rsqrte => none

end Opcode

/-- The number that a lane of a paired instruction takes from one of its registers. -/
def Registers.laneOperand (r : Registers) (w : Word) (broadcast : Option Lane) (lane : Lane)
    (x : FloatOperand) : Double :=
  (r.fpr.read (x.field w)).lane (if x = .c then broadcast.getD lane else lane)

/-- The number that a scalar instruction takes from one of its registers. -/
def Registers.scalarOperand (r : Registers) (v : Word) (x : FloatOperand) : Double :=
  r.ps0 (x.field v)

/-- An operation on operands by their places. -/
def FloatOp.evalAt (op : FloatOp) (s : Word) (x : FloatOperand → Double) : Double × Word :=
  op.eval s (x .a) (x .b) (x .c)

/-- An operation looks at the operands that it takes. -/
theorem FloatOp.evalAt_congr (op : SingleArith) (s : Word) {x y : FloatOperand → Double}
    (h : ∀ p ∈ op.operands, x p = y p) :
    op.operation.evalAt s x = op.operation.evalAt s y := by
  cases op with
  | fadds | fsubs | fdivs =>
      have ha := h .a (by decide)
      have hb := h .b (by decide)
      simp only [SingleArith.operation, evalAt, eval, ha, hb]
  | fmuls =>
      have ha := h .a (by decide)
      have hc := h .c (by decide)
      simp only [SingleArith.operation, evalAt, eval, ha, hc]
  | fres =>
      have hb := h .b (by decide)
      simp only [SingleArith.operation, evalAt, eval, hb]
  | fmadds | fmsubs | fnmadds | fnmsubs =>
      have ha := h .a (by decide)
      have hb := h .b (by decide)
      have hc := h .c (by decide)
      simp only [SingleArith.operation, evalAt, eval, ha, hb, hc]

/-! ## Words -/

namespace Instr

theorem ofWord_of_scalar {op : SingleArith} {v : Word} (hv : op.Selects v) :
    ofWord v = .ok (.float (.arith op.operation .single (Field.rt v) (Field.ra v) (Field.rb v)
      (Field.rc v) (Field.bit31 v))) := by
  rw [ofWord_of_singleArith hv, ofAForm59, hv.ofCode?_aForm]
  cases op <;> simp only [AForm.decode, reg_setWidth, SingleArith.operation]

theorem ofWord_of_lanewise {op : PairedArith} {op' : SingleArith} {broadcast : Option Lane}
    {w : Word} (hop : op.lanewise? = some (op', broadcast)) (hw : op.Selects w) :
    ofWord w = .ok (.paired (.arith op'.operation broadcast (Field.rt w) (Field.ra w) (Field.rb w)
      (Field.rc w) (Field.bit31 w))) := by
  rw [ofWord_of_pairedArith hw, ofAForm4, hw.ofCode?_aForm]
  cases op <;> cases hop <;> simp only [AForm.decode, reg_setWidth, SingleArith.operation]

end Instr

/-! ## Execution -/

namespace Registers

theorem fpr_recordStatusIf (r : Registers) (rc : Bool) : (r.recordStatusIf rc).fpr = r.fpr := by
  cases rc <;> rfl

theorem read_finishFloat_single (r : Registers) (frt : Reg) (rc : Bool) (x : Double × Word) :
    (r.finishFloat .single frt rc x).fpr.read frt = .both (Single.round x.1) := by
  simp only [finishFloat, fpr_recordStatusIf]
  exact Bank.read_write_self ..

theorem fpscr_finishFloat_single (r : Registers) (frt : Reg) (rc : Bool) (x : Double × Word) :
    (r.finishFloat .single frt rc x).fpscr = Fpscr.setClass x.2 (Single.round x.1) := by
  simp only [finishFloat, fpscr_recordStatusIf]
  rfl

theorem read_finishPair (r : Registers) (frt : Reg) (rc : Bool) (x y : Double) (s : Word) :
    (r.finishPair frt rc x y s).fpr.read frt = ⟨Single.round x, Single.round y⟩ := by
  simp only [finishPair, fpr_recordStatusIf]
  exact Bank.read_write_self ..

theorem fpscr_finishPair (r : Registers) (frt : Reg) (rc : Bool) (x y : Double) (s : Word) :
    (r.finishPair frt rc x y s).fpscr = Fpscr.setClass s (Single.round x) := by
  simp only [finishPair, fpscr_recordStatusIf]
  rfl

theorem lane_broadcastLanes (l : Lanes) (broadcast : Option Lane) (lane : Lane) :
    (PairedInstr.broadcastLanes l broadcast).lane lane = l.lane (broadcast.getD lane) := by
  cases broadcast <;> cases lane <;> rfl

end Registers

namespace Machine

/-- A scalar instruction rounds the result of its operation and records its class. -/
theorem execute_scalar {op : SingleArith} {v : Word} (hv : op.Selects v) (m : Machine) :
    let x := op.operation.evalAt m.regs.fpscr (m.regs.scalarOperand v)
    ∃ r, m.execute v = m.done r ∧ (r.ps0 (Field.rt v)) = Single.round x.1 ∧
      r.fpscr = Fpscr.setClass x.2 (Single.round x.1) := by
  intro x
  refine ⟨_, execute_of_ofWord (Instr.ofWord_of_scalar hv) m, ?_, ?_⟩
  · exact congrArg Lanes.ps0 (m.regs.read_finishFloat_single (Field.rt v) _ x)
  · exact m.regs.fpscr_finishFloat_single (Field.rt v) _ x

/-- A paired instruction carries the operation out on the first lane and then, with the status that
this leaves, on the second; the class on record is the one of the first result. -/
theorem execute_lanewise {op : PairedArith} {op' : SingleArith} {broadcast : Option Lane} {w : Word}
    (hop : op.lanewise? = some (op', broadcast)) (hw : op.Selects w) (m : Machine) :
    let x := op'.operation.evalAt m.regs.fpscr (m.regs.laneOperand w broadcast .ps0)
    let y := op'.operation.evalAt x.2 (m.regs.laneOperand w broadcast .ps1)
    ∃ r, m.execute w = m.done r ∧
      r.fpr.read (Field.rt w) = ⟨Single.round x.1, Single.round y.1⟩ ∧
      r.fpscr = Fpscr.setClass y.2 (Single.round x.1) := by
  intro x y
  have hlane (lane : Lane) : m.regs.laneOperand w broadcast lane .c =
      (PairedInstr.broadcastLanes (m.regs.fpr.read (Field.rc w)) broadcast).lane lane :=
    (Registers.lane_broadcastLanes ..).symm
  have hx : x = op'.operation.eval m.regs.fpscr (m.regs.fpr.read (Field.ra w)).ps0
      (m.regs.fpr.read (Field.rb w)).ps0
      (PairedInstr.broadcastLanes (m.regs.fpr.read (Field.rc w)) broadcast).ps0 :=
    congrArg (op'.operation.eval _ _ _) (hlane .ps0)
  have hy : y = op'.operation.eval x.2 (m.regs.fpr.read (Field.ra w)).ps1
      (m.regs.fpr.read (Field.rb w)).ps1
      (PairedInstr.broadcastLanes (m.regs.fpr.read (Field.rc w)) broadcast).ps1 :=
    congrArg (op'.operation.eval _ _ _) (hlane .ps1)
  have hexec : m.execute w =
      m.done (m.regs.finishPair (Field.rt w) (Field.bit31 w) x.1 y.1 y.2) := by
    rw [execute_of_ofWord (Instr.ofWord_of_lanewise hop hw), hy, hx]
    rfl
  exact ⟨_, hexec, Registers.read_finishPair .., Registers.fpscr_finishPair ..⟩

end Machine

/-- **Paired arithmetic is scalar arithmetic on each lane**, for every state and every choice of
registers. Let `v₀` and `v₁` be words of the scalar instruction, `v₀` with the operands of the first
lane of `w` and the same status, `v₁` with the operands of the second lane and the status that `v₀`
leaves. Then the lanes of the result are the two scalar results bit for bit; the status is the one
that `v₁` leaves, but for the class, which is the one that `v₀` leaves. -/
theorem paired_lanewise {op : PairedArith} {op' : SingleArith} {broadcast : Option Lane}
    (hop : op.lanewise? = some (op', broadcast)) {m m₀ m₁ : Machine} {w v₀ v₁ : Word}
    (hw : op.Selects w) (hv₀ : op'.Selects v₀) (hv₁ : op'.Selects v₁)
    (h₀ : ∀ x ∈ op'.operands,
      m₀.regs.scalarOperand v₀ x = m.regs.laneOperand w broadcast .ps0 x)
    (h₁ : ∀ x ∈ op'.operands,
      m₁.regs.scalarOperand v₁ x = m.regs.laneOperand w broadcast .ps1 x)
    (hs₀ : m₀.regs.fpscr = m.regs.fpscr)
    (hs₁ : m₁.regs.fpscr = (m₀.execute v₀).machine.regs.fpscr) :
    ∃ r r₀ r₁ : Registers,
      m.execute w = m.done r ∧ m₀.execute v₀ = m₀.done r₀ ∧ m₁.execute v₁ = m₁.done r₁ ∧
      (r.fpr.read (Field.rt w)).ps0 = r₀.ps0 (Field.rt v₀) ∧
      (r.fpr.read (Field.rt w)).ps1 = r₁.ps0 (Field.rt v₁) ∧
      r.fpscr &&& ~~~Fpscr.fprf = r₁.fpscr &&& ~~~Fpscr.fprf ∧
      r.fpscr &&& Fpscr.fprf = r₀.fpscr &&& Fpscr.fprf := by
  obtain ⟨r, hr, hlanes, hstatus⟩ := Machine.execute_lanewise hop hw m
  obtain ⟨r₀, hr₀, hresult₀, hstatus₀⟩ := Machine.execute_scalar hv₀ m₀
  obtain ⟨r₁, hr₁, hresult₁, hstatus₁⟩ := Machine.execute_scalar hv₁ m₁
  rw [hs₀, FloatOp.evalAt_congr op' _ h₀] at hresult₀ hstatus₀
  rw [FloatOp.evalAt_congr op' _ h₁] at hresult₁ hstatus₁
  -- the second scalar run starts from a status that has the class of the first result in it
  have hbare : Fpscr.bare m₁.regs.fpscr = Fpscr.bare
      (op'.operation.evalAt m.regs.fpscr (m.regs.laneOperand w broadcast .ps0)).2 := by
    rw [hs₁, hr₀, Machine.machine_done, hstatus₀, Fpscr.bare_setClass]
  obtain ⟨hvalue, hraised⟩ := op'.operation.eval_congr hbare _ _ _
  refine ⟨r, r₀, r₁, hr, hr₀, hr₁, ?_, ?_, ?_, ?_⟩
  · rw [hlanes, hresult₀]
  · rw [hlanes, hresult₁]
    exact congrArg Single.round hvalue.symm
  · show Fpscr.bare r.fpscr = Fpscr.bare r₁.fpscr
    rw [hstatus, hstatus₁, Fpscr.bare_setClass, Fpscr.bare_setClass]
    exact hraised.symm
  · rw [hstatus, hstatus₀]
    exact Fpscr.setClass_and_fprf ..

/-- `ps_madds0 fr1, fr1, fr1, fr2` overwrites two of its sources. Its first lane comes to five and
its second to a NaN that was signalling, as `fmadds` has it; the class on record is the one of
five. -/
theorem paired_lanewise_overwriting :
    let r : Registers :=
      (Registers.initial.setFpr 1 ⟨0x4000000000000000#64, 0x4008000000000000#64⟩).setFpr 2
        ⟨0x3FF0000000000000#64, 0x7FF0000020000000#64⟩
    let m : Machine := ⟨r, .ofBytes .empty⟩
    ∃ after, m.execute 0x1021105C#32 = m.done after ∧
      (after.fpr.read 1).ps0 = 0x4014000000000000#64 ∧
      (after.fpr.read 1).ps1 = 0x7FF8000020000000#64 ∧
      after.fpscr &&& ~~~Fpscr.fprf = 0xA1000000#32 ∧
      after.fpscr &&& Fpscr.fprf = 0x00004000#32 := by
  intro r m
  -- the second run finds the second lanes in registers of its own
  let m₁ : Machine := ⟨((r.setFpr 4 (.both 0x4008000000000000#64)).setFpr 5
    (.both 0x7FF0000020000000#64)).setFpscr (m.execute 0xEC61107A#32).machine.regs.fpscr,
    .ofBytes .empty⟩
  have hw : PairedArith.madds0.Selects 0x1021105C#32 := by decide
  have hv₀ : SingleArith.fmadds.Selects 0xEC61107A#32 := by decide
  have hv₁ : SingleArith.fmadds.Selects 0xEC64287A#32 := by decide
  have h₀ : ∀ x ∈ SingleArith.fmadds.operands, m.regs.scalarOperand 0xEC61107A#32 x =
      m.regs.laneOperand 0x1021105C#32 (some .ps0) .ps0 x := by decide +kernel
  have h₁ : ∀ x ∈ SingleArith.fmadds.operands, m₁.regs.scalarOperand 0xEC64287A#32 x =
      m.regs.laneOperand 0x1021105C#32 (some .ps0) .ps1 x := by decide +kernel
  have hfirst : (m.execute 0xEC61107A#32).machine.regs.ps0 3 = 0x4014000000000000#64 ∧
      (m.execute 0xEC61107A#32).machine.regs.fpscr &&& Fpscr.fprf = 0x00004000#32 := by
    decide +kernel
  have hsecond : (m₁.execute 0xEC64287A#32).machine.regs.ps0 3 = 0x7FF8000020000000#64 ∧
      (m₁.execute 0xEC64287A#32).machine.regs.fpscr &&& ~~~Fpscr.fprf = 0xA1000000#32 := by
    decide +kernel
  obtain ⟨after, r₀, r₁, hafter, hr₀, hr₁, hps0, hps1, hraised, hclass⟩ :=
    paired_lanewise rfl hw hv₀ hv₁ h₀ h₁ rfl rfl
  rw [hr₀] at hfirst
  rw [hr₁] at hsecond
  exact ⟨after, hafter, hps0.trans hfirst.1, hps1.trans hsecond.1, hraised.trans hsecond.2,
    hclass.trans hfirst.2⟩

end Broadway
