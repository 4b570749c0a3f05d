import Broadway.Proofs.Exec.WriteSets
import Broadway.Proofs.Float.Status
import Broadway.Proofs.Run.Reachable

/-!
# The discipline of XER

Instructions treat XER in one of three ways (`Instr.xer_exec`): a move replaces all of it that is
not reserved, the move to the condition register takes the status bits and clears them, and all
other instructions record a carry and an overflow, if they have any. So reserved bits stay clear,
summary overflow is cleared by the two moves only, an overflow is always summarised, and the carry
is written by those that have one.

Which words these are is read off their opcodes (`Instr.xerUse_ofWord`). What holds of one
instruction holds of runs: the reserved bits are clear in every reachable state, and what has become
of the flags over a run is the work of an instruction that it has executed (`xer_discipline`).
-/

namespace Broadway

open Opcode
open Fpscr (or_and_of_apart and_not_and_of_apart)

/-! ## Recording a carry and an overflow -/

/-- A bit that has been set is there. -/
theorem Xer.or_and_self (x bit : Word) : (x ||| bit) &&& bit = bit := by
  apply BitVec.eq_of_getLsbD_eq
  intro i hi
  rw [BitVec.getLsbD_and, BitVec.getLsbD_or]
  cases bit.getLsbD i <;> simp

namespace Registers

/-- Records an overflow, if there is one to record. -/
def withOverflow (r : Registers) : Option Bool → Registers
  | some v => r.setOverflow v
  | none => r

/-- XER after a carry and an overflow have been recorded. -/
def recorded (r : Registers) (carry overflow : Option Bool) : Word :=
  ((r.withCarry carry).withOverflow overflow).xer

variable (r : Registers) {keep : Word}

theorem xer_withCarry_and (hapart : Xer.ca &&& keep = 0#32) (c : Option Bool) :
    (r.withCarry c).xer &&& keep = r.xer &&& keep := by
  cases c with
  | none => rfl
  | some v =>
      cases v with
      | true => exact or_and_of_apart r.xer hapart
      | false => exact and_not_and_of_apart r.xer hapart

theorem xer_withOverflow_and (hov : Xer.ov &&& keep = 0#32) (hso : Xer.so &&& keep = 0#32)
    (v : Option Bool) : (r.withOverflow v).xer &&& keep = r.xer &&& keep := by
  cases v with
  | none => rfl
  | some v =>
      cases v with
      | true => exact (or_and_of_apart (r.xer ||| Xer.ov) hso).trans (or_and_of_apart r.xer hov)
      | false => exact and_not_and_of_apart r.xer hov

/-- Recording leaves all bits alone but those of the carry and the overflow. -/
theorem recorded_and (hca : Xer.ca &&& keep = 0#32) (hov : Xer.ov &&& keep = 0#32)
    (hso : Xer.so &&& keep = 0#32) (c o : Option Bool) :
    r.recorded c o &&& keep = r.xer &&& keep :=
  (xer_withOverflow_and _ hov hso o).trans (r.xer_withCarry_and hca c)

/-- Without a carry to record the carry is kept. -/
theorem recorded_none_and_carry (o : Option Bool) :
    r.recorded none o &&& Xer.ca = r.xer &&& Xer.ca :=
  xer_withOverflow_and _ (by decide) (by decide) o

/-- An overflow that is recorded is summarised, and summary overflow is never cleared. -/
theorem recorded_and_summary (c o : Option Bool) :
    r.recorded c o &&& Xer.so = if o = some true then Xer.so else r.xer &&& Xer.so := by
  rw [recorded, ← r.xer_withCarry_and (by decide : Xer.ca &&& Xer.so = 0#32) c]
  generalize r.withCarry c = r'
  cases o with
  | none => rfl
  | some v =>
      cases v with
      | true => exact Xer.or_and_self (r'.xer ||| Xer.ov) Xer.so
      | false => exact and_not_and_of_apart r'.xer (by decide : Xer.ov &&& Xer.so = 0#32)

theorem recorded_and_overflow (c o : Option Bool) :
    r.recorded c o &&& Xer.ov =
      match o with
      | none => r.xer &&& Xer.ov
      | some true => Xer.ov
      | some false => 0#32 := by
  rw [recorded, ← r.xer_withCarry_and (by decide : Xer.ca &&& Xer.ov = 0#32) c]
  generalize r.withCarry c = r'
  cases o with
  | none => rfl
  | some v =>
      cases v with
      | true =>
          have hapart :
              (r'.xer ||| Xer.ov ||| Xer.so) &&& Xer.ov = (r'.xer ||| Xer.ov) &&& Xer.ov :=
            or_and_of_apart _ (by decide)
          exact hapart.trans (Xer.or_and_self r'.xer Xer.ov)
      | false =>
          show r'.xer &&& ~~~Xer.ov &&& Xer.ov = 0#32
          rw [BitVec.and_assoc, BitVec.not_and_self]
          exact BitVec.and_zero

end Registers

/-! ## Instructions -/

/-- How an instruction treats XER. -/
inductive XerUse
  /-- At most an overflow is recorded. -/
  | records
  /-- A carry is recorded. -/
  | carries
  /-- All of XER is replaced. -/
  | moves
  /-- The status bits are taken and cleared. -/
  | takes
  deriving DecidableEq

/-- Whether register arithmetic leaves a carry. -/
def Opcode.FixedArith.carries : FixedArith → Bool
  | .addc | .adde | .addme | .addze | .subfc | .subfe | .subfme | .subfze => true
  | _ => false

namespace FixedInstr

def xerUse : FixedInstr → XerUse
  | .addImmediateCarrying .. | .subtractFromImmediate .. | .shift .algebraic .. => .carries
  | .arith op .. => if op.carries then .carries else .records
  | _ => .records

end FixedInstr

/-- How an instruction treats XER. -/
def Instr.xerUse : Instr → XerUse
  | .fixed i => i.xerUse
  | .condition (.fromXer _) => .takes
  | .system (.toSpecial n _) => if n.toNat = Spr.xer then .moves else .records
  | _ => .records

/-- What an instruction that uses XER in some way can make of it. -/
inductive Registers.XerStep (r : Registers) : XerUse → Word → Prop
  | recorded {use : XerUse} (c o : Option Bool) (hc : c = none ∨ use = .carries) :
      XerStep r use (r.recorded c o)
  | moved (v : Word) : XerStep r .moves (v &&& Xer.writable)
  | taken : XerStep r .takes (r.xer &&& 0x0FFFFFFF#32)

theorem Registers.XerStep.refl (r : Registers) (use : XerUse) : r.XerStep use r.xer :=
  .recorded none none (.inl rfl)

theorem Registers.xer_finish (r : Registers) (rd : Reg) (oe rc : Bool) (x : ArithResult) :
    (r.finish rd oe rc x).xer = r.recorded x.carry (if oe then x.overflow else none) := by
  obtain ⟨value, carry, overflow⟩ := x
  cases oe <;> cases rc <;> cases carry <;> cases overflow <;> rfl

theorem Arith.carry_eval {op : FixedArith} (h : op.carries = false) (a b : Word) (carry : Bool) :
    (eval op a b carry).carry = none := by
  cases op with
  | divw =>
      rw [eval, divSigned]
      split <;> rfl
  | divwu =>
      rw [eval, divUnsigned]
      split <;> rfl
  | add | subf | neg | mullw | mulhw | mulhwu => rfl
  | _ => contradiction

theorem FixedInstr.xer_exec (i : FixedInstr) (r : Registers) :
    r.XerStep i.xerUse (i.exec r).xer := by
  cases i with
  | addImmediateCarrying rd ra v rc =>
      rw [exec, Registers.xer_finish]
      exact .recorded _ _ (.inr rfl)
  | subtractFromImmediate rd ra v =>
      rw [exec, Registers.xer_finish]
      exact .recorded _ _ (.inr rfl)
  | arith op rd ra rb oe rc =>
      rw [exec, Registers.xer_finish, xerUse]
      cases hop : op.carries with
      | true => exact .recorded _ _ (.inr rfl)
      | false => exact .recorded _ _ (.inl (Arith.carry_eval hop _ _ _))
  | shift op ra rs amount rc =>
      cases op with
      | algebraic => cases rc <;> exact .recorded (some _) none (.inr rfl)
      | left | right => cases rc <;> exact .refl r _
  | logic op ra rs b rc => cases rc <;> exact .refl r _
  | unary op ra rs rc => cases rc <;> exact .refl r _
  | rotateAnd ra rs amount first last rc => cases rc <;> exact .refl r _
  | rotateInsert ra rs amount first last rc => cases rc <;> exact .refl r _
  | compare signed => cases signed <;> exact .refl r _
  | addImmediate | multiplyImmediate => exact .refl r _

/-- A move to another special register than XER leaves XER alone. -/
theorem SystemInstr.xer_toSpecial (n : BitVec 10) (rs : Reg) (r : Registers) :
    r.XerStep (Instr.system (.toSpecial n rs)).xerUse
      ((SystemInstr.toSpecial n rs).exec r).xer := by
  simp only [exec, Instr.xerUse]
  by_cases hn : n.toNat = Spr.xer
  · rw [if_pos hn, if_pos hn, Registers.setSpecial, if_pos hn]
    exact .moved _
  · have hkeep : (r.setSpecial n.toNat (r.gpr.read rs)).xer = r.xer := by
      apply r.setSpecial_cases (motive := fun r' => r'.xer = r.xer)
      case xer => exact fun h => absurd h hn
      all_goals intros; rfl
    rw [if_neg hn, if_neg hn, hkeep]
    exact .refl r _

/-- Every instruction treats XER in its way, whether it completes or fails. -/
theorem Instr.xer_exec (i : Instr) (m : Machine) :
    m.regs.XerStep i.xerUse (i.exec m).machine.regs.xer := by
  cases i with
  | fixed i => exact i.xer_exec m.regs
  | condition i =>
      cases i with
      | fromXer field => exact .taken
      | _ => exact .refl _ _
  | system i =>
      cases i with
      | toSpecial n rs => exact SystemInstr.xer_toSpecial n rs m.regs
      | fromTimeBase rd upper => cases upper <;> exact .refl _ _
      | _ => exact .refl _ _
  | branch i =>
      cases i with
      | always target lk => cases lk <;> exact .refl _ _
      | conditional bo bi target lk => cases lk <;> exact .refl _ _
  | float i =>
      have hframe := congrArg Registers.xer (i.frame m.regs)
      show m.regs.XerStep _ (i.exec m.regs).xer
      rw [hframe]
      exact .refl _ _
  | paired i =>
      have hframe := congrArg Registers.xer (i.frame m.regs)
      show m.regs.XerStep _ (i.exec m.regs).xer
      rw [hframe]
      exact .refl _ _
  | trap options ra b =>
      simp only [exec]
      split <;> exact .refl _ _
  | memory i =>
      show m.regs.XerStep _ (i.exec m).machine.regs.xer
      rcases i.regs_cases m with
        hregs | ⟨-, hregs⟩ | ⟨_, _, -, -, _, hregs⟩ | ⟨_, _, -, -, _, hregs⟩
      all_goals
        rw [hregs]
        exact .refl _ _

/-! ## What becomes of the bits -/

namespace Registers.XerStep

variable {r r' : Registers} {use : XerUse}

/-- Reserved bits that are clear stay clear. -/
theorem reserved (h : r.XerStep use r'.xer) (hr : r.xer &&& ~~~Xer.writable = 0#32) :
    r'.xer &&& ~~~Xer.writable = 0#32 := by
  generalize r'.xer = x at h
  cases h with
  | recorded c o _ =>
      rw [r.recorded_and (by decide) (by decide) (by decide) c o]
      exact hr
  | moved v =>
      rw [BitVec.and_assoc, BitVec.and_not_self]
      exact BitVec.and_zero
  | taken => rw [BitVec.and_assoc, BitVec.and_comm 0x0FFFFFFF#32, ← BitVec.and_assoc, hr,
      BitVec.zero_and]

/-- Only the two moves clear summary overflow. -/
theorem summary (h : r.XerStep use r'.xer) (huse : use ≠ .moves) (huse' : use ≠ .takes)
    (hr : r.summaryOverflow = true) : r'.summaryOverflow = true := by
  have hset : r.xer &&& Xer.so ≠ 0#32 := bne_iff_ne.1 hr
  refine bne_iff_ne.2 ?_
  generalize r'.xer = x at h
  cases h with
  | recorded c o _ =>
      rw [recorded_and_summary]
      split
      · decide
      · exact hset
  | moved => contradiction
  | taken => contradiction

/-- An overflow is summarised, unless all of XER is replaced: it is a new one, and is summarised
with it, or an old one, and then its summary is kept. -/
theorem overflow (h : r.XerStep use r'.xer) (huse : use ≠ .moves) (hov : r'.overflow = true) :
    r'.summaryOverflow = true ∨
      (r.overflow = true ∧ (r.summaryOverflow = true → r'.summaryOverflow = true)) := by
  have hset : r'.xer &&& Xer.ov ≠ 0#32 := bne_iff_ne.1 hov
  simp only [Registers.overflow, summaryOverflow, bne_iff_ne]
  generalize r'.xer = x at h hset
  cases h with
  | recorded c o _ =>
      rw [recorded_and_overflow] at hset
      rw [recorded_and_summary]
      cases o with
      | none => exact .inr ⟨hset, id⟩
      | some v =>
          cases v with
          | true => exact .inl (by rw [if_pos rfl]; decide)
          | false => exact absurd rfl hset
  | moved => contradiction
  | taken =>
      refine absurd ?_ hset
      show r.xer &&& 0x0FFFFFFF#32 &&& Xer.ov = 0#32
      rw [BitVec.and_assoc]
      exact BitVec.and_zero

/-- The carry is left alone by whatever has none to record. -/
theorem carry (h : r.XerStep .records r'.xer) : r'.carry = r.carry := by
  simp only [Registers.carry]
  generalize r'.xer = x at h
  cases h with
  | recorded c o hc =>
      obtain rfl : c = none := by
        rcases hc with hnone | huse
        · exact hnone
        · contradiction
      rw [recorded_none_and_carry]

end Registers.XerStep

/-! ## Words -/

/-- Whether a word is one of those that leave a carry. -/
def Word.Carries (w : Word) : Prop :=
  (∃ op ∈ [Primary.subfic, .addic, .addicRc], op.Selects w) ∨
  (∃ op ∈ [FixedArith.addc, .adde, .addme, .addze, .subfc, .subfe, .subfme, .subfze],
    op.Selects w) ∨
  ∃ op ∈ [Fixed.sraw, .srawi], op.Selects w

/-- The words that may stand for an instruction that uses XER in some way. -/
def XerUse.Admits (use : XerUse) (w : Word) : Prop :=
  match use with
  | .records => True
  | .carries => w.Carries
  | .moves => Part.Moves w [Spr.xer]
  | .takes => Fixed.mcrxr.Selects w

namespace Instr

variable {w : Word}

theorem xerUse_ofDForm {f : DForm} {op : Primary} (hf : Primary.ofCode? f.opcd.toNat = some op)
    (hw : op.Selects w) : Yields (ofDForm f) (·.xerUse.Admits w) := by
  unfold ofDForm
  rw [hf]
  cases op with
  | subfic | addic | addicRc => exact yields_ok (.inl ⟨_, by decide, hw⟩)
  | lmw =>
      show Yields (if _ then _ else _) _
      split
      · exact yields_error _
      · exact yields_ok trivial
  | _ =>
      first
      | exact yields_error _
      | exact yields_ok trivial
      | exact yields_withBase trivial
      | exact yields_loadWithBase trivial
      | exact yields_compareWords trivial

theorem xerUse_ofXForm31 {f : XForm} {op : Fixed} (hf : Fixed.ofCode? f.xo.toNat = some op)
    (hw : op.Selects w) : Yields (ofXForm31 f) (·.xerUse.Admits w) := by
  unfold ofXForm31
  rw [hf]
  cases op with
  | sraw | srawi => exact yields_ok (.inr (.inr ⟨_, by decide, hw⟩))
  | mcrxr => exact yields_ok hw
  | _ =>
      first
      | exact yields_error _
      | exact yields_ok trivial
      | exact yields_withBase trivial
      | exact yields_loadWithBase trivial
      | exact yields_compareWords trivial

/-- Only the words that may do so stand for an instruction that uses XER in some way. -/
theorem xerUse_of_reads {x : Except Invalid Instr} (h : Reads w x) :
    Yields x (·.xerUse.Admits w) := by
  cases h with
  | unlisted => exact yields_error _
  | branch | conditional | call | statusFields => exact yields_ok trivial
  | immediate hw _ => exact xerUse_ofDForm hw.ofCode?_dForm hw
  | rotate => exact yields_ofMForm _ (fun _ _ _ _ _ _ => trivial) (fun _ _ _ _ _ _ => trivial)
  | quantized => exact yields_ofPsqForm _ (fun _ _ _ _ _ => trivial) (fun _ _ _ _ _ => trivial)
  | control =>
      exact yields_ofXlForm _ (fun _ => trivial) (fun _ _ => trivial) (fun _ _ _ _ => trivial)
        trivial trivial
  | @arith op hw =>
      refine yields_ofXoForm _ fun op' hop rd ra rb oe rc => ?_
      obtain rfl : op = op' := Option.some.inj (hw.ofCode?_xoForm.symm.trans hop)
      show (if op.carries then XerUse.carries else .records).Admits w
      cases op <;> first | exact trivial | exact .inr (.inl ⟨_, by decide, hw⟩)
  | @special op hw _ =>
      refine yields_ofXfxForm _ (fun _ _ => trivial) (fun _ _ => trivial) (fun hop rs => ?_)
        fun _ _ => trivial
      obtain rfl : op = .mtspr := Option.some.inj (hw.ofCode?_xfxForm.symm.trans hop)
      rw [spr_decode]
      show (if (Field.spr w).toNat = Spr.xer then XerUse.moves else .records).Admits w
      split
      · next hnumber => exact ⟨hw, List.mem_singleton.2 hnumber⟩
      · exact trivial
  | fixed hw => exact xerUse_ofXForm31 hw.ofCode?_xForm hw
  | pairedArith => exact yields_ofAForm4 _ fun _ => trivial
  | pairedIndexed =>
      exact yields_ofPsqxForm _ (fun _ _ _ _ _ => trivial) (fun _ _ _ _ _ => trivial)
  | pairedMove => exact yields_ofXForm4 _ (fun _ => trivial) trivial
  | single => exact yields_ofAForm59 _ fun _ _ _ _ _ _ _ => trivial
  | double => exact yields_ofAForm63 _ (fun _ _ _ _ _ _ _ => trivial) fun _ _ _ _ _ => trivial
  | doubleMove => exact yields_ofXForm63 _ fun _ => trivial

end Instr

/-! ## The discipline -/

/-- What a word makes of XER. -/
structure XerDiscipline (w : Word) (r r' : Registers) : Prop where
  /-- Reserved bits that are clear stay clear. -/
  reserved : r.xer &&& ~~~Xer.writable = 0#32 → r'.xer &&& ~~~Xer.writable = 0#32
  /-- Summary overflow is cleared by the two moves only. -/
  summary : r.summaryOverflow = true → r'.summaryOverflow = false →
    Part.Moves w [Spr.xer] ∨ Fixed.mcrxr.Selects w
  /-- A new overflow is summarised, unless all of XER is replaced. -/
  overflow : r.overflow = false → r'.overflow = true →
    r'.summaryOverflow = true ∨ Part.Moves w [Spr.xer]
  /-- The carry is changed by those that have one and by the two moves only. -/
  carry : r'.carry ≠ r.carry →
    w.Carries ∨ Fixed.mcrxr.Selects w ∨ Part.Moves w [Spr.xer]

namespace Machine

variable {m : Machine} {w : Word}

/-- A word treats XER in a way that it may. -/
theorem xer_execute (m : Machine) (w : Word) :
    ∃ use, use.Admits w ∧ m.regs.XerStep use (m.execute w).machine.regs.xer := by
  cases hi : Instr.ofWord w with
  | error e =>
      rw [execute_of_error hi]
      exact ⟨.records, trivial, .refl _ _⟩
  | ok i =>
      rw [execute_of_ofWord hi]
      exact ⟨i.xerUse, Instr.xerUse_of_reads (Instr.reads_ofWord w) i hi, i.xer_exec m⟩

theorem summary_cleared (h : m.regs.summaryOverflow = true)
    (h' : (m.execute w).machine.regs.summaryOverflow = false) :
    Part.Moves w [Spr.xer] ∨ Fixed.mcrxr.Selects w := by
  obtain ⟨use, hadmits, hstep⟩ := xer_execute m w
  have hkept (huse : use ≠ .moves) (huse' : use ≠ .takes) : False := by
    have hset := hstep.summary huse huse' h
    rw [h'] at hset
    contradiction
  cases use with
  | moves => exact .inl hadmits
  | takes => exact .inr hadmits
  | records | carries => exact (hkept nofun nofun).elim

/-- An overflow without its summary can come from before, or from a move that replaces XER. -/
theorem overflow_unsummarised (h : (m.execute w).machine.regs.overflow = true)
    (h' : (m.execute w).machine.regs.summaryOverflow = false) :
    (m.regs.overflow = true ∧ m.regs.summaryOverflow = false) ∨ Part.Moves w [Spr.xer] := by
  obtain ⟨use, hadmits, hstep⟩ := xer_execute m w
  by_cases huse : use = .moves
  · subst huse
    exact .inr hadmits
  · rcases hstep.overflow huse h with hset | ⟨hold, hsummary⟩
    · rw [h'] at hset
      contradiction
    · refine .inl ⟨hold, Bool.eq_false_iff.2 fun hset => ?_⟩
      rw [h'] at hsummary
      exact Bool.false_ne_true (hsummary hset)

theorem carry_changed (h : (m.execute w).machine.regs.carry ≠ m.regs.carry) :
    w.Carries ∨ Fixed.mcrxr.Selects w ∨ Part.Moves w [Spr.xer] := by
  obtain ⟨use, hadmits, hstep⟩ := xer_execute m w
  cases use with
  | records => exact absurd hstep.carry h
  | carries => exact .inl hadmits
  | takes => exact .inr (.inl hadmits)
  | moves => exact .inr (.inr hadmits)

theorem xerDiscipline_execute (m : Machine) (w : Word) :
    XerDiscipline w m.regs (m.execute w).machine.regs where
  reserved hr := by
    obtain ⟨use, -, hstep⟩ := xer_execute m w
    exact hstep.reserved hr
  summary := summary_cleared
  overflow h h' := by
    cases hsummary : (m.execute w).machine.regs.summaryOverflow with
    | true => exact .inl rfl
    | false =>
        rcases overflow_unsummarised h' hsummary with ⟨hold, -⟩ | hmoves
        · rw [h] at hold
          contradiction
        · exact .inr hmoves
  carry := carry_changed

end Machine

/-! ## Runs -/

/-- Clear reserved bits are an invariant of the flags. -/
theorem reserved_invariant : FlagInvariant (fun r => r.xer &&& ~~~Xer.writable = 0#32) where
  flags hflags hr := by
    rw [hflags.xer]
    exact hr
  initial := rfl
  execute m w := (Machine.xerDiscipline_execute m w).reserved

namespace Interpreter

variable {i : Interpreter} {k : Nat} {m : Machine}

theorem Visits.summary_cleared (h : i.Visits k m) (hi : i.regs.summaryOverflow = true)
    (hm : m.regs.summaryOverflow = false) :
    i.ExecutesSome k fun w => Part.Moves w [Spr.xer] ∨ Fixed.mcrxr.Selects w := by
  let R (r r' : Registers) : Prop := r.summaryOverflow = true → r'.summaryOverflow = true
  have hR : FlagCourse R := by
    refine ⟨fun hflags hr => ?_, fun h h' hr => h' (h hr)⟩
    rw [Registers.summaryOverflow, hflags.xer]
    exact hr
  refine hR.executesSome (fun m w hne => ?_) h fun hkept => ?_
  · rw [Classical.not_imp, Bool.not_eq_true] at hne
    exact Machine.summary_cleared hne.1 hne.2
  · have hset := hkept hi
    rw [hm] at hset
    contradiction

theorem Visits.overflow_unsummarised (h : i.Visits k m) (hi : i.regs.overflow = false)
    (hm : m.regs.overflow = true) (hm' : m.regs.summaryOverflow = false) :
    i.ExecutesSome k fun w => Part.Moves w [Spr.xer] := by
  -- an overflow with its summary never comes to be one without it
  let R (r r' : Registers) : Prop :=
    r'.overflow = true → r'.summaryOverflow = false →
      r.overflow = true ∧ r.summaryOverflow = false
  have hR : FlagCourse R := by
    refine ⟨fun hflags hov hsummary => ?_, fun h h' hov hsummary => ?_⟩
    · simp only [Registers.overflow, Registers.summaryOverflow, hflags.xer] at hov hsummary ⊢
      exact ⟨hov, hsummary⟩
    · obtain ⟨hov', hsummary'⟩ := h' hov hsummary
      exact h hov' hsummary'
  refine hR.executesSome (fun m w hne => ?_) h fun hkept => ?_
  · refine Classical.byContradiction fun hmoves => hne fun hov hsummary => ?_
    exact (Machine.overflow_unsummarised hov hsummary).resolve_right hmoves
  · have hold := (hkept hm hm').1
    rw [hi] at hold
    contradiction

theorem Visits.carry_changed (h : i.Visits k m) (hm : m.regs.carry ≠ i.regs.carry) :
    i.ExecutesSome k fun w => w.Carries ∨ Fixed.mcrxr.Selects w ∨ Part.Moves w [Spr.xer] := by
  let R (r r' : Registers) : Prop := r'.carry = r.carry
  have hR : FlagCourse R := by
    refine ⟨fun hflags => ?_, fun h h' => h'.trans h⟩
    show Registers.carry _ = Registers.carry _
    rw [Registers.carry, Registers.carry, hflags.xer]
  exact hR.executesSome (fun m w => Machine.carry_changed) h hm

end Interpreter

/-- **The discipline of XER**, for every word and over runs. Reserved bits are clear in every
reachable state and at every point of a run that starts so. If a run has cleared summary overflow,
has come to an overflow without its summary or has changed the carry, then it has executed one of
the words that may do so. -/
theorem xer_discipline :
    (∀ (m : Machine) (w : Word), XerDiscipline w m.regs (m.execute w).machine.regs) ∧
    ∀ i : Interpreter, (i.Reachable → i.regs.xer &&& ~~~Xer.writable = 0#32) ∧
      ∀ k m, i.Visits k m →
        (i.regs.xer &&& ~~~Xer.writable = 0#32 → m.regs.xer &&& ~~~Xer.writable = 0#32) ∧
        (i.regs.summaryOverflow = true → m.regs.summaryOverflow = false →
          i.ExecutesSome k fun w => Part.Moves w [Spr.xer] ∨ Fixed.mcrxr.Selects w) ∧
        (i.regs.overflow = false → m.regs.overflow = true → m.regs.summaryOverflow = false →
          i.ExecutesSome k fun w => Part.Moves w [Spr.xer]) ∧
        (m.regs.carry ≠ i.regs.carry →
          i.ExecutesSome k fun w =>
            w.Carries ∨ Fixed.mcrxr.Selects w ∨ Part.Moves w [Spr.xer]) := by
  refine ⟨Machine.xerDiscipline_execute, fun i => ⟨reserved_invariant.reachable, ?_⟩⟩
  intro k m hm
  exact ⟨reserved_invariant.visits hm, hm.summary_cleared, hm.overflow_unsummarised,
    hm.carry_changed⟩

/-- `addo r3, r3, r3` of the least word overflows, and is summarised since it is no move. -/
theorem xer_discipline_add :
    let m : Machine := ⟨Registers.initial.setGpr 3 0x80000000#32, .ofBytes .empty⟩
    m.regs.overflow = false ∧ (m.execute 0x7C631E14#32).machine.regs.overflow = true ∧
      (m.execute 0x7C631E14#32).machine.regs.summaryOverflow = true := by
  intro m
  have hbefore : m.regs.overflow = false := by decide
  have hafter : (m.execute 0x7C631E14#32).machine.regs.overflow = true := by decide
  have hmove : ¬ Fixed.mtspr.Selects 0x7C631E14#32 := by decide
  refine ⟨hbefore, hafter, ?_⟩
  exact ((xer_discipline.1 m _).overflow hbefore hafter).resolve_right fun h => hmove h.1

end Broadway
