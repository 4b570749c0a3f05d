import Broadway.Proofs.Exec.Frame
import Broadway.Proofs.Float.Status
import Broadway.Proofs.Run.Reachable

/-!
# The floating point status under execution

An instruction treats the status in one of three ways. Most leave it alone, which the frame law
says. Floating point instructions record in it (`FloatInstr.records_exec`,
`PairedInstr.records_exec`). The few that move bits of the status itself, its summaries included,
compute the summaries anew (`FloatInstr.summarizes_exec`). Each way keeps consistent summaries
consistent, so they are an invariant of the flags, and hold in every reachable state
(`status_consistent`).
-/

namespace Broadway

open Fpscr

/-! ## Writing results back -/

namespace Registers

variable {r : Registers} {s : Word}

@[simp]
theorem fpscr_recordStatusIf (r : Registers) (rc : Bool) :
    (r.recordStatusIf rc).fpscr = r.fpscr := by
  cases rc <;> rfl

theorem records_finishFloat {x : Double × Word} (h : Records s x.2) (precision : Precision)
    (frt : Reg) (rc : Bool) : Records s (r.finishFloat precision frt rc x).fpscr := by
  cases precision with
  | double =>
      rw [finishFloat, fpscr_recordStatusIf]
      exact h.trans (records_setClass x.2 x.1)
  | single =>
      simp only [finishFloat, fpscr_recordStatusIf]
      exact h.trans (records_setClass x.2 (Single.round x.1))

theorem records_finishMove (h : Records s r.fpscr) (frt : Reg) (rc : Bool) (x : Double) :
    Records s (r.finishMove frt rc x).fpscr := by
  rw [finishMove, fpscr_recordStatusIf]
  exact h

theorem records_finishPair {t : Word} (h : Records s t) (frt : Reg) (rc : Bool) (x y : Double) :
    Records s (r.finishPair frt rc x y t).fpscr := by
  simp only [finishPair, fpscr_recordStatusIf]
  exact h.trans (records_setClass t (Single.round x))

theorem records_finishPairMove (h : Records s r.fpscr) (frt : Reg) (rc : Bool) (x : Lanes) :
    Records s (r.finishPairMove frt rc x).fpscr := by
  rw [finishPairMove, fpscr_recordStatusIf]
  exact h

end Registers

/-! ## Floating point instructions -/

namespace FloatInstr

/-- Whether an instruction moves bits of the status itself, rather than record in it. -/
def movesStatus : FloatInstr → Bool
  | .clearStatusBit .. | .setStatusBit .. | .setStatusField .. | .setStatusFields ..
  | .statusToCondition .. => true
  | _ => false

theorem records_exec {i : FloatInstr} (h : i.movesStatus = false) (r : Registers) :
    Records r.fpscr (i.exec r).fpscr := by
  cases i with
  | arith op precision frt fra frb frc rc =>
      exact Registers.records_finishFloat
        (op.records_eval r.fpscr (r.ps0 fra) (r.ps0 frb) (r.ps0 frc)) precision frt rc
  | roundToSingle frt frb rc =>
      exact Registers.records_finishFloat
        (Records.refl.raisedIf vxsnan (by decide) (r.ps0 frb).isSignaling) .single frt rc
  | toInteger truncate frt frb rc =>
      exact Registers.records_finishMove (Double.records_toInteger _ r.fpscr (r.ps0 frb)) frt rc _
  | compare ordered field fra frb =>
      exact records_compare r.fpscr ordered (r.ps0 fra) (r.ps0 frb)
  | select | move | fromStatus => exact Registers.records_finishMove .refl _ _ _
  | _ => contradiction

theorem summarizes_exec {i : FloatInstr} (h : i.movesStatus = true) (r : Registers) :
    ∃ s, (i.exec r).fpscr = summarize s := by
  cases i with
  | clearStatusBit b rc => exact ⟨_, Registers.fpscr_recordStatusIf _ rc⟩
  | setStatusBit b rc => exact ⟨_, Registers.fpscr_recordStatusIf _ rc⟩
  | setStatusField n v rc => exact ⟨_, Registers.fpscr_recordStatusIf _ rc⟩
  | setStatusFields mask frb rc => exact ⟨_, Registers.fpscr_recordStatusIf _ rc⟩
  | statusToCondition target source => exact ⟨_, rfl⟩
  | _ => contradiction

end FloatInstr

theorem PairedInstr.records_exec (i : PairedInstr) (r : Registers) :
    Records r.fpscr (i.exec r).fpscr := by
  cases i with
  | arith op broadcast frt fra frb frc rc =>
      -- the second lane goes on with the status that the first has left
      have hfirst := op.records_eval r.fpscr (r.fpr.read fra).ps0 (r.fpr.read frb).ps0
        (broadcastLanes (r.fpr.read frc) broadcast).ps0
      exact Registers.records_finishPair (hfirst.trans (op.records_eval _ _ _ _)) frt rc _ _
  | sum lane frt fra frb frc rc =>
      have hsum := Fpu.records_add r.fpscr (r.fpr.read fra).ps0 (r.fpr.read frb).ps1
      cases lane with
      | ps0 => exact Registers.records_finishPair hsum frt rc _ _
      | ps1 =>
          simp only [exec, Registers.fpscr_recordStatusIf]
          exact hsum.trans (records_setClass _ _)
  | compare lane ordered field fra frb =>
      exact records_compare r.fpscr ordered _ _
  | select | move | merge => exact Registers.records_finishPairMove .refl _ _ _

/-! ## All instructions -/

/-- Only the two floating point units write the status. -/
theorem Instr.writes_status {i : Instr} (h : i.Writes .status) :
    (∃ j, i = .float j) ∨ ∃ j, i = .paired j := by
  cases i with
  | float j => exact .inl ⟨j, rfl⟩
  | paired j => exact .inr ⟨j, rfl⟩
  | memory j => rcases h with ⟨hfloats, -⟩ | ⟨hreservation, -⟩ <;> contradiction
  | fixed | condition | trap => exact h.elim
  | branch j =>
      cases j with
      | always target lk => rcases h with hnpc | ⟨hlr, -⟩ <;> contradiction
      | conditional bo bi target lk => rcases h with hnpc | ⟨hlr, -⟩ | ⟨hctr, -⟩ <;> contradiction
  | system j =>
      cases j with
      | toMsr | toSegment => contradiction
      | call => exact absurd h (by decide : Part.status ∉ [Part.npc, .msr, .srr0, .srr1])
      | returnFromInterrupt =>
          exact absurd h (by decide : Part.status ∉ [Part.npc, .msr, .reservation])
      | _ => exact h.elim

/-- An instruction keeps the summaries right, whether it completes or fails. -/
theorem Instr.consistent_exec (i : Instr) {m : Machine} (h : Consistent m.regs.fpscr) :
    Consistent (i.exec m).machine.regs.fpscr := by
  by_cases hwrites : i.Writes .status
  · rcases i.writes_status hwrites with ⟨j, rfl⟩ | ⟨j, rfl⟩
    · show Consistent (j.exec m.regs).fpscr
      cases hmoves : j.movesStatus with
      | true =>
          obtain ⟨s, hs⟩ := j.summarizes_exec hmoves m.regs
          rw [hs]
          exact consistent_summarize s
      | false => exact (j.records_exec hmoves m.regs).consistent h
    · exact (j.records_exec m.regs).consistent h
  · have hsame : (i.exec m).machine.regs.fpscr = m.regs.fpscr := i.same_exec hwrites m
    rwa [hsame]

theorem Machine.consistent_execute (m : Machine) (w : Word) (h : Consistent m.regs.fpscr) :
    Consistent (m.execute w).machine.regs.fpscr := by
  unfold execute
  split
  · next i _ => exact i.consistent_exec h
  · exact h

/-- Right summaries are an invariant of the flags. -/
theorem consistent_invariant : FlagInvariant (fun r => Consistent r.fpscr) where
  flags hflags hr := by
    rw [hflags.fpscr]
    exact hr
  initial := consistent_summarize 0#32
  execute := Machine.consistent_execute

/-- **The summaries are always right.** Every word keeps them right, whether it completes or fails.
So they are right in every reachable state, at all points of a run or call from there, and in the
snapshot that a call leaves. -/
theorem status_consistent :
    (∀ (m : Machine) (w : Word), Consistent m.regs.fpscr →
      Consistent (m.execute w).machine.regs.fpscr) ∧
    ∀ i : Interpreter, i.Reachable →
      Consistent i.regs.fpscr ∧
      (∀ k m, i.Visits k m → Consistent m.regs.fpscr) ∧
      ∀ (c : FunctionCall),
        (∀ k m, (i.entering c).Visits k m → Consistent m.regs.fpscr) ∧
        ∀ fuel j r, i.evaluate fuel c = some (j, .ok r) → Consistent r.snapshot.fpscr := by
  refine ⟨Machine.consistent_execute, ?_⟩
  intro i hi
  have hstatus := consistent_invariant.reachable hi
  refine ⟨hstatus, fun k m hm => consistent_invariant.visits hm hstatus, ?_⟩
  intro c
  have hentering := consistent_invariant.entering hstatus c
  refine ⟨fun k m hm => consistent_invariant.visits hm hentering, ?_⟩
  intro fuel j r hcall
  rw [Interpreter.snapshot_of_evaluate hcall]
  exact consistent_invariant.evaluate hcall hstatus

/-- `mtfsb1 7` raises the exception of a signalling NaN, and a call of a function that does so
reports its summary. -/
theorem status_consistent_signaling :
    let i := Interpreter.initial (.ofBytes ⟨#[0xFC, 0xE0, 0x00, 0x4C, 0x4E, 0x80, 0x00, 0x20]⟩) 0
    i.Reachable ∧ Consistent i.regs.fpscr ∧
      Consistent (i.machine.execute 0xFCE0004C#32).machine.regs.fpscr ∧
      ∃ j r, i.evaluate 3 ⟨0, [], []⟩ = some (j, .ok r) ∧
        r.snapshot.fpscr = fx ||| vx ||| vxsnan ∧ Consistent r.snapshot.fpscr := by
  intro i
  have hi : i.Reachable := .initial _ 0
  have hcall : (i.evaluate 3 ⟨0, [], []⟩).bind (fun x => x.2.toOption.map (·.snapshot.fpscr))
      = some (fx ||| vx ||| vxsnan) := by
    decide +kernel
  obtain ⟨⟨j, x⟩, heval, hx⟩ := Option.bind_eq_some_iff.1 hcall
  cases x with
  | error e => contradiction
  | ok r =>
      obtain ⟨hstatus, -, hcalls⟩ := status_consistent.2 i hi
      exact ⟨hi, hstatus, status_consistent.1 i.machine _ hstatus, j, r, heval, Option.some.inj hx,
        (hcalls ⟨0, [], []⟩).2 3 j r heval⟩

end Broadway
