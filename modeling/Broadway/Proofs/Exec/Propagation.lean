import Broadway.Proofs.Exec.Scalar
import Broadway.Proofs.Float.SingleRound

/-!
# NaNs pass through arithmetic

An operation with a NaN among its operands has no value, and all operations do the same then: they
pass on the first NaN of their operands, made quiet, and raise no exception but the one for a
signalling NaN. Which operand is the first one is in the list of operands, `FloatOp.inputs`; what
else would be wrong with the operands, such as a zero that is divided by, does not come into it
(`FloatOp.eval_of_find?`).
-/

namespace Broadway

open Fpscr (Has Raises)

/-- What has become of the NaN `x`, the first among the operands of an operation. -/
structure Double.PassedOn (x : Double) (inputs : List Double) (s : Word) (r : Double × Word) :
    Prop where
  /-- The quiet bit is set, and all others are those of the operand. -/
  bits : ∀ i < 64, r.1.getLsbD i = (decide (i = 51) || x.getLsbD i)
  /-- Nothing is raised but the exception for a signalling NaN, if there is one. -/
  raised : Raises (if inputs.any (·.isSignaling) then [Fpscr.vxsnan] else []) s r.2
  /-- A negation of the result does not change it. -/
  negated : Fpu.negateResult r.1 = r.1

namespace FloatOp

variable {op : FloatOp} {a b c x : Double}

theorem eval_of_find? (h : (op.inputs a b c).find? (·.isNaN) = some x) (s : Word) :
    op.eval s a b c = (x.quiet,
      if (op.inputs a b c).any (·.isSignaling) then Fpscr.raise s Fpscr.vxsnan else s) := by
  have hmem := List.mem_of_find?_eq_some h
  have hnan : x.isNaN = true := List.find?_some h
  have hnone : op.value? a b c = none := op.value?_eq_none_iff.2 (.inl ⟨x, hmem, hnan⟩)
  rw [op.eval_eq, hnone]
  exact Fpu.invalid_of_find? s _ _ h

theorem passedOn (h : (op.inputs a b c).find? (·.isNaN) = some x) (s : Word) :
    x.PassedOn (op.inputs a b c) s (op.eval s a b c) := by
  have hnan : x.isNaN = true := List.find?_some h
  rw [eval_of_find? h]
  constructor
  case bits => exact fun i hi => x.getLsbD_quiet hi
  case raised =>
    split
    · exact Fpscr.raises_one (by decide) s
    · exact Fpscr.raises_nil s
  case negated => exact Fpu.negateResult_of_isNaN (x.isNaN_quiet hnan)

end FloatOp

/-- In either precision what is delivered of a NaN is one, with its sign. -/
theorem Precision.deliver_of_isNaN (precision : Precision) {x : Double} (h : x.isNaN = true) :
    (precision.deliver x).isNaN = true ∧ (precision.deliver x).negative = x.negative := by
  cases precision with
  | double => exact ⟨h, rfl⟩
  | single => exact ⟨Single.isNaN_round_of_isNaN h, Single.negative_round_of_isNaN h⟩

/-- **NaNs pass through arithmetic by one rule**, for every operation, every status and all operands
of which one is a NaN. The first of them is passed on, quiet and otherwise as it is, and words of
scalar arithmetic deliver a NaN with its sign, those that negate their result as well. -/
theorem nan_passed_on (op : FloatOp) (s : Word) (a b c : Double)
    (h : ∃ x ∈ op.inputs a b c, x.datum = .nan) :
    ∃ before x after, op.inputs a b c = before ++ x :: after ∧
      (∀ y ∈ before, y.datum ≠ .nan) ∧ x.datum = .nan ∧
      x.PassedOn (op.inputs a b c) s (op.eval s a b c) ∧
      ∀ (m : Machine) (w : Word) (precision : Precision), Word.ScalarArith w op precision →
        m.regs.scalarOperand w .a = a → m.regs.scalarOperand w .b = b →
        m.regs.scalarOperand w .c = c →
        ∃ r, m.execute w = m.done r ∧ (r.ps0 (Field.rt w)).datum = .nan ∧
          (r.ps0 (Field.rt w)).negative = x.negative := by
  obtain ⟨y, hy, hdatum⟩ := h
  have hsome : ((op.inputs a b c).find? (·.isNaN)).isSome = true :=
    List.find?_isSome.2 ⟨y, hy, (Double.isNaN_iff y).2 hdatum⟩
  obtain ⟨x, hfind⟩ := Option.isSome_iff_exists.1 hsome
  obtain ⟨hx, before, after, hinputs, hbefore⟩ := List.find?_eq_some_iff_append.1 hfind
  refine ⟨before, x, after, hinputs, ?_, (Double.isNaN_iff x).1 hx, FloatOp.passedOn hfind s, ?_⟩
  · intro y hy
    have hnumber := hbefore y hy
    rw [ne_eq, ← Double.isNaN_iff]
    simpa using hnumber
  · rintro m w precision hw rfl rfl rfl
    obtain ⟨r, hdone, hresult, -⟩ := Machine.execute_scalarArith hw m
    have hvalue := congrArg Prod.fst (FloatOp.eval_of_find? hfind m.regs.fpscr)
    obtain ⟨hnan, hnegative⟩ := precision.deliver_of_isNaN (x.isNaN_quiet hx)
    have hdelivered : r.ps0 (Field.rt w) = precision.deliver x.quiet :=
      hresult.trans (congrArg precision.deliver hvalue)
    refine ⟨r, hdone, ?_, ?_⟩
    · rw [hdelivered]
      exact (Double.isNaN_iff _).1 hnan
    · rw [hdelivered, hnegative, x.negative_quiet]

/-- A negative signalling NaN that is to be added to infinity times zero is passed on, and the
product does not come into it. -/
theorem nan_passed_on_over_product :
    let a : Double := .infinity false
    let b : Double := 0xFFF0000000000001#64
    let c : Double := .zero false
    let r := FloatOp.nmadd.eval 0#32 a b c
    (∃ x ∈ FloatOp.nmadd.inputs a b c, x.datum = .nan) ∧
      (∀ i < 64, r.1.getLsbD i = (decide (i = 51) || b.getLsbD i)) ∧
      Has r.2 Fpscr.vxsnan ∧ Has r.2 Fpscr.vx ∧ ¬ Has r.2 Fpscr.vximz := by
  intro a b c r
  have ha : a.datum ≠ .nan := by decide
  have hb : b.datum = .nan := by decide
  have hinputs : ∃ x ∈ FloatOp.nmadd.inputs a b c, x.datum = .nan :=
    ⟨b, List.mem_cons_of_mem a List.mem_cons_self, hb⟩
  obtain ⟨before, x, after, hsplit, hbefore, hx, hpassed, -⟩ :=
    nan_passed_on .nmadd 0#32 a b c hinputs
  have hsame : x = b := by
    obtain _ | ⟨y, _ | ⟨z, rest⟩⟩ := before
    · exact absurd ((List.cons.inj hsplit).1 ▸ hx) ha
    · exact (List.cons.inj (List.cons.inj hsplit).2).1.symm
    · have hz : b = z := (List.cons.inj (List.cons.inj hsplit).2).1
      exact absurd (hz ▸ hb) (hbefore z (by simp))
  have hsignaling : (FloatOp.nmadd.inputs a b c).any (·.isSignaling) = true := by decide
  have hraised := hpassed.raised
  rw [hsignaling, if_pos rfl] at hraised
  have hsnan : Has r.2 Fpscr.vxsnan :=
    (hraised.raised Fpscr.vxsnan (by decide)).2 (.inr List.mem_cons_self)
  have hsummaries := hraised.summaries (List.cons_ne_nil _ _)
  refine ⟨hinputs, hsame ▸ hpassed.bits, hsnan, hsummaries.vx.2 (.inl hsnan), ?_⟩
  intro himz
  have hcauses := (hraised.raised Fpscr.vximz (by decide)).1 himz
  revert hcauses
  decide

end Broadway
