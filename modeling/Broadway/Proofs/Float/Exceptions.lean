import Broadway.Proofs.Float.Undefined

/-!
# What arithmetic raises

Without a NaN among its operands an operation raises the one cause for which it is undefined
(`FloatOp.undefined?`), if it is, and gives the default NaN then. Otherwise it has a value, and
raises the division by zero if it has divided by zero, or nothing.

The quotient of an infinity and zero is no division by zero by the architecture, as it is exactly
infinite, but it raises one here as all quotients over zero do (`infinity_over_zero_raises`).
-/

namespace Broadway

open Fpscr (Has Raises)

namespace FloatOp

variable {op : FloatOp} {a b c : Double}

/-- Every cause is an exception. -/
theorem undefined?_mem {cause : Word} (h : op.undefined? a b c = some cause) :
    cause ∈ Fpscr.exceptions := by
  cases op with
  | add | sub | mul | reciprocalSqrt =>
      simp only [undefined?, Option.ite_none_right_eq_some] at h
      rw [← Option.some.inj h.2]
      decide
  | div | madd | msub | nmadd | nmsub =>
      simp only [undefined?] at h
      split at h
      · rw [← Option.some.inj h]
        decide
      · rw [← Option.some.inj (Option.ite_none_right_eq_some.1 h).2]
        decide
  | reciprocal => cases h

section Numbers

variable (hnumbers : ∀ x ∈ op.inputs a b c, x.isNaN = false) (s : Word)

include hnumbers

theorem eval_of_undefined {cause : Word} (h : op.undefined? a b c = some cause) :
    op.eval s a b c = (Double.defaultNaN, Fpscr.raise s cause) := by
  have hnone : op.value? a b c = none := by
    rw [op.value?_eq_none_iff, h]
    exact .inr rfl
  rw [op.eval_eq, hnone]
  show Fpu.invalid s _ _ = _
  rw [Fpu.invalid_of_numbers s _ _ hnumbers, op.cause_of_undefined? hnumbers h]

theorem exists_eval_of_defined (h : op.undefined? a b c = none) :
    ∃ x, x.isNaN = false ∧ op.eval s a b c =
      (x, if op.divides && b.isZero then Fpscr.raise s Fpscr.zx else s) := by
  have hvalue : op.value? a b c ≠ none := by
    rw [ne_eq, op.value?_eq_none_iff, h]
    simpa using hnumbers
  obtain ⟨x, hx⟩ := Option.ne_none_iff_exists'.1 hvalue
  refine ⟨x, op.isNaN_of_value? hx, ?_⟩
  rw [op.eval_eq, hx]

end Numbers

end FloatOp

/-- **What arithmetic raises without a NaN among its operands**, for every operation, every status
and all numbers and infinities: the one cause for which the operation is undefined, or the division
by zero if it divides anything but zero by zero, or nothing. Only what is undefined gives a NaN, and
that is the default one. -/
theorem arithmetic_raises (op : FloatOp) (s : Word) (a b c : Double)
    (h : ∀ x ∈ op.inputs a b c, x.datum ≠ .nan) :
    let r := op.eval s a b c
    (∀ cause, op.undefined? a b c = some cause →
      r.1 = Double.defaultNaN ∧ Raises [cause] s r.2) ∧
    (op.undefined? a b c = none → r.1.datum ≠ .nan ∧
      (op.divides = true ∧ b.isZero = true → Raises [Fpscr.zx] s r.2) ∧
      (¬ (op.divides = true ∧ b.isZero = true) → r.2 = s)) := by
  intro r
  have hnumbers : ∀ x ∈ op.inputs a b c, x.isNaN = false :=
    fun x hx => Double.isNaN_of_ne_nan (h x hx)
  refine ⟨fun cause hcause => ?_, fun hdefined => ?_⟩
  · have hr : r = _ := FloatOp.eval_of_undefined hnumbers s hcause
    rw [hr]
    exact ⟨rfl, Fpscr.raises_one (FloatOp.undefined?_mem hcause) s⟩
  · obtain ⟨x, hx, hr⟩ := FloatOp.exists_eval_of_defined hnumbers s hdefined
    have hr : r = _ := hr
    rw [hr, ← Bool.and_eq_true]
    refine ⟨?_, fun hzero => ?_, fun hnone => ?_⟩
    · rw [ne_eq, ← Double.isNaN_iff, Bool.not_eq_true]
      exact hx
    · rw [if_pos hzero]
      exact Fpscr.raises_one (by decide) s
    · rw [if_neg hnone]

/-- An infinite product is fine, but not with the opposing infinity as a further term. -/
theorem arithmetic_raises_opposing :
    let a : Double := .infinity true
    let b : Double := .infinity false
    let r := FloatOp.madd.eval 0#32 a b .one
    (∀ x ∈ FloatOp.madd.inputs a b .one, x.datum ≠ .nan) ∧
      r.1 = Double.defaultNaN ∧ Raises [Fpscr.vxisi] 0#32 r.2 := by
  intro a b r
  have hnumbers : ∀ x ∈ FloatOp.madd.inputs a b .one, x.datum ≠ .nan := by
    simp only [FloatOp.inputs, List.forall_mem_cons]
    exact ⟨by decide, by decide, by decide, List.forall_mem_nil _⟩
  have hundefined : FloatOp.madd.undefined? a b .one = some Fpscr.vxisi := by decide
  exact ⟨hnumbers, (arithmetic_raises .madd 0#32 a b .one hnumbers).1 _ hundefined⟩

/-- An infinity over zero has an exact quotient and raises an exception all the same. -/
theorem infinity_over_zero_raises :
    let r := Fpu.div 0#32 (.infinity false) (.zero false)
    r.1 = .infinity false ∧ Has r.2 Fpscr.zx ∧ r.2 ≠ 0#32 := by
  decide

end Broadway
