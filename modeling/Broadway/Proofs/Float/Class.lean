import Broadway.Proofs.Float.Status

/-!
# The class of the last result

Arithmetic records the class and sign of its result and never reads those of the one before. A
status without them (`Fpscr.bare`) takes part in an operation as the status itself does:

* raising exceptions commutes with leaving the class out (`bare_raise`);
* so does every operation, and its result does not depend on the class (`FloatOp.eval_bare`).
-/

namespace Broadway

namespace Fpscr

/-- A status without the class of the last result. -/
def bare (s : Word) : Word := s &&& ~~~fprf

variable {mask : Word}

theorem bare_and (s : Word) (h : mask &&& fprf = 0#32) : bare s &&& mask = s &&& mask := by
  have hapart : fprf &&& mask = 0#32 := by rw [BitVec.and_comm, h]
  rw [bare, BitVec.and_assoc, not_and_of_apart hapart]

/-- A mask apart from the class stays as it is without it. -/
theorem and_not_fprf (h : mask &&& fprf = 0#32) : mask &&& ~~~fprf = mask := by
  have hapart : fprf &&& mask = 0#32 := by rw [BitVec.and_comm, h]
  rw [BitVec.and_comm, not_and_of_apart hapart]

theorem bare_or (s : Word) (h : mask &&& fprf = 0#32) : bare (s ||| mask) = bare s ||| mask := by
  rw [bare, BitVec.and_or_distrib_right, and_not_fprf h]
  rfl

theorem bare_assign (s : Word) (h : mask &&& fprf = 0#32) (v : Bool) :
    bare (assign s mask v) = assign (bare s) mask v := by
  cases v with
  | true => exact bare_or s h
  | false =>
      show s &&& ~~~mask &&& ~~~fprf = s &&& ~~~fprf &&& ~~~mask
      rw [BitVec.and_assoc, BitVec.and_comm (~~~mask), BitVec.and_assoc]

/-- The exceptions lie apart from the class. -/
theorem and_fprf_of_anyX (h : mask &&& anyX = mask) : mask &&& fprf = 0#32 := by
  have hapart : anyX &&& fprf = 0#32 := by decide
  rw [← h, BitVec.and_assoc, hapart]
  exact BitVec.and_zero

/-- So do their enables. -/
theorem enabled_bare (s : Word) : enabled (bare s) = enabled s := by
  have hbits : enabled (bare s) =
      (s >>> 22 &&& s) &&& (~~~fprf >>> 22 &&& ~~~fprf &&& 0xF8#32) := by
    rw [enabled, bare, BitVec.ushiftRight_and_distrib]
    ac_rfl
  rw [hbits]
  rfl

theorem bare_summarize (s : Word) : bare (summarize s) = summarize (bare s) := by
  rw [summarize, bare_assign _ (by decide), bare_assign _ (by decide), summarize,
    bare_and s (by decide), ← bare_assign _ (by decide), enabled_bare]

theorem bare_raise (s : Word) (hmask : mask &&& anyX = mask) :
    bare (raise s mask) = raise (bare s) mask := by
  have h := and_fprf_of_anyX hmask
  unfold raise
  by_cases hzero : mask = 0
  · rw [if_pos hzero, if_pos hzero]
  · rw [if_neg hzero, if_neg hzero, bare_summarize, bare_or _ h, apply_ite bare,
      bare_or _ (by decide), bare_and s h]

theorem bare_setClass (s : Word) (x : Double) : bare (setClass s x) = bare s := by
  have hclass (c : BitVec 5) : (c.setWidth 32 <<< 12) &&& ~~~fprf = 0#32 := by
    revert c
    decide
  rw [bare, setClass, or_and_of_apart _ (hclass _), BitVec.and_assoc, BitVec.and_self]
  rfl

/-- The class that is recorded replaces the one before. -/
theorem setClass_and_fprf (s t : Word) (x : Double) :
    setClass s x &&& fprf = setClass t x &&& fprf := by
  have hnone (u : Word) : u &&& ~~~fprf &&& fprf = 0#32 := by
    rw [BitVec.and_assoc, BitVec.and_comm (~~~fprf), BitVec.and_not_self]
    exact BitVec.and_zero
  rw [setClass, setClass, BitVec.and_or_distrib_right, BitVec.and_or_distrib_right, hnone, hnone]

/-- What is put in place of some bits is read back from there. -/
theorem extractLsb'_placed {n : Nat} (s : Word) (code : BitVec n) (hn : 12 + n ≤ 32)
    (hmask : mask.extractLsb' 12 n = BitVec.allOnes n) :
    ((s &&& ~~~mask) ||| (code.setWidth 32 <<< 12)).extractLsb' 12 n = code := by
  apply BitVec.eq_of_getLsbD_eq
  intro i hi
  have hcleared : mask.getLsbD (12 + i) = true := by
    have hbit := congrArg (fun u => u.getLsbD i) hmask
    simpa [hi] using hbit
  have hinside : 12 + i < 32 := by omega
  rw [BitVec.getLsbD_extractLsb', BitVec.getLsbD_or, BitVec.getLsbD_and, BitVec.getLsbD_not,
    hcleared, BitVec.getLsbD_shiftLeft, Nat.add_sub_cancel_left, BitVec.getLsbD_setWidth]
  simp [hi, hinside, Nat.lt_of_le_of_lt (Nat.le_add_left i 12) hinside]

end Fpscr

open Fpscr

/-! ## Arithmetic -/

namespace Fpu

variable (s : Word)

theorem invalid_bare (inputs : List Double) {cause : Word} (h : cause &&& anyX = cause) :
    invalid (bare s) inputs cause = (invalid s inputs cause).map id bare := by
  have hsignaling : (if inputs.any (·.isSignaling) then raise (bare s) vxsnan else bare s) =
      bare (if inputs.any (·.isSignaling) then raise s vxsnan else s) := by
    rw [apply_ite bare, bare_raise s (by decide)]
  unfold invalid
  rw [hsignaling]
  cases inputs.find? (·.isNaN) with
  | some x => rfl
  | none => exact congrArg (Prod.mk _) (bare_raise _ h).symm

/-- An operation that leaves the status alone if it has a value. -/
theorem ofValue_bare (value : Option Double) (inputs : List Double) {cause : Word}
    (h : cause &&& anyX = cause) :
    (match value with
      | some x => (x, bare s)
      | none => invalid (bare s) inputs cause) =
    (match value with
      | some x => (x, s)
      | none => invalid s inputs cause : Double × Word).map id bare := by
  cases value with
  | some x => rfl
  | none => exact invalid_bare s inputs h

/-- A quotient, which may have a value over zero. -/
theorem ofQuotient_bare (value : Option Double) (zero : Bool) (inputs : List Double) {cause : Word}
    (h : cause &&& anyX = cause) :
    (match value with
      | some x => (x, if zero then raise (bare s) zx else bare s)
      | none => invalid (bare s) inputs cause) =
    (match value with
      | some x => (x, if zero then raise s zx else s)
      | none => invalid s inputs cause : Double × Word).map id bare := by
  cases value with
  | some x =>
      cases zero with
      | true =>
          have hzx : zx &&& anyX = zx := by decide
          exact congrArg (Prod.mk x) (bare_raise s hzx).symm
      | false => rfl
  | none => exact invalid_bare s inputs h

theorem madd_bare (a c b : Double) : madd (bare s) a c b = (madd s a c b).map id bare :=
  ofValue_bare s _ _ (fusedCause_and a c)

theorem msub_bare (a c b : Double) : msub (bare s) a c b = (msub s a c b).map id bare :=
  ofValue_bare s _ _ (fusedCause_and a c)

theorem reciprocalSqrt_bare (b : Double) :
    reciprocalSqrt (bare s) b = (reciprocalSqrt s b).map id bare := by
  unfold reciprocalSqrt
  cases b.isNaN with
  | true => exact invalid_bare s _ (by decide)
  | false =>
      cases b.isZero with
      | true => exact congrArg (Prod.mk _) (bare_raise s (by decide)).symm
      | false =>
          cases b.sqrt?.bind (Double.div? .one) with
          | some x => rfl
          | none => exact congrArg (Prod.mk _) (bare_raise s (by decide)).symm

end Fpu

/-- **Arithmetic does not look at the class of the last result**, and leaves it as it was. -/
theorem FloatOp.eval_bare (op : FloatOp) (s : Word) (a b c : Double) :
    op.eval (bare s) a b c = (op.eval s a b c).map id bare := by
  cases op with
  | add | sub | mul => exact Fpu.ofValue_bare s _ _ (by decide)
  | div => exact Fpu.ofQuotient_bare s _ _ _ (Fpu.divCause_and a b)
  | madd => exact Fpu.madd_bare s a c b
  | msub => exact Fpu.msub_bare s a c b
  | nmadd => exact congrArg (Prod.map Fpu.negateResult id) (Fpu.madd_bare s a c b)
  | nmsub => exact congrArg (Prod.map Fpu.negateResult id) (Fpu.msub_bare s a c b)
  | reciprocal => exact Fpu.ofQuotient_bare s _ _ _ (by decide)
  | reciprocalSqrt => exact Fpu.reciprocalSqrt_bare s b

/-- Statuses that differ in the class only give the same result, and statuses that differ in the
class only. -/
theorem FloatOp.eval_congr (op : FloatOp) {s t : Word} (h : bare s = bare t) (a b c : Double) :
    (op.eval s a b c).1 = (op.eval t a b c).1 ∧
      bare (op.eval s a b c).2 = bare (op.eval t a b c).2 := by
  have hsame : (op.eval s a b c).map id bare = (op.eval t a b c).map id bare := by
    rw [← op.eval_bare, ← op.eval_bare, h]
  exact Prod.mk.inj hsame

end Broadway
