import Broadway.Exec.Float

/-!
# The summaries of the floating point status

`Fpscr.Consistent` says, bit by bit, that the two summaries of the status are right: `vx` is set
exactly if a cause of an invalid operation is, and `fex` exactly if an exception is raised whose
enable is set. Two facts about it carry everything else:

* recomputing the summaries makes any status consistent (`consistent_summarize`);
* the bits that describe the last result play no part in it (`Consistent.congr`).

`Fpscr.Records` is what instructions do to the status that only record: they raise exceptions and
describe results. A status stays consistent along it (`Records.consistent`), and arithmetic does
nothing else (`FloatOp.records_eval` and its fellows).
-/

namespace Broadway.Fpscr

/-! ## Single bits -/

/-- Whether a bit is set. -/
def Has (s bit : Word) : Prop := s &&& bit ≠ 0

instance (s bit : Word) : Decidable (Has s bit) := inferInstanceAs (Decidable (_ ≠ _))

variable {s t : Word}

theorem has_or (s a b : Word) : Has s (a ||| b) ↔ Has s a ∨ Has s b := by
  unfold Has
  rw [BitVec.and_or_distrib_left]
  exact (not_congr BitVec.or_eq_zero_iff).trans Decidable.not_and_iff_not_or_not

/-- Bits under a mask see the words under that mask only. -/
theorem has_congr {mask bit : Word} (h : s &&& mask = t &&& mask) (hbit : mask &&& bit = bit) :
    Has s bit ↔ Has t bit := by
  unfold Has
  rw [← hbit, ← BitVec.and_assoc, ← BitVec.and_assoc, h]

theorem has_shiftLeft (s : Word) {k : Nat} (hk : k < 32) :
    Has s (1#32 <<< k) ↔ s.getLsbD k = true := by
  have hbit : BitVec.twoPow 32 k ≠ 0#32 := by
    intro h
    have hself := BitVec.getLsbD_twoPow (w := 32) k k
    rw [h] at hself
    simp [hk] at hself
  show s &&& BitVec.twoPow 32 k ≠ 0#32 ↔ _
  rw [BitVec.and_twoPow]
  cases s.getLsbD k <;> simp [hbit]

theorem has_assign_self {bit : Word} (hbit : bit ≠ 0#32) (s : Word) (v : Bool) :
    Has (assign s bit v) bit ↔ v = true := by
  cases v with
  | true =>
      have hself : (s ||| bit) &&& bit ≠ 0#32 := by
        rw [BitVec.and_or_distrib_right, BitVec.and_self]
        exact fun h => hbit (BitVec.or_eq_zero_iff.1 h).2
      exact ⟨fun _ => rfl, fun _ => hself⟩
  | false => simp [Has, assign, BitVec.and_assoc]

/-- A mask that lies apart from some bits. -/
theorem not_and_of_apart {mask keep : Word} (h : mask &&& keep = 0#32) :
    ~~~mask &&& keep = keep := by
  have hall : (mask ||| ~~~mask) &&& keep = keep := by
    rw [BitVec.or_not_self, BitVec.allOnes_and]
  rw [BitVec.and_or_distrib_right, h, BitVec.zero_or] at hall
  exact hall

/-- Setting or clearing bits apart from others leaves those alone. -/
theorem or_and_of_apart (s : Word) {mask keep : Word} (h : mask &&& keep = 0#32) :
    (s ||| mask) &&& keep = s &&& keep := by
  rw [BitVec.and_or_distrib_right, h, BitVec.or_zero]

theorem and_not_and_of_apart (s : Word) {mask keep : Word} (h : mask &&& keep = 0#32) :
    (s &&& ~~~mask) &&& keep = s &&& keep := by
  rw [BitVec.and_assoc, not_and_of_apart h]

theorem assign_and_of_apart (s : Word) {mask keep : Word} (h : mask &&& keep = 0#32) (v : Bool) :
    assign s mask v &&& keep = s &&& keep := by
  cases v with
  | true => exact or_and_of_apart s h
  | false => exact and_not_and_of_apart s h

theorem has_assign_of_apart (s : Word) {mask bit : Word} (h : mask &&& bit = 0#32) (v : Bool) :
    Has (assign s mask v) bit ↔ Has s bit := by
  unfold Has
  rw [assign_and_of_apart s h]

/-! ## Summaries -/

/-- The two summaries are right. -/
structure Consistent (s : Word) : Prop where
  vx : Has s vx ↔ Has s vxsnan ∨ Has s vxisi ∨ Has s vxidi ∨ Has s vxzdz ∨ Has s vximz ∨
    Has s vxvc ∨ Has s vxsoft ∨ Has s vxsqrt ∨ Has s vxcvi
  fex : Has s fex ↔ (Has s Fpscr.vx ∧ Has s ve) ∨ (Has s ox ∧ Has s oe) ∨
    (Has s ux ∧ Has s ue) ∨ (Has s zx ∧ Has s ze) ∨ (Has s xx ∧ Has s xe)

theorem has_vxAny (s : Word) :
    Has s vxAny ↔ Has s vxsnan ∨ Has s vxisi ∨ Has s vxidi ∨ Has s vxzdz ∨ Has s vximz ∨
      Has s vxvc ∨ Has s vxsoft ∨ Has s vxsqrt ∨ Has s vxcvi := by
  simp only [vxAny, has_or, or_assoc]

/-- Each exception lies 22 places above its enable. -/
theorem has_enabled (s : Word) {k : Nat} (hk : k + 22 < 32) :
    Has (s >>> 22 &&& s) (1#32 <<< k) ↔ Has s (1#32 <<< (k + 22)) ∧ Has s (1#32 <<< k) := by
  rw [has_shiftLeft _ (by omega), has_shiftLeft _ hk, has_shiftLeft _ (by omega),
    BitVec.getLsbD_and, BitVec.getLsbD_ushiftRight, Bool.and_eq_true, Nat.add_comm]

theorem enabled_ne_zero (s : Word) :
    enabled s ≠ 0 ↔ (Has s vx ∧ Has s ve) ∨ (Has s ox ∧ Has s oe) ∨ (Has s ux ∧ Has s ue) ∨
      (Has s zx ∧ Has s ze) ∨ (Has s xx ∧ Has s xe) := by
  have hbits : 0xF8#32 = ve ||| oe ||| ue ||| ze ||| xe := rfl
  show Has (s >>> 22 &&& s) 0xF8#32 ↔ _
  rw [hbits]
  simp only [has_or, or_assoc]
  exact or_congr (has_enabled s (by decide)) (or_congr (has_enabled s (by decide))
    (or_congr (has_enabled s (by decide)) (or_congr (has_enabled s (by decide))
    (has_enabled s (by decide)))))

/-- Recomputing the summaries makes them right. -/
theorem consistent_summarize (s : Word) : Consistent (summarize s) := by
  -- first the causes are summed up in `t`, then what is enabled in the result
  let t := assign s vx (s &&& vxAny != 0)
  have hsummarize : summarize s = assign t fex (enabled t != 0) := rfl
  have hsame : summarize s &&& ~~~fex = t &&& ~~~fex :=
    assign_and_of_apart t (BitVec.and_not_self fex) _
  constructor
  · rw [← has_vxAny]
    calc Has (summarize s) vx
      _ ↔ Has t vx := has_congr hsame (by decide)
      _ ↔ (s &&& vxAny != 0) = true := has_assign_self (by decide) s _
      _ ↔ Has s vxAny := bne_iff_ne
      _ ↔ Has t vxAny := (has_assign_of_apart s (by decide) _).symm
      _ ↔ Has (summarize s) vxAny := (has_congr hsame (by decide)).symm
  · calc Has (summarize s) fex
      _ ↔ (enabled t != 0) = true := has_assign_self (by decide) t _
      _ ↔ enabled t ≠ 0 := bne_iff_ne
      _ ↔ _ := enabled_ne_zero t
      _ ↔ _ := by simp (disch := decide) only [has_congr hsame]

/-! ## Bits that play no part -/

/-- The bits that describe the last result: its class, and how it was rounded. -/
def lastResult : Word := fprf ||| fi ||| fr

theorem Consistent.congr (h : t &&& ~~~lastResult = s &&& ~~~lastResult) (hs : Consistent s) :
    Consistent t := by
  constructor
  · simp (disch := decide) only [has_congr h]
    exact hs.vx
  · simp (disch := decide) only [has_congr h]
    exact hs.fex

theorem setClass_and (s : Word) (x : Double) :
    setClass s x &&& ~~~lastResult = s &&& ~~~lastResult := by
  have hclass (c : BitVec 5) : (c.setWidth 32 <<< 12) &&& ~~~lastResult = 0#32 := by
    revert c
    decide
  rw [setClass, or_and_of_apart _ (hclass _)]
  exact and_not_and_of_apart s (by decide)

theorem setCode_and (s : Word) (code : BitVec 4) :
    setCode s code &&& ~~~lastResult = s &&& ~~~lastResult := by
  have hcode (c : BitVec 4) : (c.setWidth 32 <<< 12) &&& ~~~lastResult = 0#32 := by
    revert c
    decide
  rw [setCode, or_and_of_apart _ (hcode _)]
  exact and_not_and_of_apart s (by decide)

/-! ## Instructions that record -/

/-- `Records s t`: from `s` to `t` exceptions have been raised and results described, and nothing
else has happened. -/
inductive Records (s : Word) : Word → Prop
  | refl : Records s s
  | raised {t : Word} (h : Records s t) (mask : Word) (hmask : mask &&& anyX = mask) :
      Records s (raise t mask)
  | described {t u : Word} (h : Records s t)
      (hsame : u &&& ~~~lastResult = t &&& ~~~lastResult) : Records s u

theorem consistent_raise (mask : Word) (hs : Consistent s) : Consistent (raise s mask) := by
  unfold raise
  split
  · exact hs
  · exact consistent_summarize _

/-- What only records keeps the summaries right. -/
theorem Records.consistent (h : Records s t) (hs : Consistent s) : Consistent t := by
  induction h with
  | refl => exact hs
  | raised _ mask _ ih => exact consistent_raise mask ih
  | described _ hsame ih => exact ih.congr hsame

namespace Records

theorem trans {u : Word} (h : Records s t) (h' : Records t u) : Records s u := by
  induction h' with
  | refl => exact h
  | raised _ mask hmask ih => exact ih.raised mask hmask
  | described _ hsame ih => exact ih.described hsame

theorem raisedIf (h : Records s t) (mask : Word) (hmask : mask &&& anyX = mask) (c : Bool) :
    Records s (if c then raise t mask else t) := by
  cases c with
  | true => exact h.raised mask hmask
  | false => exact h

end Records

end Broadway.Fpscr

/-! ## Arithmetic -/

namespace Broadway

open Fpscr

namespace Fpu

variable (s : Word)

theorem records_invalid (inputs : List Double) {cause : Word} (h : cause &&& anyX = cause) :
    Records s (invalid s inputs cause).2 := by
  unfold invalid
  have hsignaling := (Records.refl (s := s)).raisedIf vxsnan (by decide)
    (inputs.any (·.isSignaling))
  simp only
  split
  · exact hsignaling
  · exact hsignaling.raised cause h

theorem records_add (a b : Double) : Records s (add s a b).2 := by
  unfold add
  split
  · exact .refl
  · exact records_invalid s _ (by decide)

theorem records_sub (a b : Double) : Records s (sub s a b).2 := by
  unfold sub
  split
  · exact .refl
  · exact records_invalid s _ (by decide)

theorem records_mul (a c : Double) : Records s (mul s a c).2 := by
  unfold mul
  split
  · exact .refl
  · exact records_invalid s _ (by decide)

theorem divCause_and (a b : Double) : divCause a b &&& anyX = divCause a b := by
  unfold divCause
  split
  · decide
  · split <;> decide

theorem records_div (a b : Double) : Records s (div s a b).2 := by
  unfold div
  split
  · exact Records.refl.raisedIf zx (by decide) _
  · exact records_invalid s _ (divCause_and a b)

theorem fusedCause_and (a c : Double) : fusedCause a c &&& anyX = fusedCause a c := by
  unfold fusedCause
  split <;> decide

theorem records_madd (a c b : Double) : Records s (madd s a c b).2 := by
  unfold madd
  split
  · exact .refl
  · exact records_invalid s _ (fusedCause_and a c)

theorem records_msub (a c b : Double) : Records s (msub s a c b).2 := by
  unfold msub
  split
  · exact .refl
  · exact records_invalid s _ (fusedCause_and a c)

theorem records_reciprocal (b : Double) : Records s (reciprocal s b).2 := by
  unfold reciprocal
  split
  · exact Records.refl.raisedIf zx (by decide) _
  · exact records_invalid s _ (by decide)

theorem records_reciprocalSqrt (b : Double) : Records s (reciprocalSqrt s b).2 := by
  unfold reciprocalSqrt
  split
  · exact records_invalid s _ (by decide)
  · split
    · exact Records.refl.raised zx (by decide)
    · split
      · exact .refl
      · exact Records.refl.raised vxsqrt (by decide)

end Fpu

theorem FloatOp.records_eval (op : FloatOp) (s : Word) (a b c : Double) :
    Records s (op.eval s a b c).2 := by
  cases op with
  | add => exact Fpu.records_add s a b
  | sub => exact Fpu.records_sub s a b
  | mul => exact Fpu.records_mul s a c
  | div => exact Fpu.records_div s a b
  | madd => exact Fpu.records_madd s a c b
  | msub => exact Fpu.records_msub s a c b
  | nmadd => exact Fpu.records_madd s a c b
  | nmsub => exact Fpu.records_msub s a c b
  | reciprocal => exact Fpu.records_reciprocal s b
  | reciprocalSqrt => exact Fpu.records_reciprocalSqrt s b

namespace Fpscr

variable (s : Word)

theorem records_setClass (x : Double) : Records s (setClass s x) :=
  Records.refl.described (setClass_and s x)

theorem records_setCode (code : BitVec 4) : Records s (setCode s code) :=
  Records.refl.described (setCode_and s code)

theorem records_compare (ordered : Bool) (a b : Double) : Records s (compare ordered s a b) := by
  unfold compare
  have hcode := records_setCode s (compareCode a b)
  simp only
  split
  · refine hcode.raised _ ?_
    split <;> decide
  · exact hcode.raisedIf vxvc (by decide) _

end Fpscr

theorem Conversion.records_status (c : Conversion) (s : Word) : Records s (c.status s) := by
  cases c with
  | clamped w => exact Records.refl.raised vxcvi (by decide)
  | rounded w inexact grown =>
      have hfi : fi &&& ~~~lastResult = 0#32 := rfl
      have hfr : fr &&& ~~~lastResult = 0#32 := rfl
      have hrounding := (Records.refl.described (assign_and_of_apart s hfi inexact)).described
        (assign_and_of_apart (assign s fi inexact) hfr (inexact && grown))
      exact hrounding.raisedIf xx (by decide) inexact

theorem Double.records_toInteger (mode : Rounding) (s : Word) (x : Double) :
    Records s (toInteger mode s x).2 := by
  have hsignaling := (Records.refl (s := s)).raisedIf vxsnan (by decide) x.isSignaling
  exact hsignaling.trans (Conversion.records_status _ _)

end Broadway
