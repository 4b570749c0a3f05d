import Mathlib.Algebra.Order.Ring.Unbundled.Rat
import Mathlib.Order.WithBot
import Broadway.Proofs.Float.Undefined

/-!
# Comparison of doubles

What is not a NaN is an extended rational number (`Datum.extended?`), and the condition code of a
comparison tells the order of these numbers (`Fpscr.orders_compareCode`). The status collects the
exceptions of a comparison apart from the code (`Fpscr.raises_compare`).
-/

namespace Broadway

/-- The extended rational number that a datum is, if it is one. -/
def Datum.extended? : Datum → Option (WithBot (WithTop Rat))
  | .nan => none
  | .infinity negative => some (if negative then ⊥ else ⊤)
  | .finite negative m e => (finite negative m e).value?.map fun v => ((v : WithTop Rat) : _)

theorem Datum.extended?_eq_none_iff {d : Datum} : d.extended? = none ↔ d = .nan := by
  cases d <;> simp [extended?, value?]

theorem Datum.cases_of_extended? {d : Datum} {v : WithBot (WithTop Rat)}
    (h : d.extended? = some v) : (∃ s, d = .infinity s ∧ v = if s then ⊥ else ⊤) ∨
      ∃ q : Rat, d.value? = some q ∧ v = (q : WithTop Rat) := by
  cases d with
  | nan => nomatch h
  | infinity s => exact .inl ⟨s, rfl, (Option.some.inj h).symm⟩
  | finite s m e => exact .inr ⟨_, rfl, (Option.some.inj h).symm⟩

namespace Double

variable {x y : Double}

theorem order_swap (x y : Double) : y.order x = (x.order y).map Ordering.swap := by
  rw [order, order, Bool.or_comm]
  split
  · rfl
  · rw [Option.map_some, Int.compare_swap]

theorem order_of_infinities {s t : Bool} (hx : x.datum = .infinity s) (hy : y.datum = .infinity t) :
    x.order y = some (if s = t then .eq else if s then .lt else .gt) := by
  have hnan {z : Double} {u : Bool} (hz : z.datum = .infinity u) : z.isNaN = false := by
    apply isNaN_of_ne_nan
    rw [hz]
    nofun
  rw [order, hnan hx, hnan hy, orderKey, orderKey, ← negative_of_infinity hx,
    ← negative_of_infinity hy, magnitude_of_infinity hx, magnitude_of_infinity hy]
  cases s <;> cases t <;> rfl

/-- The order of two doubles is the order of the extended rational numbers that they are. -/
theorem order_of_extended {v w : WithBot (WithTop Rat)} (hx : x.datum.extended? = some v)
    (hy : y.datum.extended? = some w) :
    (x.order y = some .lt ∧ v < w) ∨ (x.order y = some .eq ∧ v = w) ∨
      (x.order y = some .gt ∧ w < v) := by
  have hbottom (q : Rat) : (⊥ : WithBot (WithTop Rat)) < ((q : WithTop Rat) : _) :=
    WithBot.bot_lt_coe _
  have htop (q : Rat) : ((q : WithTop Rat) : WithBot (WithTop Rat)) < ⊤ :=
    WithBot.coe_lt_coe.2 (WithTop.coe_lt_top q)
  obtain ⟨s, hs, rfl⟩ | ⟨q, hq, rfl⟩ := Datum.cases_of_extended? hx
  · obtain ⟨t, ht, rfl⟩ | ⟨r, hr, rfl⟩ := Datum.cases_of_extended? hy
    · rw [order_of_infinities hs ht]
      cases s <;> cases t <;> simp
    · rw [order_of_infinity hs hr]
      cases s with
      | true => exact .inl ⟨rfl, hbottom r⟩
      | false => exact .inr (.inr ⟨rfl, htop r⟩)
  · obtain ⟨t, ht, rfl⟩ | ⟨r, hr, rfl⟩ := Datum.cases_of_extended? hy
    · rw [order_swap, order_of_infinity ht hq]
      cases t with
      | true => exact .inr (.inr ⟨rfl, hbottom q⟩)
      | false => exact .inl ⟨rfl, htop q⟩
    · rw [order_of_numbers hq hr, WithBot.coe_lt_coe, WithBot.coe_lt_coe, WithTop.coe_lt_coe,
        WithTop.coe_lt_coe, WithBot.coe_inj, WithTop.coe_inj]
      obtain hlt | heq | hgt := lt_trichotomy q r
      · exact .inl ⟨by rw [if_pos hlt], hlt⟩
      · exact .inr (.inl ⟨by rw [heq, if_neg (lt_irrefl r), if_pos rfl], heq⟩)
      · exact .inr (.inr ⟨by rw [if_neg hgt.asymm, if_neg hgt.ne'], hgt⟩)

end Double

namespace Fpscr

/-- The condition code for the order of two data as extended rational numbers. -/
inductive Code.Orders (x y : Datum) : BitVec 4 → Prop
  | less {v w : WithBot (WithTop Rat)} (hx : x.extended? = some v) (hy : y.extended? = some w)
      (h : v < w) : Orders x y Code.less
  | greater {v w : WithBot (WithTop Rat)} (hx : x.extended? = some v) (hy : y.extended? = some w)
      (h : w < v) : Orders x y Code.greater
  | equal {v w : WithBot (WithTop Rat)} (hx : x.extended? = some v) (hy : y.extended? = some w)
      (h : v = w) : Orders x y Code.equal
  | unordered (h : x = .nan ∨ y = .nan) : Orders x y Code.unordered

/-- The code with less and greater exchanged. -/
def Code.mirror (code : BitVec 4) : BitVec 4 :=
  if code = less then greater else if code = greater then less else code

namespace Code.Orders

variable {x y : Datum} {code code' : BitVec 4}

theorem mirror (h : Orders x y code) : Orders y x (Code.mirror code) := by
  cases h with
  | less hx hy h => exact .greater hy hx h
  | greater hx hy h => exact .less hy hx h
  | equal hx hy h => exact .equal hy hx h.symm
  | unordered h => exact .unordered h.symm

theorem eq_of_extended {v w : WithBot (WithTop Rat)} (hx : x.extended? = some v)
    (hy : y.extended? = some w) (h : Orders x y code) :
    code = if v < w then Code.less else if w < v then Code.greater else Code.equal := by
  cases h with
  | less hx' hy' h =>
      cases hx.symm.trans hx'
      cases hy.symm.trans hy'
      rw [if_pos h]
  | greater hx' hy' h =>
      cases hx.symm.trans hx'
      cases hy.symm.trans hy'
      rw [if_neg h.asymm, if_pos h]
  | equal hx' hy' h =>
      cases hx.symm.trans hx'
      cases hy.symm.trans hy'
      rw [if_neg h.not_lt, if_neg h.not_gt]
  | unordered h =>
      rcases h with rfl | rfl
      · nomatch hx
      · nomatch hy

theorem eq_of_nan (hnan : x = .nan ∨ y = .nan) (h : Orders x y code) : code = Code.unordered := by
  cases h with
  | unordered h => rfl
  | less hx hy h | greater hx hy h | equal hx hy h =>
      rcases hnan with rfl | rfl
      · nomatch hx
      · nomatch hy

/-- Two data have one code. -/
theorem unique (h : Orders x y code) (h' : Orders x y code') : code = code' := by
  cases hx : x.extended? with
  | none =>
      have hnan : x = .nan ∨ y = .nan := .inl (Datum.extended?_eq_none_iff.1 hx)
      rw [h.eq_of_nan hnan, h'.eq_of_nan hnan]
  | some v =>
      cases hy : y.extended? with
      | none =>
          have hnan : x = .nan ∨ y = .nan := .inr (Datum.extended?_eq_none_iff.1 hy)
          rw [h.eq_of_nan hnan, h'.eq_of_nan hnan]
      | some w => rw [h.eq_of_extended hx hy, h'.eq_of_extended hx hy]

end Code.Orders

theorem orders_compareCode (a b : Double) : Code.Orders a.datum b.datum (compareCode a b) := by
  cases ha : a.datum.extended? with
  | none =>
      have hnan := Datum.extended?_eq_none_iff.1 ha
      have hcode : compareCode a b = Code.unordered := by
        rw [compareCode, Double.order, (Double.isNaN_iff a).2 hnan]
        rfl
      rw [hcode]
      exact .unordered (.inl hnan)
  | some v =>
      cases hb : b.datum.extended? with
      | none =>
          have hnan := Datum.extended?_eq_none_iff.1 hb
          have hcode : compareCode a b = Code.unordered := by
            rw [compareCode, Double.order, (Double.isNaN_iff b).2 hnan, Bool.or_true]
            rfl
          rw [hcode]
          exact .unordered (.inr hnan)
      | some w =>
          rw [compareCode]
          obtain ⟨horder, hlt⟩ | ⟨horder, heq⟩ | ⟨horder, hgt⟩ := Double.order_of_extended ha hb
          · rw [horder]
            exact .less ha hb hlt
          · rw [horder]
            exact .equal ha hb heq
          · rw [horder]
            exact .greater ha hb hgt

/-! ## The status -/

/-- What a comparison raises. If a signalling NaN is reported by an exception that is enabled, it is
not reported as an unordered operand besides. -/
def compareCauses (ordered : Bool) (s : Word) (a b : Double) : List Word :=
  let signaling := a.isSignaling || b.isSignaling
  (if signaling then [vxsnan] else []) ++
    if ordered ∧ (a.isNaN ∨ b.isNaN) ∧ ¬ (signaling ∧ s &&& ve ≠ 0) then [vxvc] else []

theorem compareCauses_mem {ordered : Bool} {s : Word} {a b : Double} :
    ∀ cause ∈ compareCauses ordered s a b, cause ∈ exceptions := by
  intro cause hcause
  have hknown : vxsnan ∈ exceptions ∧ vxvc ∈ exceptions := by decide
  simp only [compareCauses, List.mem_append, List.mem_ite_nil_right, List.mem_singleton] at hcause
  obtain ⟨-, rfl⟩ | ⟨-, rfl⟩ := hcause
  · exact hknown.1
  · exact hknown.2

/-- A comparison records its code and raises what it is to raise. -/
theorem compare_eq (ordered : Bool) (s : Word) (a b : Double) : compare ordered s a b =
    raise (setCode s (compareCode a b)) (allOf (compareCauses ordered s a b)) := by
  generalize hcode : setCode s (compareCode a b) = t
  have hve : t &&& ve = s &&& ve := by
    have hapart : ~~~lastResult &&& ve = ve := by decide
    rw [← hcode, ← hapart, ← BitVec.and_assoc, setCode_and, BitVec.and_assoc]
  rw [compare, hcode]
  simp only [hve, compareCauses]
  cases hsignaling : a.isSignaling || b.isSignaling with
  | true =>
      have hnan : a.isNaN = true ∨ b.isNaN = true := by
        rw [Bool.or_eq_true] at hsignaling
        exact hsignaling.imp Double.isNaN_of_isSignaling Double.isNaN_of_isSignaling
      cases ordered with
      | false => simp [allOf]
      | true => by_cases henabled : s &&& ve = 0#32 <;> simp [henabled, hnan, allOf]
  | false =>
      cases ordered with
      | false => simp [allOf, raise]
      | true =>
          by_cases hnan : a.isNaN = true ∨ b.isNaN = true <;> simp [hnan, allOf, raise]

theorem raises_compare (ordered : Bool) (s : Word) (a b : Double) :
    Raises (compareCauses ordered s a b) (setCode s (compareCode a b)) (compare ordered s a b) := by
  rw [compare_eq]
  by_cases hnone : compareCauses ordered s a b = []
  · rw [hnone]
    exact raises_nil _
  · exact raises_raise compareCauses_mem hnone _

end Fpscr

end Broadway
