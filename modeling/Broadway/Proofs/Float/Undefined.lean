import Broadway.Proofs.Float.Order
import Broadway.Proofs.Float.Raised

/-!
# Operations without a value

An operation on doubles has no value if one of its operands is a NaN, or if it is undefined for the
infinities and zeros among them. `FloatOp.undefined?` lists the latter cases, each with its cause, and
`FloatOp.value?_eq_none_iff` says that there are no others.

`FloatOp.eval_eq` is one equation for all operations with status: the value if there is one, with the
division by zero raised if it was one, and otherwise what `Fpu.invalid` makes of the operands and the
cause. Whatever is to be known about the exceptions of arithmetic follows from these two.
-/

namespace Broadway

/-- No number is rounded beyond infinity. -/
theorem Format.round_le_infinity (f : Format) (m : Nat) (e : Int) : f.round m e ≤ f.infinity := by
  rw [round]
  split
  · exact Nat.zero_le _
  · exact Nat.min_le_right _ _

namespace Datum

/-- A sum has no value if an operand has none, or if it is a difference of infinities. -/
theorem add_eq_nan_iff {x y : Datum} : x.add y = .nan ↔
    x = .nan ∨ y = .nan ∨ ∃ s, x = .infinity s ∧ y = .infinity (!s) := by
  cases x with
  | nan => simp [add]
  | infinity s =>
      cases y with
      | nan | finite => simp [add]
      | infinity t => cases s <;> cases t <;> simp [add]
  | finite s m e =>
      cases y with
      | nan | infinity => simp [add]
      | finite t n d =>
          simp only [add, reduceCtorEq, false_and, exists_false, or_self, iff_false]
          split <;> exact Datum.noConfusion

theorem negate_eq_nan_iff {x : Datum} : x.negate = .nan ↔ x = .nan := by
  cases x <;> simp [negate]

theorem negate_eq_infinity_iff {x : Datum} {s : Bool} :
    x.negate = .infinity s ↔ x = .infinity (!s) := by
  cases x <;> simp [negate, Bool.not_eq_eq_eq_not]

end Datum

/-! ## What a double is -/

namespace Double

/-- The kinds of doubles, each with what its bits stand for. -/
inductive Kind (x : Double) : Datum → Prop
  | nan (hnan : x.isNaN = true) (hinfinite : x.isInfinite = false) (hzero : x.isZero = false) :
      Kind x .nan
  | infinity (hnan : x.isNaN = false) (hinfinite : x.isInfinite = true) (hzero : x.isZero = false) :
      Kind x (.infinity x.negative)
  | number {m : Nat} {e : Int} (hnan : x.isNaN = false) (hinfinite : x.isInfinite = false)
      (hzero : x.isZero = decide (m = 0)) : Kind x (.finite x.negative m e)

theorem decode_eq_zero_iff (n : Nat) : (Format.double.decode n).1 = 0 ↔ n = 0 := by
  rw [Format.decode]
  split
  · next hfield =>
    have hfraction : 2 ^ Format.double.fractionBits * (n / 2 ^ Format.double.fractionBits) +
        n % 2 ^ Format.double.fractionBits = n := Nat.div_add_mod n _
    rw [hfield] at hfraction
    show n % 2 ^ Format.double.fractionBits = 0 ↔ n = 0
    omega
  · next hfield =>
    have hpos := Nat.two_pow_pos Format.double.fractionBits
    have hne : n ≠ 0 := fun hzero => hfield (by rw [hzero, Nat.zero_div])
    show 2 ^ Format.double.fractionBits + _ = 0 ↔ n = 0
    omega

theorem isZero_of_isInfinite {x : Double} (h : x.isInfinite = true) : x.isZero = false := by
  have hmagnitude : x.magnitude = Format.double.infinity := of_decide_eq_true h
  rw [isZero, hmagnitude]
  rfl

/-- Every double is of one of these kinds. -/
theorem kind (x : Double) : Kind x x.datum := by
  cases hnan : x.isNaN with
  | true =>
      have habove : Format.double.infinity < x.magnitude := of_decide_eq_true hnan
      have hinfinite : x.isInfinite = false := decide_eq_false (Nat.ne_of_gt habove)
      have hzero : x.isZero = false := decide_eq_false (Nat.ne_of_gt (Nat.zero_lt_of_lt habove))
      rw [datum, hnan]
      exact .nan hnan hinfinite hzero
  | false =>
      cases hinfinite : x.isInfinite with
      | true =>
          rw [datum, hnan, hinfinite]
          exact .infinity hnan hinfinite (isZero_of_isInfinite hinfinite)
      | false =>
          have hzero : x.isZero = decide ((Format.double.decode x.magnitude).1 = 0) :=
            decide_eq_decide.2 (decode_eq_zero_iff x.magnitude).symm
          rw [datum, hnan, hinfinite]
          exact .number hnan hinfinite hzero

theorem isNaN_iff (x : Double) : x.isNaN = true ↔ x.datum = .nan := by
  have hkind := x.kind
  generalize x.datum = d at hkind
  cases hkind with
  | nan hnan => simp [hnan]
  | infinity hnan | number hnan => simp [hnan]

theorem datum_eq_infinity_iff {x : Double} {s : Bool} :
    x.datum = .infinity s ↔ x.isInfinite = true ∧ x.negative = s := by
  have hx := x.kind
  generalize x.datum = d at hx
  cases hx with
  | nan hnan hinfinite | infinity hnan hinfinite | number hnan hinfinite => simp [hinfinite]

/-- One of two factors is infinite and the other one is zero. -/
def InfinityTimesZero (a c : Double) : Prop :=
  (a.isInfinite = true ∧ c.isZero = true) ∨ (a.isZero = true ∧ c.isInfinite = true)

instance (a c : Double) : Decidable (InfinityTimesZero a c) := inferInstanceAs (Decidable (_ ∨ _))

/-! ## The doubles nearest to data -/

theorem ofDatum?_eq_none_iff {d : Datum} : ofDatum? d = none ↔ d = .nan := by
  cases d <;> simp [ofDatum?]

/-- A value is no NaN. -/
theorem isNaN_of_ofDatum? {d : Datum} {x : Double} (h : ofDatum? d = some x) : x.isNaN = false := by
  have hmagnitude (s : Bool) {n : Nat} (hn : n ≤ Format.double.infinity) :
      (ofMagnitude s n).isNaN = false := by
    have hbound : Format.double.infinity < 2 ^ 63 := by decide
    have hlt : n < 2 ^ 63 := Nat.lt_of_le_of_lt hn hbound
    rw [isNaN, magnitude_ofMagnitude s hlt]
    exact decide_eq_false (Nat.not_lt.2 hn)
  cases d with
  | nan => cases h
  | infinity s =>
      have hx : infinity s = x := Option.some.inj h
      subst hx
      exact hmagnitude s (Nat.le_refl Format.double.infinity)
  | finite s m e =>
      have hround : Format.double.round m e ≤ Format.double.infinity :=
        Format.round_le_infinity ..
      have hx : ofMagnitude s (Format.double.round m e) = x := Option.some.inj h
      subst hx
      exact hmagnitude s hround

/-! ## Operations without a value -/

variable {a b c : Double}

theorem add?_eq_none_iff : a.add? b = none ↔ (a.isNaN = true ∨ b.isNaN = true) ∨
    a.isInfinite = true ∧ b.isInfinite = true ∧ a.negative ≠ b.negative := by
  have ha := a.kind
  have hb := b.kind
  rw [add?, ofDatum?_eq_none_iff]
  generalize a.datum = x at ha
  generalize b.datum = y at hb
  cases ha <;> cases hb <;> simp [Datum.add_eq_nan_iff, *]
  -- two infinities are left
  cases a.negative <;> cases b.negative <;> decide

theorem sub?_eq_none_iff : a.sub? b = none ↔ (a.isNaN = true ∨ b.isNaN = true) ∨
    a.isInfinite = true ∧ b.isInfinite = true ∧ a.negative = b.negative := by
  have ha := a.kind
  have hb := b.kind
  rw [sub?, ofDatum?_eq_none_iff]
  generalize a.datum = x at ha
  generalize b.datum = y at hb
  cases ha <;> cases hb <;> simp [Datum.add_eq_nan_iff, Datum.negate, *]
  exact eq_comm

theorem product_eq_nan_iff : a.datum.mul c.datum = .nan ↔
    (a.isNaN = true ∨ c.isNaN = true) ∨ InfinityTimesZero a c := by
  have ha := a.kind
  have hc := c.kind
  generalize a.datum = x at ha
  generalize c.datum = y at hc
  cases ha <;> cases hc <;> simp [Datum.mul, InfinityTimesZero, *]

theorem mul?_eq_none_iff : a.mul? c = none ↔
    (a.isNaN = true ∨ c.isNaN = true) ∨ InfinityTimesZero a c := by
  rw [mul?, ofDatum?_eq_none_iff, product_eq_nan_iff]

theorem div?_eq_none_iff : a.div? b = none ↔ (a.isNaN = true ∨ b.isNaN = true) ∨
    a.isZero = true ∧ b.isZero = true ∨ a.isInfinite = true ∧ b.isInfinite = true := by
  have ha := a.kind
  have hb := b.kind
  rw [div?, ofDatum?_eq_none_iff]
  generalize a.datum = x at ha
  generalize b.datum = y at hb
  cases ha <;> cases hb <;> simp [Datum.div, *]
  split <;> simp [*]

theorem product_eq_infinity_iff (h : ¬ InfinityTimesZero a c) {s : Bool} :
    a.datum.mul c.datum = .infinity s ↔ (a.isNaN = false ∧ c.isNaN = false) ∧
      (a.isInfinite = true ∨ c.isInfinite = true) ∧ s = (a.negative != c.negative) := by
  have ha := a.kind
  have hc := c.kind
  generalize a.datum = x at ha
  generalize c.datum = y at hc
  cases ha <;> cases hc <;> simp_all [Datum.mul, InfinityTimesZero]
  all_goals exact eq_comm

/-- A product with a further term: the term must not be the infinity that opposes the product. -/
theorem fused_eq_nan_iff {d : Datum} : (a.datum.mul c.datum).add d = .nan ↔
    ((a.isNaN = true ∨ c.isNaN = true) ∨ d = .nan) ∨ InfinityTimesZero a c ∨
      (a.isInfinite = true ∨ c.isInfinite = true) ∧
        d = .infinity (!(a.negative != c.negative)) := by
  rw [Datum.add_eq_nan_iff, product_eq_nan_iff]
  by_cases hundefined : InfinityTimesZero a c
  · simp [hundefined]
  · simp only [product_eq_infinity_iff hundefined, hundefined, and_assoc, exists_and_left,
      exists_eq_left]
    grind

theorem mulAdd?_eq_none_iff : a.mulAdd? c b = none ↔
    (a.isNaN = true ∨ b.isNaN = true ∨ c.isNaN = true) ∨ InfinityTimesZero a c ∨
      (a.isInfinite = true ∨ c.isInfinite = true) ∧ b.isInfinite = true ∧
        b.negative ≠ (a.negative != c.negative) := by
  rw [mulAdd?, ofDatum?_eq_none_iff, fused_eq_nan_iff, ← isNaN_iff, datum_eq_infinity_iff,
    Bool.eq_not, or_right_comm (a := a.isNaN = true), or_assoc (a := a.isNaN = true)]

theorem mulSub?_eq_none_iff : a.mulSub? c b = none ↔
    (a.isNaN = true ∨ b.isNaN = true ∨ c.isNaN = true) ∨ InfinityTimesZero a c ∨
      (a.isInfinite = true ∨ c.isInfinite = true) ∧ b.isInfinite = true ∧
        b.negative = (a.negative != c.negative) := by
  rw [mulSub?, ofDatum?_eq_none_iff, fused_eq_nan_iff, Datum.negate_eq_nan_iff, ← isNaN_iff,
    Datum.negate_eq_infinity_iff, Bool.not_not, datum_eq_infinity_iff,
    or_right_comm (a := a.isNaN = true), or_assoc (a := a.isNaN = true)]

/-! ## Reciprocals -/

theorem datum_one : one.datum = .finite false (2 ^ 52) (-52) := by decide

theorem one_div?_eq_none_iff : one.div? b = none ↔ b.isNaN = true := by
  have hnumber : one.isNaN = false ∧ one.isZero = false ∧ one.isInfinite = false := by decide
  rw [div?_eq_none_iff]
  simp [hnumber]

theorem sqrt?_eq_none_iff :
    b.sqrt? = none ↔ b.isNaN = true ∨ b.negative = true ∧ b.isZero = false := by
  have hb := b.kind
  rw [sqrt?, ofDatum?_eq_none_iff]
  generalize b.datum = y at hb
  cases hb with
  | nan hnan => simp [Datum.sqrt, hnan]
  | infinity hnan hinfinite hzero => cases b.negative <;> simp [Datum.sqrt, hnan, hzero]
  | @number m e hnan hinfinite hzero =>
      rw [Datum.sqrt]
      split
      · simp [*]
      · split <;> simp [*]

/-- The reciprocal of a root has a value if the root has one. -/
theorem reciprocalRoot_eq_none_iff : b.sqrt?.bind (div? one) = none ↔ b.sqrt? = none := by
  cases hroot : b.sqrt? with
  | none => simp
  | some x =>
      have hx := isNaN_of_ofDatum? hroot
      simp [one_div?_eq_none_iff, hx]

/-- The reciprocal of the root of zero is infinite and has the sign of the zero. -/
theorem reciprocalRoot_of_isZero (h : b.isZero = true) :
    b.sqrt?.bind (div? one) = some (infinity b.negative) := by
  obtain ⟨e, hdatum⟩ : ∃ e, b.datum = .finite b.negative 0 e := by
    have hb := b.kind
    generalize b.datum = y at hb ⊢
    cases hb with
    | nan hnan hinfinite hzero | infinity hnan hinfinite hzero => simp [h] at hzero
    | @number m e hnan hinfinite hzero =>
        have hm : m = 0 := by simpa [h] using hzero
        exact ⟨e, by rw [hm]⟩
  have hroot : b.sqrt? = some (zero b.negative) := by
    rw [sqrt?, hdatum, Datum.sqrt, if_pos rfl, ofDatum?, Format.round_zero]
    rfl
  have hzero : (zero b.negative).datum = .finite b.negative 0 (Format.double.decode 0).2 :=
    datum_of_lt_infinity b.negative (by decide)
  have hone : (2 : Nat) ^ 52 ≠ 0 := Nat.ne_of_gt (Nat.two_pow_pos 52)
  rw [hroot, Option.bind_some, div?, datum_one, hzero, Datum.div, if_pos rfl, if_neg hone, ofDatum?,
    Bool.false_bne]

/-! ## NaNs -/

variable (x : Double)

theorem getLsbD_quiet {i : Nat} (hi : i < 64) :
    x.quiet.getLsbD i = (decide (i = 51) || x.getLsbD i) := by
  show (x ||| BitVec.twoPow 64 51).getLsbD i = _
  rw [BitVec.getLsbD_or, BitVec.getLsbD_twoPow, Bool.or_comm]
  simp [hi, eq_comm]

theorem magnitude_le_quiet : x.magnitude ≤ x.quiet.magnitude := by
  rw [magnitude, magnitude, quiet, BitVec.toNat_or, Nat.or_mod_two_pow]
  exact Nat.left_le_or

theorem isNaN_quiet (h : x.isNaN = true) : x.quiet.isNaN = true :=
  decide_eq_true (Nat.lt_of_lt_of_le (of_decide_eq_true h) x.magnitude_le_quiet)

variable {x} in
theorem isNaN_of_isSignaling (h : x.isSignaling = true) : x.isNaN = true :=
  (Bool.and_eq_true_iff.1 h).1

variable {x} in
theorem isSignaling_of_number (h : x.isNaN = false) : x.isSignaling = false := by
  rw [isSignaling, h, Bool.false_and]

theorem isSignaling_quiet : x.quiet.isSignaling = false := by
  rw [isSignaling_eq, getLsbD_quiet x (by decide)]
  simp

theorem magnitude_negate : x.negate.magnitude = x.magnitude := by
  rw [magnitude, negate, BitVec.toNat_xor, Nat.xor_mod_two_pow]
  exact Nat.xor_zero _

theorem isNaN_negate : x.negate.isNaN = x.isNaN := by
  rw [isNaN, magnitude_negate]
  rfl

end Double

namespace Fpu

variable (s : Word) (inputs : List Double) (cause : Word)

/-- What has no value becomes a NaN. -/
theorem isNaN_invalid : (invalid s inputs cause).1.isNaN = true := by
  unfold invalid
  cases hfind : inputs.find? (·.isNaN) with
  | some x => exact x.isNaN_quiet (List.find?_some hfind)
  | none => rfl

theorem isSignaling_invalid : (invalid s inputs cause).1.isSignaling = false := by
  unfold invalid
  cases inputs.find? (·.isNaN) with
  | some x => exact x.isSignaling_quiet
  | none =>
      show Double.defaultNaN.isSignaling = false
      decide

/-- The first NaN among the operands is passed on, whatever else the operation would raise. -/
theorem invalid_of_find? {x : Double} (h : inputs.find? (·.isNaN) = some x) :
    invalid s inputs cause =
      (x.quiet, if inputs.any (·.isSignaling) then Fpscr.raise s Fpscr.vxsnan else s) := by
  rw [invalid, h]

/-- Without a NaN among the operands the cause is raised. -/
theorem invalid_of_numbers (h : ∀ x ∈ inputs, x.isNaN = false) :
    invalid s inputs cause = (Double.defaultNaN, Fpscr.raise s cause) := by
  have hsignaling : inputs.any (·.isSignaling) = false := by
    rw [List.any_eq_false]
    intro x hx
    simp [Double.isSignaling_of_number (h x hx)]
  have hfind : inputs.find? (·.isNaN) = none := by
    rw [List.find?_eq_none]
    intro x hx
    simp [h x hx]
  rw [invalid, hfind, hsignaling, if_neg Bool.false_ne_true]

/-- A NaN keeps its sign. -/
theorem negateResult_of_isNaN {x : Double} (h : x.isNaN = true) : negateResult x = x := if_pos h

/-- Of an operation that may have no value, only a value is negated. -/
theorem map_negateResult (value : Option Double) : (∀ x, value = some x → x.isNaN = false) →
    (match value with
      | some x => (x, s)
      | none => invalid s inputs cause : Double × Word).map negateResult id =
    match value.map Double.negate with
    | some x => (x, s)
    | none => invalid s inputs cause := by
  intro hvalue
  cases value with
  | some x =>
      have hnumber : ¬ x.isNaN = true := Bool.not_eq_true _ ▸ hvalue x rfl
      exact congrArg (·, s) (if_neg hnumber)
  | none => exact Prod.ext (negateResult_of_isNaN (isNaN_invalid s inputs cause)) rfl

end Fpu

namespace FloatOp

open Double (InfinityTimesZero)

/-- The operands of an operation, in the order in which a NaN among them is passed on. -/
def inputs (op : FloatOp) (a b c : Double) : List Double :=
  match op with
  | .add | .sub | .div => [a, b]
  | .mul => [a, c]
  | .madd | .msub | .nmadd | .nmsub => [a, b, c]
  | .reciprocal | .reciprocalSqrt => [b]

/-- The value of an operation, rounded, if there is one. -/
def value? (op : FloatOp) (a b c : Double) : Option Double :=
  match op with
  | .add => a.add? b
  | .sub => a.sub? b
  | .mul => a.mul? c
  | .div => a.div? b
  | .madd => a.mulAdd? c b
  | .msub => a.mulSub? c b
  | .nmadd => (a.mulAdd? c b).map Double.negate
  | .nmsub => (a.mulSub? c b).map Double.negate
  | .reciprocal => Double.one.div? b
  | .reciprocalSqrt => b.sqrt?.bind (Double.div? .one)

/-- Whether an operation divides by `b`. -/
def divides : FloatOp → Bool
  | .div | .reciprocal | .reciprocalSqrt => true
  | _ => false

/-- What an operation raises if it has no value and no NaN among its operands. -/
def cause (op : FloatOp) (a b c : Double) : Word :=
  match op with
  | .add | .sub => Fpscr.vxisi
  | .mul => Fpscr.vximz
  | .div => Fpu.divCause a b
  | .madd | .msub | .nmadd | .nmsub => Fpu.fusedCause a c
  | .reciprocal => 0
  | .reciprocalSqrt => Fpscr.vxsqrt

variable (op : FloatOp) (s : Word) {a b c : Double}

theorem isNaN_of_value? {x : Double} (h : op.value? a b c = some x) : x.isNaN = false := by
  have hnegate {value : Option Double} (hvalue : ∀ y, value = some y → y.isNaN = false)
      (h : value.map Double.negate = some x) : x.isNaN = false := by
    obtain ⟨y, hy, rfl⟩ := Option.map_eq_some_iff.1 h
    rw [Double.isNaN_negate, hvalue y hy]
  cases op with
  | add | sub | mul | div | madd | msub | reciprocal => exact Double.isNaN_of_ofDatum? h
  | nmadd | nmsub => exact hnegate (fun y => Double.isNaN_of_ofDatum?) h
  | reciprocalSqrt =>
      obtain ⟨y, -, hy⟩ := Option.bind_eq_some_iff.1 h
      exact Double.isNaN_of_ofDatum? hy

/-- **One equation for all operations.** -/
theorem eval_eq (a b c : Double) : op.eval s a b c =
    match op.value? a b c with
    | some x => (x, if op.divides && b.isZero then Fpscr.raise s Fpscr.zx else s)
    | none => Fpu.invalid s (op.inputs a b c) (op.cause a b c) := by
  cases op with
  | add => rw [eval, Fpu.add, value?]; cases a.add? b <;> rfl
  | sub => rw [eval, Fpu.sub, value?]; cases a.sub? b <;> rfl
  | mul => rw [eval, Fpu.mul, value?]; cases a.mul? c <;> rfl
  | div => rw [eval, Fpu.div, value?]; cases a.div? b <;> rfl
  | madd => rw [eval, Fpu.madd, value?]; cases a.mulAdd? c b <;> rfl
  | msub => rw [eval, Fpu.msub, value?]; cases a.mulSub? c b <;> rfl
  | nmadd =>
      exact Fpu.map_negateResult s _ _ (a.mulAdd? c b) fun x => Double.isNaN_of_ofDatum?
  | nmsub =>
      exact Fpu.map_negateResult s _ _ (a.mulSub? c b) fun x => Double.isNaN_of_ofDatum?
  | reciprocal => rw [eval, Fpu.reciprocal, value?]; cases Double.one.div? b <;> rfl
  | reciprocalSqrt =>
      rw [eval, Fpu.reciprocalSqrt, value?]
      cases hnan : b.isNaN with
      | true =>
          have hnone := Double.reciprocalRoot_eq_none_iff.2 (Double.sqrt?_eq_none_iff.2 (.inl hnan))
          have hfind : [b].find? (·.isNaN) = some b := List.find?_cons_of_pos hnan
          rw [if_pos rfl, hnone, Fpu.invalid_of_find? s _ _ hfind]
          exact (Fpu.invalid_of_find? s _ _ hfind).symm
      | false =>
          rw [if_neg Bool.false_ne_true]
          cases hzero : b.isZero with
          | true =>
              rw [Double.reciprocalRoot_of_isZero hzero]
              rfl
          | false =>
              cases b.sqrt?.bind (Double.div? .one) with
              | some x => rfl
              | none =>
                  have hnumbers : ∀ x ∈ [b], x.isNaN = false := List.forall_mem_singleton.2 hnan
                  exact (Fpu.invalid_of_numbers s _ _ hnumbers).symm

/-! ## When operations have no value -/

/-- Why an operation has no value for numbers and infinities, if it has none. -/
def undefined? (op : FloatOp) (a b c : Double) : Option Word :=
  match op with
  | .add =>
    if a.isInfinite ∧ b.isInfinite ∧ a.negative ≠ b.negative then some Fpscr.vxisi else none
  | .sub =>
    if a.isInfinite ∧ b.isInfinite ∧ a.negative = b.negative then some Fpscr.vxisi else none
  | .mul => if InfinityTimesZero a c then some Fpscr.vximz else none
  | .div =>
    if a.isZero ∧ b.isZero then some Fpscr.vxzdz
    else if a.isInfinite ∧ b.isInfinite then some Fpscr.vxidi
    else none
  | .madd | .nmadd =>
    if InfinityTimesZero a c then some Fpscr.vximz
    else if (a.isInfinite ∨ c.isInfinite) ∧ b.isInfinite ∧ b.negative ≠ (a.negative != c.negative)
      then some Fpscr.vxisi
    else none
  | .msub | .nmsub =>
    if InfinityTimesZero a c then some Fpscr.vximz
    else if (a.isInfinite ∨ c.isInfinite) ∧ b.isInfinite ∧ b.negative = (a.negative != c.negative)
      then some Fpscr.vxisi
    else none
  | .reciprocal => none
  | .reciprocalSqrt => if b.negative ∧ b.isZero = false then some Fpscr.vxsqrt else none

theorem value?_eq_none_iff : op.value? a b c = none ↔
    (∃ x ∈ op.inputs a b c, x.isNaN = true) ∨ (op.undefined? a b c).isSome = true := by
  have hsome (p : Prop) [Decidable p] (cause : Word) (rest : Option Word) :
      (if p then some cause else rest).isSome = true ↔ p ∨ rest.isSome = true := by
    split <;> simp [*]
  cases op with
  | add => simp [value?, inputs, undefined?, Double.add?_eq_none_iff]
  | sub => simp [value?, inputs, undefined?, Double.sub?_eq_none_iff]
  | mul => simp [value?, inputs, undefined?, Double.mul?_eq_none_iff]
  | div => simp [value?, inputs, undefined?, Double.div?_eq_none_iff, hsome]
  | madd | nmadd => simp [value?, inputs, undefined?, Double.mulAdd?_eq_none_iff, hsome]
  | msub | nmsub => simp [value?, inputs, undefined?, Double.mulSub?_eq_none_iff, hsome]
  | reciprocal =>
      rw [value?, Double.one_div?_eq_none_iff]
      simp [inputs, undefined?]
  | reciprocalSqrt =>
      rw [value?, Double.reciprocalRoot_eq_none_iff, Double.sqrt?_eq_none_iff]
      simp [inputs, undefined?]

/-- What an operation on numbers and infinities raises is why it has no value. -/
theorem cause_of_undefined? (hnumbers : ∀ x ∈ op.inputs a b c, x.isNaN = false) {why : Word}
    (h : op.undefined? a b c = some why) : op.cause a b c = why := by
  have hfused (ha : a.isNaN = false) (hc : c.isNaN = false) : Fpu.fusedCause a c =
      if InfinityTimesZero a c then Fpscr.vximz else Fpscr.vxisi := by
    have hnone : (a.mul? c).isNone = true ↔ InfinityTimesZero a c := by
      rw [Option.isNone_iff_eq_none, Double.mul?_eq_none_iff]
      simp [ha, hc]
    rw [Fpu.fusedCause]
    simp only [hnone]
  cases op with
  | add | sub | mul | reciprocalSqrt =>
      simp only [undefined?, Option.ite_none_right_eq_some] at h
      exact Option.some.inj h.2
  | div =>
      rw [cause, Fpu.divCause]
      simp only [undefined?] at h
      split at h
      · next hzeros =>
        rw [if_pos hzeros.2]
        exact Option.some.inj h
      · obtain ⟨hinfinite, h⟩ := Option.ite_none_right_eq_some.1 h
        rw [Double.isZero_of_isInfinite hinfinite.2, hinfinite.1, hinfinite.2]
        exact Option.some.inj h
  | madd | msub | nmadd | nmsub =>
      have ha : a.isNaN = false := hnumbers a (by simp [inputs])
      have hc : c.isNaN = false := hnumbers c (by simp [inputs])
      rw [cause, hfused ha hc]
      simp only [undefined?] at h
      split at h
      · next hzero =>
        rw [if_pos hzero]
        exact Option.some.inj h
      · next hzero =>
        rw [if_neg hzero]
        exact Option.some.inj (Option.ite_none_right_eq_some.1 h).2
  | reciprocal => nomatch h

end FloatOp

end Broadway
