import Broadway.Call

/-!
# How a call enters its function

The arguments of a kind go into successive registers of a bank. Both kinds are placed in the same
way (`Bank.place`), whole registers for integers and one lane for numbers, so one equation says
what the bank holds afterwards (`Bank.read_place`). From it: a call that is made enters its
function with exactly its arguments placed and the return to the host set up
(`FunctionCall.enters`).
-/

namespace Broadway

namespace Bank

variable {n : Nat} {α β : Type}

/-- Puts values into successive registers of a bank, each by changing what the register holds. -/
def place (put : α → β → α) (b : Bank n α) (first : BitVec n) : List β → Bank n α
  | [] => b
  | v :: rest => place put (b.write first (put (b.read first) v)) (first + 1) rest

/-- As long as the registers do not run out, the values are found in order from the first register
on, and no other register has changed. -/
theorem read_place (put : α → β → α) (b : Bank n α) (first : BitVec n) (vs : List β)
    (hfit : first.toNat + vs.length < 2 ^ n) (t : BitVec n) :
    (b.place put first vs).read t =
      if first.toNat ≤ t.toNat then
        (vs[t.toNat - first.toNat]?).elim (b.read t) (put (b.read t))
      else b.read t := by
  induction vs generalizing b first with
  | nil => simp [place]
  | cons v rest ih =>
      have hlength : first.toNat + (rest.length + 1) < 2 ^ n := hfit
      have hnext : (first + 1).toNat = first.toNat + 1 := by
        have hsize : 1 < 2 ^ n := by omega
        have hone : (1 : BitVec n).toNat = 1 := Nat.mod_eq_of_lt hsize
        rw [BitVec.toNat_add, hone]
        exact Nat.mod_eq_of_lt (by omega)
      rw [place, ih _ _ (by omega), hnext]
      rcases Nat.lt_trichotomy t.toNat first.toNat with hlt | heq | hgt
      · -- before the registers of the row
        have hne : first ≠ t := fun h => Nat.ne_of_gt hlt (congrArg BitVec.toNat h)
        rw [if_neg (by omega), if_neg (by omega), read_write_of_ne _ _ hne]
      · have hreg : first = t := BitVec.eq_of_toNat_eq heq.symm
        subst hreg
        rw [if_neg (by omega), if_pos (Nat.le_refl _), Nat.sub_self, read_write_self]
        rfl
      · -- a register of the rest of the row, or after it
        have hne : first ≠ t := fun h => Nat.ne_of_lt hgt (congrArg BitVec.toNat h)
        have hindex : t.toNat - first.toNat = t.toNat - (first.toNat + 1) + 1 := by omega
        rw [if_pos (by omega), if_pos (by omega), read_write_of_ne _ _ hne, hindex,
          List.getElem?_cons_succ]

/-- A value is found in its register. -/
theorem read_place_value (put : α → β → α) (b : Bank n α) {first t : BitVec n} {vs : List β}
    (hfit : first.toNat + vs.length < 2 ^ n) {k : Nat} {v : β} (hv : vs[k]? = some v)
    (ht : t.toNat = first.toNat + k) :
    (b.place put first vs).read t = put (b.read t) v := by
  rw [read_place put b first vs hfit, if_pos (by omega), ht, Nat.add_sub_cancel_left, hv,
    Option.elim_some]

/-- The registers that take no value are kept. -/
theorem read_place_other (put : α → β → α) (b : Bank n α) {first t : BitVec n} {vs : List β}
    (hfit : first.toNat + vs.length < 2 ^ n) (ht : ∀ k < vs.length, t.toNat ≠ first.toNat + k) :
    (b.place put first vs).read t = b.read t := by
  rw [read_place put b first vs hfit]
  split
  · next hle =>
    have hlast : vs.length ≤ t.toNat - first.toNat :=
      Nat.le_of_not_lt fun hlt => ht (t.toNat - first.toNat) hlt (by omega)
    rw [List.getElem?_eq_none hlast, Option.elim_none]
  · rfl

end Bank

namespace FunctionCall

/-! ## Refusals -/

theorem refusal_integers {c : FunctionCall} (h : 8 < c.integers.length) :
    c.refusal = some (.tooManyArguments .integer c.integers.length) :=
  if_pos h

theorem refusal_floats {c : FunctionCall} (hintegers : c.integers.length ≤ 8)
    (h : 8 < c.floats.length) :
    c.refusal = some (.tooManyArguments .floatingPoint c.floats.length) :=
  (if_neg (Nat.not_lt.2 hintegers)).trans (if_pos h)

theorem refusal_none {c : FunctionCall} (hintegers : c.integers.length ≤ 8)
    (hfloats : c.floats.length ≤ 8) : c.refusal = none :=
  (if_neg (Nat.not_lt.2 hintegers)).trans (if_neg (Nat.not_lt.2 hfloats))

/-! ## Arguments -/

theorem placeIntegers_eq (r : Registers) (first : Reg) (vs : List Word) :
    placeIntegers r first vs = { r with gpr := r.gpr.place (fun _ v => v) first vs } := by
  induction vs generalizing r first with
  | nil => rfl
  | cons v rest ih =>
      rw [placeIntegers, ih]
      rfl

theorem placeFloats_eq (r : Registers) (first : Reg) (vs : List Double) :
    placeFloats r first vs =
      { r with fpr := r.fpr.place (fun lanes v => { lanes with ps0 := v }) first vs } := by
  induction vs generalizing r first with
  | nil => rfl
  | cons v rest ih =>
      rw [placeFloats, ih]
      rfl

/-- The registers `after` are those on entry to the function of a call that was made with the
registers `before`. -/
structure Enters (c : FunctionCall) (before after : Registers) : Prop where
  /-- Apart from the arguments, the call sets the two addresses and gives up the reservation. -/
  others : after =
    { before with
      gpr := after.gpr
      fpr := after.fpr
      lr := 0xDEADBEEF#32
      pc := c.entry
      reservation := none }
  /-- The integers are in the registers from `r3` on. -/
  integers : ∀ k v, c.integers[k]? = some v → after.gpr.read (BitVec.ofNat 5 (3 + k)) = v
  gpr : ∀ t : Reg, (∀ k < c.integers.length, t.toNat ≠ 3 + k) →
    after.gpr.read t = before.gpr.read t
  /-- The numbers are in the first lanes from `f1` on; the second lanes are kept. -/
  floats : ∀ k v, c.floats[k]? = some v →
    after.fpr.read (BitVec.ofNat 5 (1 + k)) =
      { before.fpr.read (BitVec.ofNat 5 (1 + k)) with ps0 := v }
  fpr : ∀ t : Reg, (∀ k < c.floats.length, t.toNat ≠ 1 + k) →
    after.fpr.read t = before.fpr.read t

/-- A call whose arguments fit enters its function as it should. -/
theorem enters {c : FunctionCall} (hintegers : c.integers.length ≤ 8)
    (hfloats : c.floats.length ≤ 8) (r : Registers) :
    c.Enters r (c.enter r) := by
  have hgprFit : (3 : Reg).toNat + c.integers.length < 2 ^ 5 := by
    show 3 + c.integers.length < 32
    omega
  have hfprFit : (1 : Reg).toNat + c.floats.length < 2 ^ 5 := by
    show 1 + c.floats.length < 32
    omega
  have henter : c.enter r =
      { r with
        gpr := r.gpr.place (fun _ v => v) 3 c.integers
        fpr := r.fpr.place (fun lanes v => { lanes with ps0 := v }) 1 c.floats
        lr := returnSentinel
        pc := c.entry
        reservation := none } := by
    rw [enter, placeIntegers_eq, placeFloats_eq]
  rw [henter]
  refine ⟨rfl, ?_, ?_, ?_, ?_⟩
  · intro k v hv
    have hk : k < c.integers.length := (List.getElem?_eq_some_iff.1 hv).1
    refine Bank.read_place_value _ _ hgprFit hv ?_
    rw [BitVec.toNat_ofNat]
    exact Nat.mod_eq_of_lt (by omega)
  · intro t ht
    exact Bank.read_place_other _ _ hgprFit ht
  · intro k v hv
    have hk : k < c.floats.length := (List.getElem?_eq_some_iff.1 hv).1
    refine Bank.read_place_value _ _ hfprFit hv ?_
    rw [BitVec.toNat_ofNat]
    exact Nat.mod_eq_of_lt (by omega)
  · intro t ht
    exact Bank.read_place_other _ _ hfprFit ht

end FunctionCall

end Broadway
