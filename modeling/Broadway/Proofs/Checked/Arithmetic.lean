import Broadway.Word

/-!
# Checked arithmetic

Machine arithmetic as a debugging build carries it out: a result that does not fit, a shift by too
much, a quotient without a value or a number that names no register stops the computation with a
`Trap`. Each operation is the wrapping one under a condition (`Checked.require`), so what there is
to know about it is that condition.

* A row of computations none of which stops is the row of their values (`Checked.mapM_ok`).
-/

namespace Broadway

/-- Why a computation was stopped. -/
inductive Trap
  /-- A sum, difference, product or negation has no value of its width. -/
  | overflow
  /-- A shift by the width of the value or more. -/
  | shift
  /-- A division by zero, or the one quotient that has no value. -/
  | division
  /-- A number that names no register of its bank. -/
  | index
  deriving DecidableEq

/-- A computation that may be stopped. -/
abbrev Checked := Except Trap

namespace Checked

variable {α β : Type} {n : Nat}

/-- A value under a condition. -/
def require (p : Prop) [Decidable p] (t : Trap) (x : α) : Checked α :=
  if p then .ok x else .error t

theorem require_of {p : Prop} [Decidable p] (h : p) (t : Trap) (x : α) :
    require p t x = .ok x :=
  if_pos h

@[simp]
theorem ok_bind (x : α) (f : α → Checked β) : (Except.ok x >>= f) = f x := rfl

@[simp]
theorem pure_eq (x : α) : (pure x : Checked α) = .ok x := rfl

/-! ## Unsigned arithmetic -/

def add (a b : BitVec n) : Checked (BitVec n) :=
  require (a.toNat + b.toNat < 2 ^ n) .overflow (a + b)

def sub (a b : BitVec n) : Checked (BitVec n) :=
  require (b.toNat ≤ a.toNat) .overflow (a - b)

def mul (a b : BitVec n) : Checked (BitVec n) :=
  require (a.toNat * b.toNat < 2 ^ n) .overflow (a * b)

theorem toNat_ofNat_of_lt {a : Nat} (h : a < 2 ^ n) : (BitVec.ofNat n a).toNat = a := by
  rw [BitVec.toNat_ofNat, Nat.mod_eq_of_lt h]

theorem add_ofNat {a b : Nat} (h : a + b < 2 ^ n) :
    add (BitVec.ofNat n a) (BitVec.ofNat n b) = .ok (BitVec.ofNat n (a + b)) := by
  have ha : (BitVec.ofNat n a).toNat = a := toNat_ofNat_of_lt (by omega)
  have hb : (BitVec.ofNat n b).toNat = b := toNat_ofNat_of_lt (by omega)
  rw [add, require_of (by omega), BitVec.ofNat_add]

theorem sub_ofNat {a b : Nat} (ha : a < 2 ^ n) (h : b ≤ a) :
    sub (BitVec.ofNat n a) (BitVec.ofNat n b) = .ok (BitVec.ofNat n (a - b)) := by
  have ha' : (BitVec.ofNat n a).toNat = a := toNat_ofNat_of_lt ha
  have hb' : (BitVec.ofNat n b).toNat = b := toNat_ofNat_of_lt (by omega)
  have hle : (BitVec.ofNat n b).toNat ≤ (BitVec.ofNat n a).toNat := by omega
  rw [sub, require_of hle]
  congr 1
  apply BitVec.eq_of_toNat_eq
  rw [BitVec.toNat_sub_of_le hle, ha', hb', toNat_ofNat_of_lt (by omega)]

theorem mul_ofNat {a b : Nat} (ha : a < 2 ^ n) (hb : b < 2 ^ n) (h : a * b < 2 ^ n) :
    mul (BitVec.ofNat n a) (BitVec.ofNat n b) = .ok (BitVec.ofNat n (a * b)) := by
  have ha' : (BitVec.ofNat n a).toNat = a := toNat_ofNat_of_lt ha
  have hb' : (BitVec.ofNat n b).toNat = b := toNat_ofNat_of_lt hb
  rw [mul, require_of (by rwa [ha', hb']), BitVec.ofNat_mul]

/-! ## Signed arithmetic -/

/-- Whether an integer is a signed number of `n` bits. -/
def FitsSigned (n : Nat) (x : Int) : Prop := -2 ^ (n - 1) ≤ x ∧ x < 2 ^ (n - 1)

instance (n : Nat) (x : Int) : Decidable (FitsSigned n x) :=
  inferInstanceAs (Decidable (_ ∧ _))

def mulSigned (a b : BitVec n) : Checked (BitVec n) :=
  require (FitsSigned n (a.toInt * b.toInt)) .overflow (a * b)

def negate (a : BitVec n) : Checked (BitVec n) :=
  require (FitsSigned n (-a.toInt)) .overflow (-a)

def divSigned (a b : BitVec n) : Checked (BitVec n) :=
  require (b ≠ 0 ∧ ¬(a = BitVec.intMin n ∧ b = -1)) .division (a.sdiv b)

/-! ## Shifts -/

def shl (a : BitVec n) (k : Nat) : Checked (BitVec n) := require (k < n) .shift (a <<< k)

def shr (a : BitVec n) (k : Nat) : Checked (BitVec n) := require (k < n) .shift (a >>> k)

/-- A shift to the right that repeats the sign. -/
def sshr (a : BitVec n) (k : Nat) : Checked (BitVec n) :=
  require (k < n) .shift (a.sshiftRight k)

theorem shl_eq {k : Nat} (h : k < n) (a : BitVec n) : shl a k = .ok (a <<< k) := require_of h _ _

theorem shr_eq {k : Nat} (h : k < n) (a : BitVec n) : shr a k = .ok (a >>> k) := require_of h _ _

theorem sshr_eq {k : Nat} (h : k < n) (a : BitVec n) : sshr a k = .ok (a.sshiftRight k) :=
  require_of h _ _

example : shl 1#32 32 = .error .shift := rfl

/-- The bit that lies `lo` places up. -/
def flag (w : Word) (lo : Nat) : Checked Bool := do
  let x ← shr w lo
  return x &&& 1 != 0

theorem flag_eq {lo : Nat} (hlo : lo < 32) (w : Word) : flag w lo = .ok (w.getLsbD lo) := by
  have hbit : w >>> lo &&& 1#32 = (BitVec.ofBool (w.getLsbD lo)).setWidth 32 := by
    apply BitVec.eq_of_getLsbD_eq
    intro i hi
    by_cases hzero : i = 0
    · subst hzero; simp
    · simp [hzero, BitVec.getLsbD_one]
  rw [flag, shr_eq hlo, ok_bind, pure_eq]
  congr 1
  show (w >>> lo &&& 1#32 != 0) = w.getLsbD lo
  rw [hbit]
  cases w.getLsbD lo <;> rfl

/-! ## Register numbers -/

/-- The register of a bank of `2 ^ k` that a number names. -/
def index (k i : Nat) : Checked (BitVec k) := require (i < 2 ^ k) .index (BitVec.ofNat k i)

theorem index_eq {k i : Nat} (h : i < 2 ^ k) : index k i = .ok (BitVec.ofNat k i) :=
  require_of h _ _

example : index 5 32 = .error .index := rfl

@[simp]
theorem index_toNat {k : Nat} (i : BitVec k) : index k i.toNat = .ok i := by
  rw [index_eq i.isLt, BitVec.ofNat_toNat, BitVec.setWidth_eq]

/-! ## Rows -/

theorem mapM_ok {f : α → Checked β} {g : α → β} {l : List α} (h : ∀ x ∈ l, f x = .ok (g x)) :
    l.mapM f = .ok (l.map g) := by
  induction l with
  | nil => rfl
  | cons x rest ih =>
      have hx : f x = .ok (g x) := h x List.mem_cons_self
      have hrest : rest.mapM f = .ok (rest.map g) :=
        ih fun y hy => h y (List.mem_cons_of_mem _ hy)
      rw [List.mapM_cons, hx, ok_bind, hrest, ok_bind]
      rfl

theorem foldlM_ok {f : β → α → Checked β} {g : β → α → β} {l : List α}
    (h : ∀ y, ∀ x ∈ l, f y x = .ok (g y x)) (y : β) : l.foldlM f y = .ok (l.foldl g y) := by
  induction l generalizing y with
  | nil => rfl
  | cons x rest ih =>
      have hx : f y x = .ok (g y x) := h y x List.mem_cons_self
      rw [List.foldlM_cons, hx, ok_bind, List.foldl_cons]
      exact ih (fun y z hz => h y z (List.mem_cons_of_mem _ hz)) (g y x)

end Checked

end Broadway
