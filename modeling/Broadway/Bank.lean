import Broadway.Power

/-!
# Register banks

A bank is a row of `2 ^ k` registers whose numbers are values of `k` bits, so that a number always
names a register.

* A read sees the last write to the same register (`Bank.read_write_self`) and no write to another
  (`Bank.read_write_of_ne`); reads determine the bank (`Bank.ext_read`).
-/

namespace Broadway

structure Bank (k : Nat) (α : Type) where
  cells : Vector α (2 ^ k)
  deriving DecidableEq

namespace Bank

variable {k : Nat} {α : Type}

/-- A bank that holds one value in every register. -/
def fill (k : Nat) (x : α) : Bank k α := ⟨Vector.replicate (2 ^ k) x⟩

def read (b : Bank k α) (i : BitVec k) : α := getElem b.cells i.toNat i.isLt

def write (b : Bank k α) (i : BitVec k) (x : α) : Bank k α := ⟨b.cells.set i.toNat x i.isLt⟩

/-- The registers in the order of their numbers. -/
def toList (b : Bank k α) : List α := b.cells.toList

@[simp]
theorem read_fill (x : α) (i : BitVec k) : (fill k x).read i = x := by
  simp [fill, read]

@[simp]
theorem read_write_self (b : Bank k α) (i : BitVec k) (x : α) : (b.write i x).read i = x := by
  simp [read, write]

theorem read_write_of_ne (b : Bank k α) {i j : BitVec k} (x : α) (h : i ≠ j) :
    (b.write i x).read j = b.read j := by
  have hij : i.toNat ≠ j.toNat := fun e => h (BitVec.eq_of_toNat_eq e)
  simp [read, write, hij]

theorem read_write (b : Bank k α) (i j : BitVec k) (x : α) :
    (b.write i x).read j = if i = j then x else b.read j := by
  by_cases h : i = j
  · subst h; simp
  · simp [h, read_write_of_ne]

theorem write_write (b : Bank k α) (i : BitVec k) (x y : α) :
    (b.write i x).write i y = b.write i y := by
  simp [write]

theorem ext_read {a b : Bank k α} (h : ∀ i, a.read i = b.read i) : a = b := by
  cases a with | mk va => cases b with | mk vb =>
  congr
  apply Vector.ext
  intro i hi
  exact h (BitVec.ofFin ⟨i, hi⟩)

end Bank

end Broadway
