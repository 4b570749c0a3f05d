import Broadway.Word

/-!
# The condition register

Eight fields of four bits, field zero being the most significant; a single bit is numbered from the
most significant one as well. The bits of a field say that one operand was less than, greater than
or equal to another, and whether an overflow is on record.

* A field that is written reads back (`field_setField_self`) and the others stay as they are
  (`field_setField_of_ne`); a bit that is written reads back as well (`bit_setBit_self`).
-/

namespace Broadway.Condition

def lt : BitVec 4 := 0b1000#4

def gt : BitVec 4 := 0b0100#4

def eq : BitVec 4 := 0b0010#4

/-- An overflow is on record, or the operands have no order. -/
def so : BitVec 4 := 0b0001#4

/-- How far a field lies above the least significant bit. -/
def shift (n : BitVec 3) : Nat := 28 - 4 * n.toNat

def field (cr : Word) (n : BitVec 3) : BitVec 4 := cr.extractLsb' (shift n) 4

def setField (cr : Word) (n : BitVec 3) (v : BitVec 4) : Word :=
  (cr &&& ~~~(0xF#32 <<< shift n)) ||| (v.setWidth 32 <<< shift n)

def bit (cr : Word) (b : BitVec 5) : Bool := cr.getLsbD (31 - b.toNat)

def setBit (cr : Word) (b : BitVec 5) (v : Bool) : Word :=
  let mask := 1#32 <<< (31 - b.toNat)
  if v then cr ||| mask else cr &&& ~~~mask

/-- A word with ones in the fields whose mask bit is set, the most significant mask bit standing
for field zero. -/
def spread (mask : BitVec 8) : Word :=
  let nibble (i : Nat) : BitVec 4 := (BitVec.ofBool (mask.getLsbD i)).signExtend 4
  nibble 7 ++ nibble 6 ++ nibble 5 ++ nibble 4 ++ nibble 3 ++ nibble 2 ++ nibble 1 ++ nibble 0

/-- Replaces the fields whose mask bit is set. -/
def blend (mask : BitVec 8) (old new : Word) : Word :=
  (old &&& ~~~spread mask) ||| (new &&& spread mask)

/-- The field that records an order; operands without one set no bit of it. -/
def ofOrder (o : Option Ordering) : BitVec 4 :=
  match o with
  | some .lt => lt
  | some .gt => gt
  | some .eq => eq
  | none => 0

theorem field_setField_self (cr : Word) (n : BitVec 3) (v : BitVec 4) :
    field (setField cr n v) n = v := by
  apply BitVec.eq_of_getLsbD_eq
  intro i hi
  have hn : n.toNat < 8 := n.isLt
  have hge : ¬ shift n + i < shift n := by omega
  have h32 : shift n + i < 32 := by unfold shift; omega
  have hs : shift n < 32 := by omega
  obtain rfl | rfl | rfl | rfl : i = 0 ∨ i = 1 ∨ i = 2 ∨ i = 3 := by omega
  all_goals simp [field, setField, h32, hs, hge]

theorem field_setField_of_ne (cr : Word) {n k : BitVec 3} (v : BitVec 4) (h : n ≠ k) :
    field (setField cr n v) k = field cr k := by
  have hne : n.toNat ≠ k.toNat := fun heq => h (BitVec.eq_of_toNat_eq heq)
  have hn : n.toNat < 8 := n.isLt
  have hk : k.toNat < 8 := k.isLt
  apply BitVec.eq_of_getLsbD_eq
  intro i hi
  have hbit : shift k + i < 32 := by unfold shift; omega
  have hapart : shift k + i < shift n ∨ 4 ≤ shift k + i - shift n := by
    unfold shift
    omega
  have hoff (x : BitVec 4) : (x.setWidth 32 <<< shift n).getLsbD (shift k + i) = false := by
    rw [BitVec.getLsbD_shiftLeft, BitVec.getLsbD_setWidth]
    rcases hapart with hbelow | habove
    · simp [hbelow]
    · simp [BitVec.getLsbD_of_ge x _ habove]
  have hones : 0xF#32 <<< shift n = (0xF#4).setWidth 32 <<< shift n := rfl
  rw [field, field, setField, hones, BitVec.getLsbD_extractLsb', BitVec.getLsbD_extractLsb',
    BitVec.getLsbD_or, BitVec.getLsbD_and, BitVec.getLsbD_not, hoff, hoff]
  simp [hbit]

theorem bit_setBit_self (cr : Word) (b : BitVec 5) (v : Bool) : bit (setBit cr b v) b = v := by
  have hb : b.toNat < 32 := b.isLt
  have h32 : 31 - b.toNat < 32 := by omega
  cases v <;> simp [bit, setBit, h32]

end Broadway.Condition
