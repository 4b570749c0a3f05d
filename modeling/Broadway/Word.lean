import Broadway.Power

/-!
# Machine words

The processor is big-endian in every respect: bytes are stored most significant first, and the
architecture numbers the bits of a word from the most significant one. This file fixes the word
types and the conversions between a word and the bytes that hold it in memory.

* `Bytes.ofWord` and `Bytes.toWord` are inverse (`Bytes.toWord_ofWord`).
-/

namespace Broadway

abbrev Byte := BitVec 8

abbrev Half := BitVec 16

/-- A register, an address or an instruction. -/
abbrev Word := BitVec 32

/-- A double precision number, as its sixty-four bits. -/
abbrev Double := BitVec 64

/-- The number of a general purpose or floating point register. -/
abbrev Reg := BitVec 5

/-- A digit of a hexadecimal number, in lower case. -/
def hexDigit (n : Nat) : Char :=
  Nat.digitChar n

/-- The last `digits` hexadecimal digits of a number, most significant first. -/
def hexDigits : (digits : Nat) → Nat → String
  | 0, _ => ""
  | k + 1, n => hexDigits k (n / 16) ++ (hexDigit (n % 16)).toString

/-- The text of a word: eight hexadecimal digits after a `0x`. -/
def Word.text (w : Word) : String :=
  "0x" ++ hexDigits 8 w.toNat

namespace Bytes

/-- The `k` bytes of a value of `k` bytes, most significant first. -/
def ofWord : (k : Nat) → BitVec (8 * k) → List Byte
  | 0, _ => []
  | k + 1, w => w.extractLsb' (8 * k) 8 :: ofWord k (w.setWidth (8 * k))

/-- The number that bytes denote, most significant first. -/
def toNat (bytes : List Byte) : Nat :=
  bytes.foldl (fun n b => 256 * n + b.toNat) 0

/-- The value of `k` bytes that a list of bytes denotes, most significant first. -/
def toWord (k : Nat) (bytes : List Byte) : BitVec (8 * k) :=
  BitVec.ofNat (8 * k) (toNat bytes)

@[simp]
theorem length_ofWord (k : Nat) (w : BitVec (8 * k)) : (ofWord k w).length = k := by
  induction k with
  | zero => rfl
  | succ k ih => simp [ofWord, ih]

theorem foldl_ofWord (k : Nat) (w : BitVec (8 * k)) (n : Nat) :
    (ofWord k w).foldl (fun n b => 256 * n + b.toNat) n = 2 ^ (8 * k) * n + w.toNat := by
  induction k generalizing n with
  | zero =>
    have := w.isLt
    simp [ofWord] at *
    omega
  | succ k ih =>
    have hpow : 2 ^ (8 * (k + 1)) = 2 ^ (8 * k) * 256 := by rw [Nat.mul_add, Nat.pow_add]
    have hd : w.toNat / 2 ^ (8 * k) < 256 := Nat.div_lt_of_lt_mul (hpow ▸ w.isLt)
    rw [ofWord, List.foldl_cons, ih, hpow]
    simp only [BitVec.extractLsb'_toNat, BitVec.toNat_setWidth, Nat.shiftRight_eq_div_pow]
    rw [Nat.mod_eq_of_lt (by simpa using hd), Nat.mul_add, Nat.add_assoc, Nat.div_add_mod,
      Nat.mul_assoc]

/-- Bytes written from a value read back as that value. -/
@[simp]
theorem toWord_ofWord (k : Nat) (w : BitVec (8 * k)) : toWord k (ofWord k w) = w := by
  simp [toWord, toNat, foldl_ofWord]

end Bytes

end Broadway
