import Broadway.Proofs.Exec.Results
import Broadway.Proofs.Instr.Transfers

/-!
# Shifts are products and quotients with powers of two

An algebraic shift rounds the quotient of a signed number by a power of two down, and its carry tells
whether a negative number has lost something by that. So the carry is what there is to add to the
quotient to have it rounded toward zero (`fdiv_add_lost`), and `addze` adds it: the two instructions
together divide as signed division does. The other shifts multiply and divide unsigned numbers and do
not touch the carry. All of this holds for every amount, also from thirty-two on, where no bit of the
word is left (`shifts_exact`).
-/

namespace Broadway

open Opcode

/-! ## Quotients by powers of two -/

/-- Rounding down loses something of the negative numbers that are no multiples. With it back the
quotient is rounded toward zero. -/
theorem fdiv_add_lost (v : Int) {d : Int} (hd : 0 < d) :
    v.fdiv d + (decide (v < 0 ∧ ¬ d ∣ v)).toNat = v.tdiv d := by
  rw [Int.fdiv_eq_ediv_of_nonneg v (Int.le_of_lt hd), Int.tdiv_eq_ediv, Int.sign_eq_one_of_pos hd]
  by_cases hlost : v < 0 ∧ ¬ d ∣ v
  · have hkept : ¬ (0 ≤ v ∨ d ∣ v) := not_or.2 ⟨Int.not_le.2 hlost.1, hlost.2⟩
    rw [decide_eq_true hlost, if_neg hkept]
    rfl
  · have hkept : 0 ≤ v ∨ d ∣ v := by
      rcases Int.lt_or_le v 0 with hneg | hnonneg
      · right
        exact Classical.byContradiction fun hdvd => hlost ⟨hneg, hdvd⟩
      · exact .inl hnonneg
    rw [decide_eq_false hlost, if_pos hkept]
    rfl

/-- A quotient that is rounded toward zero lies between zero and the dividend, so it is a word if
that is one. -/
theorem fitsWord_tdiv {v d : Int} (hv : FitsWord v) (hd : 0 < d) : FitsWord (v.tdiv d) := by
  obtain ⟨hlow, hhigh⟩ := hv
  have hsize := Int.natAbs_tdiv_le_natAbs v d
  rcases Int.le_total 0 v with hnonneg | hnonpos
  · have hquotient : 0 ≤ v.tdiv d := Int.tdiv_nonneg hnonneg (Int.le_of_lt hd)
    constructor <;> omega
  · have hquotient : 0 ≤ (-v).tdiv d := Int.tdiv_nonneg (by omega) (Int.le_of_lt hd)
    rw [Int.neg_tdiv] at hquotient
    constructor <;> omega

section Word

variable (v : Word) (n : Nat)

/-- Whether a negative number is a multiple of a power of two is told by its low bits. From the
width of the word on there are only these, and no multiple. -/
theorem dvd_toInt_iff (hneg : v.toInt < 0) : (2 ^ n : Int) ∣ v.toInt ↔ v.toNat % 2 ^ n = 0 := by
  have hlow : -2 ^ 31 ≤ v.toInt := v.le_toInt
  have hcast : ((2 ^ n : Nat) : Int) = 2 ^ n := Int.natCast_pow 2 n
  have hsum : (v.toNat : Int) = (2 ^ 32 : Nat) + v.toInt := by
    have hv := v.isLt
    rw [BitVec.toInt_eq_toNat_cond] at hneg ⊢
    split at hneg <;> omega
  rw [← Nat.dvd_iff_mod_eq_zero, ← Int.natCast_dvd_natCast, ← hcast]
  rcases Nat.le_total n 32 with hn | hn
  · have hmodulus : ((2 ^ n : Nat) : Int) ∣ (2 ^ 32 : Nat) :=
      Int.natCast_dvd_natCast.2 (Nat.pow_dvd_pow 2 hn)
    rw [hsum, Int.dvd_add_right hmodulus]
  · have hlarge : 2 ^ 32 ≤ 2 ^ n := Nat.pow_le_pow_right (by decide) hn
    constructor
    · intro hdvd
      have hzero := Int.eq_zero_of_dvd_of_natAbs_lt_natAbs hdvd (by omega)
      omega
    · intro hdvd
      have hle := Nat.le_of_dvd (by omega) (Int.natCast_dvd_natCast.1 hdvd)
      omega

theorem toInt_sshiftRight : (v.sshiftRight n).toInt = v.toInt.fdiv (2 ^ n) := by
  have hpos : (0 : Int) ≤ 2 ^ n := Int.le_of_lt (Int.pow_pos (by decide))
  rw [BitVec.toInt_sshiftRight, Int.shiftRight_eq_div_pow, Int.fdiv_eq_ediv_of_nonneg _ hpos,
    Int.natCast_pow]
  rfl

/-- The carry of an algebraic shift. -/
theorem lost_eq : (v.msb && v.toNat % 2 ^ n != 0) =
    decide (v.toInt < 0 ∧ ¬ (2 ^ n : Int) ∣ v.toInt) := by
  rw [BitVec.msb_eq_toInt]
  by_cases hneg : v.toInt < 0
  · have hdvd := dvd_toInt_iff v n hneg
    by_cases hzero : v.toNat % 2 ^ n = 0
    · simp [hneg, hdvd, hzero]
    · simp [hneg, hdvd, hzero]
  · simp [hneg]

theorem toNat_shiftLeft : (v <<< n).toNat = v.toNat * 2 ^ n % 2 ^ 32 := by
  rw [BitVec.toNat_shiftLeft, Nat.shiftLeft_eq]

theorem toNat_ushiftRight : (v >>> n).toNat = v.toNat / 2 ^ n := by
  rw [BitVec.toNat_ushiftRight, Nat.shiftRight_eq_div_pow]

end Word

/-! ## Words -/

/-- The shift by a register that an opcode of group 31 asks for. -/
def Opcode.Fixed.shift? : Fixed → Option Shift
  | .slw => some .left
  | .srw => some .right
  | .sraw => some .algebraic
  | _ => none

/-- A word that shifts algebraically, and by how many places: an immediate number of them, or as many
as the last six bits of a register say. -/
inductive Word.ShiftsAlgebraic (r : Registers) (w : Word) : Nat → Prop
  | immediate (hw : Fixed.srawi.Selects w) : ShiftsAlgebraic r w (Field.rb w).toNat
  | register (hw : Fixed.sraw.Selects w) :
      ShiftsAlgebraic r w ((r.gpr.read (Field.rb w)).toNat % 64)

/-- What an algebraic shift of `v` by `n` places leaves, and an addition of the carry that goes on
from there. -/
structure Machine.DividesSigned (m : Machine) (w v : Word) (n : Nat) : Prop where
  /-- The quotient is rounded down. -/
  quotient : ∃ q : Word, q.toInt = v.toInt.fdiv (2 ^ n) ∧
    m.Receives w (Field.ra w) (Field.bit31 w)
      ⟨q, some (decide (v.toInt < 0 ∧ ¬ (2 ^ n : Int) ∣ v.toInt)), none⟩
  /-- The carry brings it to where rounding toward zero does. -/
  rounded : ∀ w', FixedArith.addze.Selects w' → Field.ra w' = Field.ra w →
    let o := (m.execute w).machine.execute w'
    o.failure = none ∧
      (o.machine.regs.gpr.read (Field.rt w')).toInt = v.toInt.tdiv (2 ^ n)

namespace Machine

variable {m : Machine} {w : Word}

/-- A word that shifts by a register looks at six bits of it. -/
theorem receives_of_shiftWord {op : Fixed} {shift : Shift} (hw : op.Selects w)
    (hop : op.shift? = some shift) :
    m.Receives w (Field.ra w) (Field.bit31 w)
      ⟨(shift.eval (m.regs.gpr.read (Field.rt w)) (m.regs.gpr.read (Field.rb w))).1,
        (shift.eval (m.regs.gpr.read (Field.rt w)) (m.regs.gpr.read (Field.rb w))).2, none⟩ := by
  have hi : Instr.ofWord w = .ok (.fixed (.shift shift (Field.ra w) (Field.rt w)
      (.reg (Field.rb w)) (Field.bit31 w))) := by
    cases op <;> cases hop
    all_goals
      rw [Instr.ofWord_of_fixed hw (by decide), Instr.ofXForm31, hw.ofCode?_xForm]
      simp only [XForm.decode, Instr.reg_setWidth]
  exact receives_of_shift hi

theorem receives_of_algebraic {n : Nat} (hw : w.ShiftsAlgebraic m.regs n) :
    m.Receives w (Field.ra w) (Field.bit31 w)
      ⟨(m.regs.gpr.read (Field.rt w)).sshiftRight n,
        some ((m.regs.gpr.read (Field.rt w)).msb &&
          (m.regs.gpr.read (Field.rt w)).toNat % 2 ^ n != 0), none⟩ := by
  cases hw with
  | immediate hw =>
      have hi : Instr.ofWord w = .ok (.fixed (.shift .algebraic (Field.ra w) (Field.rt w)
          (.imm ((Field.rb w).setWidth 32)) (Field.bit31 w))) := by
        rw [Instr.ofWord_of_fixed hw (by decide), Instr.ofXForm31, hw.ofCode?_xForm]
        simp only [XForm.decode, Instr.reg_setWidth]
      have hamount : ((Field.rb w).setWidth 32).toNat % 64 = (Field.rb w).toNat := by
        have hbound := (Field.rb w).isLt
        rw [BitVec.toNat_setWidth_of_le (by decide)]
        omega
      have hreceives := m.receives_of_shift hi
      simp only [Registers.operand, Shift.eval, hamount] at hreceives
      exact hreceives
  | register hw => exact receives_of_shiftWord hw rfl

/-- The two instructions of a signed division by a power of two. -/
theorem dividesSigned {n : Nat} (hw : w.ShiftsAlgebraic m.regs n) :
    m.DividesSigned w (m.regs.gpr.read (Field.rt w)) n := by
  have hpos : (0 : Int) < 2 ^ n := Int.pow_pos (by decide)
  have hshift := m.receives_of_algebraic hw
  rw [lost_eq] at hshift
  constructor
  case quotient => exact ⟨_, toInt_sshiftRight _ n, hshift⟩
  case rounded =>
    intro w' hw' hra o
    obtain ⟨hcompletes, -, hadds⟩ := (m.execute w).machine.adds_of_arith hw' rfl
    refine ⟨hcompletes, ?_⟩
    -- the sum is the one of what the shift has left: its quotient and its carry
    rw [hadds.result, hra, hshift.registers.result, hshift.registers.carry]
    simp only [Option.getD_some, toInt_sshiftRight]
    rw [fdiv_add_lost _ hpos, ← fitsWord_iff]
    exact fitsWord_tdiv ⟨BitVec.le_toInt _, BitVec.toInt_lt⟩ hpos

end Machine

/-- **Shifts multiply and divide by powers of two**, for every state and every amount. An algebraic
shift divides a signed number and rounds down, and with its carry added the quotient is rounded toward
zero; the other two work on unsigned numbers and keep the carry. -/
theorem shifts_exact (m : Machine) (w : Word) :
    let v := m.regs.gpr.read (Field.rt w)
    let n := (m.regs.gpr.read (Field.rb w)).toNat % 64
    (∀ places, w.ShiftsAlgebraic m.regs places → m.DividesSigned w v places) ∧
    (Fixed.slw.Selects w → ∃ q : Word, q.toNat = v.toNat * 2 ^ n % 2 ^ 32 ∧ (32 ≤ n → q = 0) ∧
      m.Receives w (Field.ra w) (Field.bit31 w) ⟨q, none, none⟩) ∧
    (Fixed.srw.Selects w → ∃ q : Word, q.toNat = v.toNat / 2 ^ n ∧ (32 ≤ n → q = 0) ∧
      m.Receives w (Field.ra w) (Field.bit31 w) ⟨q, none, none⟩) := by
  intro v n
  refine ⟨fun places hw => m.dividesSigned hw, fun hw => ?_, fun hw => ?_⟩
  · refine ⟨v <<< n, toNat_shiftLeft v n, ?_, Machine.receives_of_shiftWord hw rfl⟩
    intro hn
    exact BitVec.shiftLeft_eq_zero hn
  · refine ⟨v >>> n, toNat_ushiftRight v n, ?_, Machine.receives_of_shiftWord hw rfl⟩
    intro hn
    exact BitVec.ushiftRight_eq_zero hn

/-- `srawi r4, r3, 31` and `addze r5, r4` on the least word, which is a multiple, and `sraw r4, r3, r5`
by thirty-two places, which leaves minus one and a carry. -/
theorem shifts_exact_least :
    let r := (Registers.initial.setGpr 3 0x80000000#32).setGpr 5 32#32
    let m : Machine := ⟨r, .ofBytes .empty⟩
    Word.ShiftsAlgebraic r 0x7C64FE70#32 31 ∧
      m.DividesSigned 0x7C64FE70#32 0x80000000#32 31 ∧
      Word.ShiftsAlgebraic r 0x7C642E30#32 32 ∧
      m.DividesSigned 0x7C642E30#32 0x80000000#32 32 := by
  intro r m
  have himmediate : Word.ShiftsAlgebraic r 0x7C64FE70#32 31 := .immediate (by decide)
  have hregister : Word.ShiftsAlgebraic r 0x7C642E30#32 32 := .register (by decide)
  exact ⟨himmediate, (shifts_exact m 0x7C64FE70#32).1 31 himmediate, hregister,
    (shifts_exact m 0x7C642E30#32).1 32 hregister⟩

end Broadway
