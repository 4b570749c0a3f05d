import Broadway.Proofs.Exec.Results
import Broadway.Proofs.Instr.Groups

/-!
# Rotations under a mask, bit by bit

A rotation takes each bit of its result from a place further on in the word, and a mask says which
of them are taken: those that are met on the way from its first to its last position, where the end
of the word is followed by its beginning (`OnWalk`). Execution makes the mask of two shifted rows of
ones and a complement; bit by bit that is the walk (`getMsbD_rotationMask`), also where it goes
round the end or through the whole word.

* Bits under the mask are those of the rotated word, and all others those of a background
  (`Word.RotatedOver`), which is zero or the old target (`rotations_exact`).
-/

namespace Broadway

open Opcode

/-! ## The walk -/

/-- Whether a position is met on the way from one position to another. Positions are numbers of five
bits, so the last one is followed by the first. -/
def OnWalk (first last i : BitVec 5) : Prop := ∃ k : BitVec 5, k ≤ last - first ∧ i = first + k

/-- A way that goes round the end of the word consists of an end and a beginning of it. -/
theorem onWalk_iff (first last i : BitVec 5) :
    OnWalk first last i ↔
      if first ≤ last then first ≤ i ∧ i ≤ last else first ≤ i ∨ i ≤ last := by
  have hsteps : OnWalk first last i ↔ i - first ≤ last - first := by
    constructor
    · rintro ⟨k, hk, rfl⟩
      rwa [BitVec.add_comm, BitVec.add_sub_cancel]
    · intro h
      refine ⟨i - first, h, ?_⟩
      rw [BitVec.add_comm, BitVec.sub_add_cancel]
  rw [hsteps]
  split
  · bv_omega
  · bv_omega

instance (first last i : BitVec 5) : Decidable (OnWalk first last i) :=
  decidable_of_iff _ (onWalk_iff first last i).symm

/-! ## The mask -/

/-- Ones that are shifted to the right begin where they have been shifted to. -/
theorem getMsbD_ones_ushiftRight (n : Nat) {i : Nat} (hi : i < 32) :
    (0xFFFFFFFF#32 >>> n).getMsbD i = decide (n ≤ i) := by
  have hones : 0xFFFFFFFF#32 = BitVec.allOnes 32 := rfl
  rw [hones, BitVec.getMsbD_ushiftRight, BitVec.getMsbD_allOnes]
  by_cases h : n ≤ i
  · have hlt : i - n < 32 := by omega
    simp [h, hi, hlt]
  · simp [h]

/-- The mask has its ones on the walk. -/
theorem getMsbD_rotationMask (first last i : BitVec 5) :
    (rotationMask first last).getMsbD i.toNat = decide (OnWalk first last i) := by
  have hi : i.toNat < 32 := i.isLt
  -- the second row of ones begins behind the last position
  have hrows :
      ((0xFFFFFFFF#32 >>> first.toNat) ^^^ (0x7FFFFFFF#32 >>> last.toNat)).getMsbD i.toNat =
        (decide (first ≤ i) ^^ decide (last < i)) := by
    have hbehind : 0x7FFFFFFF#32 >>> last.toNat = 0xFFFFFFFF#32 >>> (1 + last.toNat) := by
      rw [BitVec.shiftRight_add]
      rfl
    rw [hbehind, BitVec.getMsbD_xor, getMsbD_ones_ushiftRight _ hi, getMsbD_ones_ushiftRight _ hi,
      Nat.add_comm]
    rfl
  have hwalk := onWalk_iff first last i
  rw [← BitVec.not_lt (x := last) (y := i)] at hwalk
  rw [rotationMask]
  by_cases hround : last < first
  · -- round the end, what lies behind the first position also lies behind the last one
    have hbehind : first ≤ i → last < i := fun h => by bv_omega
    rw [if_neg (BitVec.not_le.2 hround)] at hwalk
    simp only [hwalk]
    simp only [if_pos hround, BitVec.getMsbD_not, hrows, hi, decide_true, Bool.true_and]
    by_cases hfirst : first ≤ i
    · simp [hfirst, hbehind hfirst]
    · by_cases hlast : last < i <;> simp [hfirst, hlast]
  · -- otherwise what lies behind the last position also lies behind the first one
    have hbehind : last < i → first ≤ i := fun h => by bv_omega
    rw [if_pos (BitVec.not_lt.1 hround)] at hwalk
    simp only [hwalk]
    simp only [if_neg hround, hrows]
    by_cases hlast : last < i
    · simp [hlast, hbehind hlast]
    · by_cases hfirst : first ≤ i <;> simp [hfirst, hlast]

/-! ## Rotations -/

/-- The bits of a word that is rotated to the left by `n` places and laid over a background: those
that the walk meets are taken from `n` places further on, all others from the background. -/
def Word.RotatedOver (first last : BitVec 5) (n : Nat) (s background v : Word) : Prop :=
  ∀ i : BitVec 5, v.getMsbD i.toNat =
    if OnWalk first last i then s.getMsbD ((i.toNat + n) % 32) else background.getMsbD i.toNat

theorem getMsbD_rotated (s amount : Word) (i : BitVec 5) :
    (rotated s amount).getMsbD i.toNat = s.getMsbD ((i.toNat + amount.toNat % 32) % 32) := by
  rw [rotated, BitVec.getMsbD_rotateLeft, decide_eq_true i.isLt, Bool.true_and, Nat.add_comm]

variable (first last : BitVec 5) (s amount a : Word)

theorem rotatedOver_zero : Word.RotatedOver first last (amount.toNat % 32) s 0#32
    (rotated s amount &&& rotationMask first last) := by
  intro i
  rw [BitVec.getMsbD_and, getMsbD_rotated, getMsbD_rotationMask]
  by_cases h : OnWalk first last i <;> simp [h]

theorem rotatedOver_old : Word.RotatedOver first last (amount.toNat % 32) s a
    ((rotated s amount &&& rotationMask first last) ||| (a &&& ~~~rotationMask first last)) := by
  intro i
  rw [BitVec.getMsbD_or, BitVec.getMsbD_and, BitVec.getMsbD_and, BitVec.getMsbD_not,
    getMsbD_rotated, getMsbD_rotationMask, decide_eq_true i.isLt]
  by_cases h : OnWalk first last i <;> simp [h]

/-! ## Words -/

namespace Instr

variable {w : Word}

theorem ofWord_of_rlwinm (hw : Primary.rlwinm.Selects w) : ofWord w =
    .ok (.fixed (.rotateAnd (Field.ra w) (Field.rt w) (.imm ((Field.rb w).setWidth 32))
      (Field.rc w) (Field.me w) (Field.bit31 w))) := by
  rw [ofWord_of_rotate hw (by decide), ofMForm, hw.ofCode?_mForm]
  simp only [MForm.decode, reg_setWidth]

theorem ofWord_of_rlwnm (hw : Primary.rlwnm.Selects w) : ofWord w =
    .ok (.fixed (.rotateAnd (Field.ra w) (Field.rt w) (.reg (Field.rb w))
      (Field.rc w) (Field.me w) (Field.bit31 w))) := by
  rw [ofWord_of_rotate hw (by decide), ofMForm, hw.ofCode?_mForm]
  simp only [MForm.decode, reg_setWidth]

theorem ofWord_of_rlwimi (hw : Primary.rlwimi.Selects w) : ofWord w =
    .ok (.fixed (.rotateInsert (Field.ra w) (Field.rt w) (.imm ((Field.rb w).setWidth 32))
      (Field.rc w) (Field.me w) (Field.bit31 w))) := by
  rw [ofWord_of_rotate hw (by decide), ofMForm, hw.ofCode?_mForm]
  simp only [MForm.decode, reg_setWidth]

end Instr

namespace Machine

variable {m : Machine} {w : Word}

/-- What a rotation writes back has neither a carry nor an overflow. -/
theorem receives_of_logic {i : FixedInstr} {ra : Reg} {rc : Bool} {v : Word}
    (hi : Instr.ofWord w = .ok (.fixed i)) (hexec : i.exec m.regs = m.regs.finishLogic ra rc v) :
    m.Receives w ra rc ⟨v, none, none⟩ := by
  have hfinish : i.exec m.regs = m.regs.finish ra false rc ⟨v, none, none⟩ := hexec
  exact receives_of_finish hi hfinish

end Machine

/-- **Rotations under a mask are exact, bit by bit**, for every state, every amount and every mask.
The way from the first to the last position of a mask is between them, or round the end of the word
if the last one comes first. What is left is the rotated word over zero, or over the old target,
also if that is the word that is rotated. -/
theorem rotations_exact (m : Machine) (w : Word) :
    let s := m.regs.gpr.read (Field.rt w)
    let a := m.regs.gpr.read (Field.ra w)
    let first := Field.rc w
    let last := Field.me w
    let receives (v : Word) : Prop := m.Receives w (Field.ra w) (Field.bit31 w) ⟨v, none, none⟩
    (∀ i, OnWalk first last i ↔
      if first ≤ last then first ≤ i ∧ i ≤ last else first ≤ i ∨ i ≤ last) ∧
    (Primary.rlwinm.Selects w → ∃ v,
      Word.RotatedOver first last (Field.rb w).toNat s 0#32 v ∧ receives v) ∧
    (Primary.rlwnm.Selects w → ∃ v,
      Word.RotatedOver first last ((m.regs.gpr.read (Field.rb w)).toNat % 32) s 0#32 v ∧
        receives v) ∧
    (Primary.rlwimi.Selects w → ∃ v,
      Word.RotatedOver first last (Field.rb w).toNat s a v ∧ receives v) := by
  intro s a first last receives
  -- an immediate amount has five bits already
  have hamount : ((Field.rb w).setWidth 32).toNat % 32 = (Field.rb w).toNat := by
    have hbound := (Field.rb w).isLt
    rw [BitVec.toNat_setWidth_of_le (by decide)]
    omega
  refine ⟨onWalk_iff first last, fun hw => ?_, fun hw => ?_, fun hw => ?_⟩
  · refine ⟨_, ?_, Machine.receives_of_logic (Instr.ofWord_of_rlwinm hw) rfl⟩
    rw [← hamount]
    exact rotatedOver_zero _ _ _ _
  · exact ⟨_, rotatedOver_zero _ _ _ _, Machine.receives_of_logic (Instr.ofWord_of_rlwnm hw) rfl⟩
  · refine ⟨_, ?_, Machine.receives_of_logic (Instr.ofWord_of_rlwimi hw) rfl⟩
    rw [← hamount]
    exact rotatedOver_old _ _ _ _ _

/-- `rlwimi. r3, r3, 8, 28, 3`: a word that is laid over itself, under a mask that goes round the
end. -/
theorem rotations_exact_round :
    let m : Machine := ⟨Registers.initial.setGpr 3 0x12345678#32, .ofBytes .empty⟩
    let w := 0x50634707#32
    Primary.rlwimi.Selects w ∧
      (∃ v, Word.RotatedOver 28 3 8 0x12345678#32 0x12345678#32 v ∧
        m.Receives w 3 true ⟨v, none, none⟩) ∧
      (m.execute w).machine.regs.gpr.read 3 = 0x32345672#32 := by
  intro m w
  have hselects : Primary.rlwimi.Selects w := by decide
  obtain ⟨v, hrotated, hreceives⟩ := (rotations_exact m w).2.2.2 hselects
  have hword : m.regs.gpr.read 3 = 0x12345678#32 := by decide
  have hwalk : Field.rc w = 28 ∧ Field.me w = 3 ∧ Field.rb w = 8 := by decide
  have hregs : Field.rt w = 3 ∧ Field.ra w = 3 ∧ Field.bit31 w = true := by decide
  rw [hregs.1, hregs.2.1, hword, hwalk.1, hwalk.2.1, hwalk.2.2] at hrotated
  rw [hregs.2.1, hregs.2.2] at hreceives
  refine ⟨hselects, ⟨v, hrotated, hreceives⟩, ?_⟩
  decide +kernel

end Broadway
