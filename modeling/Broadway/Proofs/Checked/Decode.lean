import Broadway.Proofs.Checked.Arithmetic
import Broadway.Proofs.Instr.Reads

/-!
# Reading a word with checked arithmetic

The way from a word to its form once more, with every shift checked: the opcode tables are looked
up, and the word is taken apart in the form they name. Fields are moved down and masked; the signed
displacements are moved to the top of the word and back down.

* No word stops on the way: it has the kind that the tables give it (`Checked.kind?_eq`) and is
  taken apart as that kind is (`Checked.decode_eq`).
-/

namespace Broadway.Checked

open Opcode

/-! ## Fields of a word -/

/-- The field of `n` bits that lies `lo` places up, in a value of `k` bits. -/
def field (k : Nat) (w : Word) (lo n : Nat) : Checked (BitVec k) := do
  let x ← shr w lo
  return (x &&& BitVec.ofNat 32 (2 ^ n - 1)).setWidth k

/-- A displacement: its field is moved to the top of the word and then back down, which repeats the
sign, but not so far as to lose the low zeros. -/
def displacement (x : Word) (up down : Nat) : Checked Word := do
  let x ← shl x up
  sshr x down

theorem field_eq {k lo : Nat} (hlo : lo < 32) (hk : k ≤ 32) (w : Word) (n : Nat) :
    field k w lo n = .ok ((w.extractLsb' lo n).setWidth k) := by
  rw [field, shr_eq hlo, ok_bind, pure_eq]
  congr 1
  apply BitVec.eq_of_getLsbD_eq
  intro i hi
  have hword : i < 32 := by omega
  simp only [BitVec.getLsbD_setWidth, BitVec.getLsbD_and, BitVec.getLsbD_ushiftRight,
    BitVec.getLsbD_ofNat, BitVec.getLsbD_extractLsb', Nat.testBit_two_pow_sub_one, hword,
    decide_true, Bool.true_and, Bool.and_comm]

/-- A field of `n` bits that was moved to the top and back down until `p` zeros are left. -/
theorem displacement_eq {n p : Nat} (hn : 0 < n) (hp : n + p ≤ 32) (x : BitVec n) :
    displacement (x.setWidth 32) (32 - n) (32 - n - p) = .ok ((x ++ 0#p).signExtend 32) := by
  rw [displacement, shl_eq (by omega), ok_bind, sshr_eq (by omega)]
  congr 1
  apply BitVec.eq_of_getLsbD_eq
  intro i hi
  rw [BitVec.getLsbD_sshiftRight, BitVec.getLsbD_signExtend, BitVec.getLsbD_append,
    BitVec.msb_eq_getLsbD_last, BitVec.msb_eq_getLsbD_last]
  simp only [BitVec.getLsbD_shiftLeft, BitVec.getLsbD_setWidth, BitVec.getLsbD_zero,
    BitVec.getLsbD_append]
  -- bit `i` is one of the low zeros, a bit of the field, or a copy of its sign
  by_cases hzeros : i < p
  · have hword : 32 - n - p + i < 32 := by omega
    have hbelow : 32 - n - p + i < 32 - n := by omega
    have hfield : i < n + p := by omega
    simp [hzeros, hword, hbelow, hfield]
  · by_cases hfield : i < n + p
    · have hword : 32 - n - p + i < 32 := by omega
      have habove : ¬32 - n - p + i < 32 - n := by omega
      have hplace : 32 - n - p + i - (32 - n) = i - p := by omega
      have hplaced : i - p < 32 := by omega
      simp [hzeros, hfield, hi, hword, habove, hplace, hplaced]
    · -- above the field
      have hword : ¬32 - n - p + i < 32 := by omega
      have habove : ¬31 < 32 - n := by omega
      have hsign : 31 - (32 - n) = n - 1 := by omega
      have hplaced : n - 1 < 32 := by omega
      have hzero : ¬n + p - 1 < p := by omega
      have hlast : n + p - 1 - p = n - 1 := by omega
      simp [hfield, hi, hword, habove, hsign, hplaced, hzero, hlast]

/-! ## Fields by name -/

namespace Field

/-- The primary opcode, which is all that is left of the word. -/
def opcd (w : Word) : Checked Byte := do
  let x ← shr w 26
  return x.setWidth 8

def rt (w : Word) : Checked Byte := field 8 w 21 5

def ra (w : Word) : Checked Byte := field 8 w 16 5

def rb (w : Word) : Checked Byte := field 8 w 11 5

def rc (w : Word) : Checked Byte := field 8 w 6 5

def xo5 (w : Word) : Checked Byte := field 8 w 1 5

def xo6 (w : Word) : Checked Byte := field 8 w 1 6

def xo9 (w : Word) : Checked Half := field 16 w 1 9

def xo10 (w : Word) : Checked Half := field 16 w 1 10

def li (w : Word) : Checked Word := do displacement (← field 32 w 2 24) 8 6

def bd (w : Word) : Checked Word := do displacement (← field 32 w 2 14) 18 16

/-- The displacement of a quantized access is read in place. -/
def psqD (w : Word) : Checked Half := do
  let x ← displacement (w &&& 0xFFF#32) 20 20
  return x.setWidth 16

end Field

@[simp]
theorem opcd_eq (w : Word) : Field.opcd w = .ok ((Broadway.Field.opcd w).setWidth 8) := by
  rw [Field.opcd, shr_eq (by decide), ok_bind, pure_eq]
  congr 1
  apply BitVec.eq_of_getLsbD_eq
  intro i hi
  have hword : i < 32 := by omega
  by_cases hfield : i < 6
  · simp [Broadway.Field.opcd, hi, hword, hfield]
  · have hout : 32 ≤ 26 + i := by omega
    simp [Broadway.Field.opcd, hi, hword, hfield, BitVec.getLsbD_of_ge _ _ hout]

@[simp]
theorem li_eq (w : Word) : Field.li w = .ok (Broadway.Field.li w) := by
  rw [Field.li, field_eq (by decide) (by decide), ok_bind]
  exact displacement_eq (n := 24) (p := 2) (by decide) (by decide) _

@[simp]
theorem bd_eq (w : Word) : Field.bd w = .ok (Broadway.Field.bd w) := by
  rw [Field.bd, field_eq (by decide) (by decide), ok_bind]
  exact displacement_eq (n := 14) (p := 2) (by decide) (by decide) _

@[simp]
theorem psqD_eq (w : Word) : Field.psqD w = .ok (Broadway.Field.psqD w) := by
  have hfield : w &&& 0xFFF#32 = (w.extractLsb' 0 12).setWidth 32 := by
    apply BitVec.eq_of_getLsbD_eq
    intro i hi
    rw [BitVec.getLsbD_and, BitVec.getLsbD_ofNat, BitVec.getLsbD_setWidth,
      BitVec.getLsbD_extractLsb', Nat.testBit_two_pow_sub_one 12 i]
    simp [hi, Bool.and_comm]
  have hsign : ((w.extractLsb' 0 12 ++ 0#0).signExtend 32).setWidth 16
      = (w.extractLsb' 0 12).signExtend 16 := by
    apply BitVec.eq_of_getLsbD_eq
    intro i hi
    have hword : i < 32 := by omega
    have happend : w.extractLsb' 0 12 ++ 0#0 = w.extractLsb' 0 12 := by simp
    rw [happend, BitVec.getLsbD_setWidth, BitVec.getLsbD_signExtend, BitVec.getLsbD_signExtend]
    simp only [hi, hword, decide_true, Bool.true_and]
  rw [Field.psqD, hfield, displacement_eq (n := 12) (p := 0) (by decide) (by decide) _, ok_bind,
    pure_eq, hsign]
  rfl

/-! ## The opcode tables -/

/-- Looks a word up: the primary opcode first, in a group the narrower extended opcode before the
wider one. -/
def kind? (w : Word) : Checked (Option FormKind) := do
  match Primary.ofCode? (← Field.opcd w).toNat with
  | none => return none
  | some .table4 => do
    if (PairedArith.ofCode? (← Field.xo5 w).toNat).isSome then return some .a
    if (PairedIndexed.ofCode? (← Field.xo6 w).toNat).isSome then return some .psqx
    return (PairedMove.ofCode? (← Field.xo10 w).toNat).map fun _ => .x
  | some .table19 => return (Control.ofCode? (← Field.xo10 w).toNat).map fun _ => .xl
  | some .table31 => do
    if (FixedArith.ofCode? (← Field.xo9 w).toNat).isSome then return some .xo
    return (Fixed.ofCode? (← Field.xo10 w).toNat).map fun
      | .mtcrf | .mfspr | .mtspr | .mftb => .xfx
      | _ => .x
  | some .table59 => return (SingleArith.ofCode? (← Field.xo5 w).toNat).map fun _ => .a
  | some .table63 => do
    if (DoubleArith.ofCode? (← Field.xo5 w).toNat).isSome then return some .a
    return (DoubleMove.ofCode? (← Field.xo10 w).toNat).map fun
      | .mtfsf => .xfl
      | _ => .x
  | some .b => return some .i
  | some .bc => return some .b
  | some .sc => return some .sc
  | some .rlwimi | some .rlwinm | some .rlwnm => return some .m
  | some .psqL | some .psqLu | some .psqSt | some .psqStu => return some .psq
  | some _ => return some .d

theorem kind?_eq (w : Word) : kind? w = .ok (FormKind.ofTables? w) := by
  have hxo5 : ((w.extractLsb' 1 5).setWidth 8).toNat = (Broadway.Field.xo5 w).toNat :=
    BitVec.toNat_setWidth_of_le (by decide)
  have hxo6 : ((w.extractLsb' 1 6).setWidth 8).toNat = (Broadway.Field.xo6 w).toNat :=
    BitVec.toNat_setWidth_of_le (by decide)
  have hxo9 : ((w.extractLsb' 1 9).setWidth 16).toNat = (Broadway.Field.xo9 w).toNat :=
    BitVec.toNat_setWidth_of_le (by decide)
  have hxo10 : ((w.extractLsb' 1 10).setWidth 16).toNat = (Broadway.Field.xo10 w).toNat :=
    BitVec.toNat_setWidth_of_le (by decide)
  have hopcd : ((Broadway.Field.opcd w).setWidth 8).toNat = (Broadway.Field.opcd w).toNat :=
    BitVec.toNat_setWidth_of_le (by decide)
  unfold kind? FormKind.ofTables?
  simp (disch := decide) only [Field.xo5, Field.xo6, Field.xo9, Field.xo10, field_eq, opcd_eq,
    ok_bind, pure_eq, hopcd, hxo5, hxo6, hxo9, hxo10]
  cases Primary.ofCode? (Broadway.Field.opcd w).toNat with
  | none => rfl
  | some op =>
    cases op with
    | table4 =>
      dsimp only [Option.bind, FormKind.ofGroup4?]
      split
      · rfl
      · split <;> rfl
    | table31 =>
      dsimp only [Option.bind, FormKind.ofGroup31?]
      split <;> rfl
    | table63 =>
      dsimp only [Option.bind, FormKind.ofGroup63?]
      split <;> rfl
    | _ => rfl

/-! ## Forms -/

/-- Takes a word apart. No instruction is read in the forms that are left to the unchecked
`Form.decode`: they belong to the doubleword instructions, which no table lists. -/
def decode (k : FormKind) (w : Word) : Checked Form :=
  match k with
  | .i => do
    return .i
      { opcd := ← Field.opcd w
        li := ← Field.li w
        aa := ← flag w 1
        lk := Broadway.Field.bit31 w }
  | .b => do
    return .b
      { opcd := ← Field.opcd w
        bo := ← Field.rt w
        bi := ← Field.ra w
        bd := ← Field.bd w
        aa := ← flag w 1
        lk := Broadway.Field.bit31 w }
  | .sc => do return .sc { opcd := ← Field.opcd w, lev := ← field 8 w 5 7 }
  | .d => do
    return .d
      { opcd := ← Field.opcd w
        rt := ← Field.rt w
        ra := ← Field.ra w
        d := Broadway.Field.immediate w }
  | .x => do
    return .x
      { opcd := ← Field.opcd w
        rt := ← Field.rt w
        ra := ← Field.ra w
        rb := ← Field.rb w
        xo := ← Field.xo10 w
        rc := Broadway.Field.bit31 w }
  | .xl => do
    return .xl
      { opcd := ← Field.opcd w
        bt := ← Field.rt w
        ba := ← Field.ra w
        bb := ← Field.rb w
        xo := ← Field.xo10 w
        lk := Broadway.Field.bit31 w }
  | .xfx => do
    return .xfx
      { opcd := ← Field.opcd w
        rt := ← Field.rt w
        field := ← field 16 w 11 10
        xo := ← Field.xo10 w }
  | .xfl => do
    return .xfl
      { opcd := ← Field.opcd w
        fm := ← field 8 w 17 8
        frb := ← Field.rb w
        xo := ← Field.xo10 w
        rc := Broadway.Field.bit31 w }
  | .xo => do
    return .xo
      { opcd := ← Field.opcd w
        rt := ← Field.rt w
        ra := ← Field.ra w
        rb := ← Field.rb w
        oe := ← flag w 10
        xo := ← Field.xo9 w
        rc := Broadway.Field.bit31 w }
  | .a => do
    return .a
      { opcd := ← Field.opcd w
        frt := ← Field.rt w
        fra := ← Field.ra w
        frb := ← Field.rb w
        frc := ← Field.rc w
        xo := ← Field.xo5 w
        rc := Broadway.Field.bit31 w }
  | .m => do
    return .m
      { opcd := ← Field.opcd w
        rs := ← Field.rt w
        ra := ← Field.ra w
        rb := ← Field.rb w
        mb := ← Field.rc w
        me := ← Field.xo5 w
        rc := Broadway.Field.bit31 w }
  | .psq => do
    return .psq
      { opcd := ← Field.opcd w
        frt := ← Field.rt w
        ra := ← Field.ra w
        w := ← flag w 15
        i := ← field 8 w 12 3
        d := ← Field.psqD w }
  | .psqx => do
    return .psqx
      { opcd := ← Field.opcd w
        frt := ← Field.rt w
        ra := ← Field.ra w
        rb := ← Field.rb w
        w := ← flag w 10
        i := ← field 8 w 7 3
        xo := ← Field.xo6 w }
  | .ds | .xs | .md | .mds => return .decode k w

theorem decode_eq (k : FormKind) (w : Word) : decode k w = .ok (.decode k w) := by
  cases k <;>
    simp (disch := decide) only [decode, Field.rt, Field.ra, Field.rb, Field.rc, Field.xo5,
      Field.xo6, Field.xo9, Field.xo10, field_eq, flag_eq, opcd_eq, li_eq, bd_eq, psqD_eq,
      ok_bind, pure_eq] <;> rfl

end Broadway.Checked
