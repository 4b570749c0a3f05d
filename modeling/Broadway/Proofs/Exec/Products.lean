import Broadway.Proofs.Exec.Results

/-!
# Products and quotients are exact

Two words have two products, of signed and of unsigned numbers, and both have the same low word.
`ExactProduct` says which words they are made of, `SignedQuotient` and `UnsignedQuotient` what a
quotient is and when there is none. Five instructions multiply and divide registers and one multiplies
by an immediate; whatever the operands are, they hand over the words of the exact product and the exact
quotient (`products_and_quotients_exact`). A division without a quotient completes like any other one.
-/

namespace Broadway

open Opcode

/-! ## What is to be computed -/

/-- The words that the products of two words are made of. -/
structure ExactProduct (a b : Word) where
  low : Word
  high : Word
  highUnsigned : Word
  signed : high.toInt * 2 ^ 32 + low.toNat = a.toInt * b.toInt
  unsigned : highUnsigned.toNat * 2 ^ 32 + low.toNat = a.toNat * b.toNat

/-- The quotient of signed words, and whether the division has overflowed. -/
inductive SignedQuotient (a b : Word) : (quotient : Word) → (overflow : Bool) → Prop
  /-- The remainder is smaller than the divisor and does not have the other sign than the dividend,
  so the quotient is rounded toward zero. -/
  | exact {q : Word} {r : Int} (hdivisor : b.toInt ≠ 0)
      (hfits : ¬ (a.toInt = -2 ^ 31 ∧ b.toInt = -1)) (hsum : a.toInt = q.toInt * b.toInt + r)
      (hsmall : r.natAbs < b.toInt.natAbs) (hsign : r = 0 ∨ r.sign = a.toInt.sign) :
      SignedQuotient a b q false
  | negativeOverZero (hdivisor : b.toInt = 0) (ha : a.toInt < 0) :
      SignedQuotient a b 0xFFFFFFFF true
  | overZero (hdivisor : b.toInt = 0) (ha : 0 ≤ a.toInt) : SignedQuotient a b 0 true
  /-- The one quotient of words that is no word. -/
  | beyond (ha : a.toInt = -2 ^ 31) (hb : b.toInt = -1) : SignedQuotient a b 0 true

/-- The quotient of unsigned words, and whether the division has overflowed. -/
inductive UnsignedQuotient (a b : Word) : (quotient : Word) → (overflow : Bool) → Prop
  | exact {q : Word} (hdivisor : b.toNat ≠ 0) (hlow : q.toNat * b.toNat ≤ a.toNat)
      (hhigh : a.toNat < (q.toNat + 1) * b.toNat) : UnsignedQuotient a b q false
  | overZero (hdivisor : b.toNat = 0) : UnsignedQuotient a b 0 true

/-! ## Products -/

/-- A doubleword as two words, the upper one of which has the sign. -/
theorem toInt_halves (x : BitVec 64) :
    (x.extractLsb' 32 32).toInt * 2 ^ 32 + (x.setWidth 32).toNat = x.toInt := by
  have hx := x.isLt
  rw [BitVec.toInt_eq_toNat_cond, BitVec.toInt_eq_toNat_cond, BitVec.extractLsb'_toNat,
    BitVec.toNat_setWidth, Nat.shiftRight_eq_div_pow]
  omega

theorem toNat_halves (x : BitVec 64) :
    (x.extractLsb' 32 32).toNat * 2 ^ 32 + (x.setWidth 32).toNat = x.toNat := by
  have hx := x.isLt
  rw [BitVec.extractLsb'_toNat, BitVec.toNat_setWidth, Nat.shiftRight_eq_div_pow]
  omega

section Product

variable (a b : Word)

/-- The product of signed words has room in a doubleword. -/
theorem toInt_signedProduct :
    (a.signExtend 64 * b.signExtend 64).toInt = a.toInt * b.toInt := by
  have ha : a.toInt.natAbs ≤ 2 ^ 31 := by
    have hlow : -2 ^ 31 ≤ a.toInt := a.le_toInt
    have hhigh : a.toInt < 2 ^ 31 := a.toInt_lt
    omega
  have hb : b.toInt.natAbs ≤ 2 ^ 31 := by
    have hlow : -2 ^ 31 ≤ b.toInt := b.le_toInt
    have hhigh : b.toInt < 2 ^ 31 := b.toInt_lt
    omega
  have hsize : (a.toInt * b.toInt).natAbs ≤ 2 ^ 31 * 2 ^ 31 := by
    rw [Int.natAbs_mul]
    exact Nat.mul_le_mul ha hb
  rw [BitVec.toInt_mul, BitVec.toInt_signExtend_of_le (by decide),
    BitVec.toInt_signExtend_of_le (by decide)]
  apply Int.bmod_eq_of_le_mul_two
  · show -(2 ^ 64 : Int) ≤ _
    omega
  · show _ < (2 ^ 64 : Int)
    omega

theorem toNat_unsignedProduct :
    (a.setWidth 64 * b.setWidth 64).toNat = a.toNat * b.toNat := by
  have hsize : a.toNat * b.toNat < 2 ^ 32 * 2 ^ 32 :=
    Nat.mul_lt_mul'' a.isLt b.isLt
  rw [BitVec.toNat_mul, BitVec.toNat_setWidth_of_le (by decide),
    BitVec.toNat_setWidth_of_le (by decide)]
  exact Nat.mod_eq_of_lt hsize

/-- The words of the products: the low word of a product of words, and the upper halves of the two
products of doublewords. -/
def ExactProduct.ofWords : ExactProduct a b where
  low := a * b
  high := (a.signExtend 64 * b.signExtend 64).extractLsb' 32 32
  highUnsigned := (a.setWidth 64 * b.setWidth 64).extractLsb' 32 32
  signed := by
    have hlow : (a.signExtend 64 * b.signExtend 64).setWidth 32 = a * b := by
      rw [BitVec.setWidth_mul _ _ (by decide), setWidth_signExtend a (by decide),
        setWidth_signExtend b (by decide)]
    rw [← hlow, toInt_halves, toInt_signedProduct]
  unsigned := by
    have hlow : (a.setWidth 64 * b.setWidth 64).setWidth 32 = a * b := by
      rw [BitVec.setWidth_mul _ _ (by decide)]
      simp
    rw [← hlow, toNat_halves, toNat_unsignedProduct]

/-- The low word has the sign and the size of the product just if the product is a word. -/
theorem Arith.mulLow_eq :
    mulLow a b = ⟨a * b, none, some (!decide (FitsWord (a.toInt * b.toInt)))⟩ := by
  have hword : a * b = BitVec.ofInt 32 (a.toInt * b.toInt) := by
    rw [BitVec.ofInt_mul, BitVec.ofInt_toInt, BitVec.ofInt_toInt]
  have hfits : FitsWord (a.toInt * b.toInt) ↔ a.toInt * b.toInt = (a * b).toInt := by
    rw [fitsWord_iff, ← hword]
    exact eq_comm
  simp only [mulLow, bne, hfits]
  rfl

end Product

/-! ## Quotients -/

section Quotient

variable {a b q : Word} {overflow : Bool}

/-- The quotient of the signed numbers, which is a word unless it is the one that is not. -/
theorem toInt_sdiv (hfits : ¬ (a.toInt = -2 ^ 31 ∧ b.toInt = -1)) :
    (a.sdiv b).toInt = a.toInt.tdiv b.toInt := by
  apply BitVec.toInt_sdiv_of_ne_or_ne
  rw [Ne, Ne, ← Classical.not_and_iff_not_or_not]
  rintro ⟨rfl, rfl⟩
  exact hfits ⟨rfl, rfl⟩

/-- Every pair of words has a quotient or a reason to have none. -/
theorem exists_signedQuotient (a b : Word) : ∃ q overflow, SignedQuotient a b q overflow := by
  by_cases hdivisor : b.toInt = 0
  · rcases Int.lt_or_le a.toInt 0 with ha | ha
    · exact ⟨_, _, .negativeOverZero hdivisor ha⟩
    · exact ⟨_, _, .overZero hdivisor ha⟩
  · by_cases hfits : a.toInt = -2 ^ 31 ∧ b.toInt = -1
    · exact ⟨_, _, .beyond hfits.1 hfits.2⟩
    · refine ⟨a.sdiv b, false, .exact (r := a.toInt.tmod b.toInt) hdivisor hfits ?_ ?_ ?_⟩
      · rw [toInt_sdiv hfits, Int.mul_comm]
        exact (Int.mul_tdiv_add_tmod _ _).symm
      · rw [Int.natAbs_tmod]
        exact Nat.mod_lt _ (Int.natAbs_pos.2 hdivisor)
      · by_cases hdvd : b.toInt ∣ a.toInt
        · left
          exact Int.tmod_eq_zero_of_dvd hdvd
        · right
          rw [Int.sign_tmod, if_neg hdvd]

/-- The sign and the size of the remainder leave one quotient. -/
theorem tdiv_eq {a b q r : Int} (hdivisor : b ≠ 0) (hsum : a = q * b + r)
    (hsmall : r.natAbs < b.natAbs) (hsign : r = 0 ∨ r.sign = a.sign) : a.tdiv b = q := by
  have hmul : b * q = q * b := Int.mul_comm b q
  rcases Int.le_total 0 a with ha | ha
  · have hr : 0 ≤ r := by
      rcases hsign with hzero | hsame
      · omega
      · exact Int.sign_nonneg_iff.1 (hsame ▸ Int.sign_nonneg_iff.2 ha)
    exact ((Int.tdiv_tmod_unique ha hdivisor).2 ⟨by omega, hr, by omega⟩).1
  · have hr : r ≤ 0 := by
      rcases hsign with hzero | hsame
      · omega
      · exact Int.sign_nonpos_iff.1 (hsame ▸ Int.sign_nonpos_iff.2 ha)
    exact ((Int.tdiv_tmod_unique' ha hdivisor).2 ⟨by omega, by omega, hr⟩).1

theorem Arith.divSigned_eq (h : SignedQuotient a b q overflow) :
    divSigned a b = ⟨q, none, some overflow⟩ := by
  have hzero : b = 0 ↔ b.toInt = 0 := BitVec.toInt_inj.symm
  have hleast : a = BitVec.intMin 32 ↔ a.toInt = -2 ^ 31 := BitVec.toInt_inj.symm
  have hminus : b = -1 ↔ b.toInt = -1 := BitVec.toInt_inj.symm
  have hneg : a.msb = true ↔ a.toInt < 0 := by rw [BitVec.msb_eq_toInt, decide_eq_true_iff]
  simp only [divSigned, hzero, hleast, hminus, hneg]
  cases h with
  | exact hdivisor hfits hsum hsmall hsign =>
      have hquotient : a.sdiv b = q := by
        apply BitVec.eq_of_toInt_eq
        rw [toInt_sdiv hfits]
        exact tdiv_eq hdivisor hsum hsmall hsign
      rw [if_neg (not_or.2 ⟨hdivisor, hfits⟩), hquotient]
  | negativeOverZero hdivisor ha =>
      rw [if_pos (.inl hdivisor), if_pos ⟨ha, hdivisor⟩]
      rfl
  | overZero hdivisor ha =>
      rw [if_pos (.inl hdivisor), if_neg fun h => Int.not_lt.2 ha h.1]
  | beyond ha hb =>
      have hdivisor : b.toInt ≠ 0 := by omega
      rw [if_pos (.inr ⟨ha, hb⟩), if_neg fun h => hdivisor h.2]

theorem exists_unsignedQuotient (a b : Word) : ∃ q overflow, UnsignedQuotient a b q overflow := by
  by_cases hdivisor : b.toNat = 0
  · exact ⟨_, _, .overZero hdivisor⟩
  · refine ⟨a / b, false, .exact hdivisor ?_ ?_⟩
    · rw [BitVec.toNat_udiv]
      exact Nat.div_mul_le_self _ _
    · rw [BitVec.toNat_udiv, Nat.mul_comm]
      exact Nat.lt_mul_div_succ _ (Nat.pos_of_ne_zero hdivisor)

theorem Arith.divUnsigned_eq (h : UnsignedQuotient a b q overflow) :
    divUnsigned a b = ⟨q, none, some overflow⟩ := by
  have hzero : b = 0 ↔ b.toNat = 0 := BitVec.toNat_inj.symm
  simp only [divUnsigned, hzero]
  cases h with
  | exact hdivisor hlow hhigh =>
      have hquotient : a / b = q := by
        apply BitVec.eq_of_toNat_eq
        rw [BitVec.toNat_udiv]
        exact Nat.div_eq_of_lt_le hlow hhigh
      rw [if_neg hdivisor, hquotient]
  | overZero hdivisor => rw [if_pos hdivisor]

end Quotient

/-! ## Words -/

namespace Machine

variable {m : Machine} {w a b : Word}

/-- Whether the registers that a word names as its operands hold two words. -/
def Operands (m : Machine) (w a b : Word) : Prop :=
  m.regs.gpr.read (Field.ra w) = a ∧ m.regs.gpr.read (Field.rb w) = b

/-- What a word of register arithmetic leaves that hands over a value, with an overflow if it has one
and is asked to record it. The carry is kept. -/
def HandsOver (m : Machine) (w value : Word) (overflow : Option Bool) : Prop :=
  m.Receives w (Field.rt w) (Field.bit31 w)
    ((⟨value, none, overflow⟩ : ArithResult).recording (Field.oe w))

theorem handsOver_of_arith {op : FixedArith} {value : Word} {overflow : Option Bool}
    (h : m.Operands w a b) (hw : op.Selects w)
    (heval : Arith.eval op a b m.regs.carry = ⟨value, none, overflow⟩) :
    m.HandsOver w value overflow := by
  obtain ⟨rfl, rfl⟩ := h
  rw [HandsOver, ← heval]
  exact receives_of_arith hw

/-- A multiplication by an immediate has nothing but a low word to hand over. -/
theorem receives_of_mulli {v : Word} (hw : Primary.mulli.Selects w)
    (ha : m.regs.gpr.read (Field.ra w) = a) (hv : (Field.immediate w).toInt = v.toInt) :
    m.Receives w (Field.rt w) false ⟨a * v, none, none⟩ := by
  have hi : Instr.ofWord w = .ok (.fixed (.multiplyImmediate (Field.rt w) (Field.ra w)
      ((Field.immediate w).signExtend 32))) := by
    rw [Instr.ofWord_of_primary hw (by decide), Instr.ofDForm, hw.ofCode?_dForm]
    simp only [DForm.decode, Instr.reg_setWidth]
  have himmediate : (Field.immediate w).signExtend 32 = v := by
    apply BitVec.eq_of_toInt_eq
    rw [BitVec.toInt_signExtend_of_le (by decide), hv]
  have hexec : (FixedInstr.multiplyImmediate (Field.rt w) (Field.ra w)
      ((Field.immediate w).signExtend 32)).exec m.regs =
      m.regs.finish (Field.rt w) false false ⟨a * v, none, none⟩ := by
    rw [himmediate, ← ha]
    rfl
  exact receives_of_finish hi hexec

end Machine

/-- **Products and quotients are exact**, for all operands and in every state. The two high words of a
product go with one low word, which a multiplication by an immediate hands over as well; a quotient is
the one that the remainder asks for. Where there is no quotient the words of `SignedQuotient` and
`UnsignedQuotient` stand in for it, and that is an overflow. Each word completes. -/
theorem products_and_quotients_exact (a b : Word) :
    (∃ p : ExactProduct a b, ∀ (m : Machine) (w : Word),
      (m.Operands w a b → FixedArith.mullw.Selects w →
        m.HandsOver w p.low (some (!decide (FitsWord (a.toInt * b.toInt))))) ∧
      (m.Operands w a b → FixedArith.mulhw.Selects w → m.HandsOver w p.high none) ∧
      (m.Operands w a b → FixedArith.mulhwu.Selects w → m.HandsOver w p.highUnsigned none) ∧
      (m.regs.gpr.read (Field.ra w) = a → (Field.immediate w).toInt = b.toInt →
        Primary.mulli.Selects w → m.Receives w (Field.rt w) false ⟨p.low, none, none⟩)) ∧
    (∃ q overflow, SignedQuotient a b q overflow) ∧
    (∃ q overflow, UnsignedQuotient a b q overflow) ∧
    ∀ (m : Machine) (w q : Word) (overflow : Bool), m.Operands w a b →
      (SignedQuotient a b q overflow → FixedArith.divw.Selects w →
        m.HandsOver w q (some overflow)) ∧
      (UnsignedQuotient a b q overflow → FixedArith.divwu.Selects w →
        m.HandsOver w q (some overflow)) := by
  refine ⟨⟨.ofWords a b, fun m w => ⟨?_, ?_, ?_, ?_⟩⟩, exists_signedQuotient a b,
    exists_unsignedQuotient a b, fun m w q overflow hoperands => ⟨?_, ?_⟩⟩
  · intro hoperands hw
    exact Machine.handsOver_of_arith hoperands hw (Arith.mulLow_eq a b)
  · intro hoperands hw
    exact Machine.handsOver_of_arith hoperands hw rfl
  · intro hoperands hw
    exact Machine.handsOver_of_arith hoperands hw rfl
  · intro ha hv hw
    exact Machine.receives_of_mulli hw ha hv
  · intro hquotient hw
    exact Machine.handsOver_of_arith hoperands hw (Arith.divSigned_eq hquotient)
  · intro hquotient hw
    exact Machine.handsOver_of_arith hoperands hw (Arith.divUnsigned_eq hquotient)

/-- The least word and minus one. Their signed product is no word, and neither is their signed
quotient, which `divwo. r3, r3, r4` is to put in the place of its dividend; read as unsigned numbers
they have both. -/
theorem products_and_quotients_exact_least :
    let r := (Registers.initial.setGpr 3 0x80000000#32).setGpr 4 0xFFFFFFFF#32
    let m : Machine := ⟨r, .ofBytes .empty⟩
    m.Operands 0x7CA325D6#32 0x80000000#32 0xFFFFFFFF#32 ∧
      m.HandsOver 0x7CA325D6#32 0x80000000#32 (some true) ∧
      m.HandsOver 0x7CA32016#32 0x7FFFFFFF#32 none ∧
      m.Receives 0x1CA3FFFF#32 5 false ⟨0x80000000#32, none, none⟩ ∧
      SignedQuotient 0x80000000#32 0xFFFFFFFF#32 0 true ∧
      m.HandsOver 0x7C6327D7#32 0 (some true) ∧
      UnsignedQuotient 0x80000000#32 0xFFFFFFFF#32 0 false ∧
      m.HandsOver 0x7CA32796#32 0 (some false) := by
  intro r m
  have hoperands : m.Operands 0x7CA325D6#32 0x80000000#32 0xFFFFFFFF#32 := ⟨rfl, rfl⟩
  have hsigned : SignedQuotient 0x80000000#32 0xFFFFFFFF#32 0 true := .beyond rfl rfl
  have hunsigned : UnsignedQuotient 0x80000000#32 0xFFFFFFFF#32 0 false :=
    .exact (by decide) (by decide) (by decide)
  obtain ⟨⟨p, hproducts⟩, -, -, hquotients⟩ :=
    products_and_quotients_exact 0x80000000#32 0xFFFFFFFF#32
  -- the unsigned product tells both of its words
  have hwords := p.unsigned
  have hbound := p.low.isLt
  have hlow : p.low = 0x80000000#32 := by
    apply BitVec.eq_of_toNat_eq
    simp at hwords ⊢
    omega
  have hhigh : p.highUnsigned = 0x7FFFFFFF#32 := by
    apply BitVec.eq_of_toNat_eq
    simp at hwords ⊢
    omega
  obtain ⟨hmullw, -⟩ := hproducts m 0x7CA325D6#32
  obtain ⟨-, -, hmulhwu, -⟩ := hproducts m 0x7CA32016#32
  obtain ⟨-, -, -, hmulli⟩ := hproducts m 0x1CA3FFFF#32
  rw [hlow] at hmullw hmulli
  rw [hhigh] at hmulhwu
  refine ⟨hoperands, hmullw hoperands (by decide), hmulhwu hoperands (by decide),
    hmulli rfl (by decide) (by decide), hsigned, ?_, hunsigned, ?_⟩
  · exact (hquotients m 0x7C6327D7#32 0 true ⟨rfl, rfl⟩).1 hsigned (by decide)
  · exact (hquotients m 0x7CA32796#32 0 false ⟨rfl, rfl⟩).2 hunsigned (by decide)

end Broadway
