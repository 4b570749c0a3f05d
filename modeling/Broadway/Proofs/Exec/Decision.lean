import Broadway.Proofs.Exec.Condition
import Broadway.Proofs.Run.Stretch

/-!
# Decisions

A decision is a comparison of two integers and, some time later, a branch on the field that it has
written. The comparison leaves the order of the two numbers in the four bits of the field, the field
stays as it is as long as no word writes it, and the branch asks for one of the bits. So control
goes the way that the relation of the two integers says, for every field and both ways of asking
(`comparison_decides_branch`).

* What a word is not listed for it keeps, so a field outlasts a stretch of words that spare it
  (`Machine.Stretch.crAt_eq`).
* A branch that asks for a bit, or for its opposite, is taken if the bit is as asked for
  (`Machine.branchesIff_of_bo`).
* A comparison of doublewords is refused (`Machine.execute_doublewordCompare`).
-/

namespace Broadway

open Opcode

/-- A word is listed for no bit of a field of the condition register. -/
def Word.SparesField (w : Word) (f : BitVec 3) : Prop :=
  ∀ t, w.WritesCondition t → ∀ k, ¬ t.Holds f k

namespace Machine

variable {m m' : Machine} {w : Word}

theorem Stretch.crAt_eq {f : BitVec 3} (h : m.Stretch (·.SparesField f) m') (k : BitVec 2) :
    m'.regs.crAt f k = m.regs.crAt f k := by
  refine h.keeps (fun r => r.crAt f k) (fun _ _ _ _ => rfl) fun m w hw => ?_
  refine Classical.byContradiction fun hne => ?_
  obtain ⟨t, ht, hholds⟩ := listed_of_changed hne
  exact hw t ht k hholds

/-! ## Branches -/

/-- A branch to an address that its word holds is taken if `p` holds, and goes on to the next word
if not. The link register is a matter of the link bit in both cases. -/
structure BranchesIff (m : Machine) (w : Word) (p : Prop) : Prop where
  taken (h : p) : m.execute w = m.done (Registers.linked { m.regs with
    npc := if Field.aa w then Field.bd w else m.regs.pc + Field.bd w } (Field.bit31 w))
  passed (h : ¬ p) : m.execute w = m.done (m.regs.linked (Field.bit31 w))

theorem BranchesIff.congr {p q : Prop} (h : m.BranchesIff w p) (hpq : p ↔ q) :
    m.BranchesIff w q :=
  ⟨fun hq => h.taken (hpq.2 hq), fun hq => h.passed (mt hpq.1 hq)⟩

/-- The BO field that has a branch ask for a value of its bit, and not for the count. -/
def asksFor (v : Bool) : BitVec 5 := if v then 0b01100#5 else 0b00100#5

theorem branchesIff_of_bo (hw : Primary.bc.Selects w) {v : Bool}
    (hbo : Field.rt w = asksFor v) (m : Machine) :
    m.BranchesIff w (m.regs.cr.getMsbD (Field.ra w).toNat = v) := by
  have hexecute := execute_branchesTo (.bc hw) m
  have hbits : (asksFor v).getMsbD 0 = false ∧ (asksFor v).getMsbD 1 = v ∧
      (asksFor v).getMsbD 2 = true := by
    cases v <;> decide
  -- the count is neither decremented nor looked at
  rw [hbo, Registers.branchedOn, Registers.countAfter, hbits.1, hbits.2.1, hbits.2.2,
    if_pos rfl, Bool.true_or, Bool.true_and, Bool.false_or] at hexecute
  constructor
  case taken =>
    intro hbit
    rw [hexecute, hbit, if_pos (beq_self_eq_true v)]
    cases Field.aa w <;> cases Field.bit31 w <;> rfl
  case passed =>
    intro hbit
    rw [hexecute, if_neg (mt eq_of_beq hbit)]
    cases Field.bit31 w <;> rfl

/-- The branches on a bit of a field are taken exactly if `p` holds, or exactly if it does not, as
they ask. -/
structure DecidesBy (m : Machine) (f : BitVec 3) (bit : Nat) (p : Prop) : Prop where
  ifSet (w : Word) (hw : Primary.bc.Selects w) (hbo : Field.rt w = 0b01100#5)
    (hbi : (Field.ra w).toNat = 4 * f.toNat + bit) : m.BranchesIff w p
  ifClear (w : Word) (hw : Primary.bc.Selects w) (hbo : Field.rt w = 0b00100#5)
    (hbi : (Field.ra w).toNat = 4 * f.toNat + bit) : m.BranchesIff w (¬ p)

theorem decidesBy_of_crAt {f : BitVec 3} {k : BitVec 2} {p : Prop}
    (h : m.regs.crAt f k = true ↔ p) : m.DecidesBy f k.toNat p := by
  have hbit {w : Word} (hbi : (Field.ra w).toNat = 4 * f.toNat + k.toNat) :
      m.regs.cr.getMsbD (Field.ra w).toNat = m.regs.crAt f k := by
    rw [hbi, Registers.crAt, Condition.toNat_number]
  constructor
  case ifSet =>
    intro w hw hbo hbi
    refine (branchesIff_of_bo (v := true) hw hbo m).congr ?_
    rw [hbit hbi, h]
  case ifClear =>
    intro w hw hbo hbi
    refine (branchesIff_of_bo (v := false) hw hbo m).congr ?_
    rw [hbit hbi, ← h, Bool.not_eq_true]

end Machine

/-! ## Comparisons of doublewords -/

namespace Instr

variable {w : Word}

theorem ofWord_of_doublewordImmediate {op : Primary} {signed : Bool} (hw : op.Selects w)
    (hop : op.comparison? = some signed) (hl : Field.l w = true) :
    ofWord w = .error (.doublewordCompare (if signed then "cmpi" else "cmpli")) := by
  cases op with
  | cmpi | cmpli =>
      cases hop
      rw [ofWord_of_primary hw (by decide), ofDForm, hw.ofCode?_dForm]
      simp only [compareWords, l_dForm, hl]
      rfl
  | _ => cases hop

theorem ofWord_of_doublewordRegisters {op : Fixed} {signed : Bool} (hw : op.Selects w)
    (hop : op.comparison? = some signed) (hl : Field.l w = true) :
    ofWord w = .error (.doublewordCompare (if signed then "cmp" else "cmpl")) := by
  cases op with
  | cmp | cmpl =>
      cases hop
      rw [ofWord_of_fixed hw (by decide), ofXForm31, hw.ofCode?_xForm]
      simp only [compareWords, l_xForm, hl]
      rfl
  | _ => cases hop

end Instr

theorem Machine.execute_doublewordCompare {m : Machine} {w : Word} {x y : Int}
    (hw : m.regs.ComparesIntegers w x y) (hl : Field.l w = true) :
    ∃ mnemonic ∈ ["cmp", "cmpi", "cmpl", "cmpli"],
      m.execute w = m.fail (.invalid (.doublewordCompare mnemonic)) := by
  cases hw with
  | cmp hw =>
      have hi := Instr.ofWord_of_doublewordRegisters hw rfl hl
      exact ⟨_, by decide, execute_of_error hi m⟩
  | cmpi hw =>
      have hi := Instr.ofWord_of_doublewordImmediate hw rfl hl
      exact ⟨_, by decide, execute_of_error hi m⟩
  | cmpl hw =>
      have hi := Instr.ofWord_of_doublewordRegisters hw rfl hl
      exact ⟨_, by decide, execute_of_error hi m⟩
  | cmpli hw =>
      have hi := Instr.ofWord_of_doublewordImmediate hw rfl hl
      exact ⟨_, by decide, execute_of_error hi m⟩

/-! ## Comparison and branch -/

/-- **A comparison and a branch decide by the exact relation of two integers**, for every state, all
operands and every field. The numbers are signed or unsigned, and an immediate is extended, as the
comparison has it.

* A comparison of words completes. Behind it, and behind any stretch of words that spare its field,
  the branches on the four bits of the field are taken if the first number is less than, greater
  than or equal to the second one, and if an overflow is on record; or they are taken in all other
  cases, where they ask for the opposite.
* A comparison of doublewords is invalid and changes nothing. -/
theorem comparison_decides_branch (m : Machine) (w : Word) (x y : Int)
    (hw : m.regs.ComparesIntegers w x y) :
    (Field.l w = false →
      (m.execute w).failure = none ∧
      ∀ m', (m.execute w).machine.Stretch (·.SparesField (Field.crfd w)) m' →
        m'.DecidesBy (Field.crfd w) 0 (x < y) ∧
        m'.DecidesBy (Field.crfd w) 1 (y < x) ∧
        m'.DecidesBy (Field.crfd w) 2 (x = y) ∧
        m'.DecidesBy (Field.crfd w) 3 (m.regs.summaryOverflow = true)) ∧
    (Field.l w = true →
      ∃ mnemonic ∈ ["cmp", "cmpi", "cmpl", "cmpli"],
        m.execute w = m.fail (.invalid (.doublewordCompare mnemonic))) := by
  refine ⟨fun hl => ?_, Machine.execute_doublewordCompare hw⟩
  have hreplaces := Machine.replacesField_of_compare hw hl
  refine ⟨hreplaces.completes, fun m' hstretch => ?_⟩
  have hbit (k : BitVec 2) :
      m'.regs.crAt (Field.crfd w) k = orderBit x y m.regs.summaryOverflow k :=
    (hstretch.crAt_eq k).trans (hreplaces.inside k)
  refine ⟨?less, ?greater, ?equal, ?summary⟩
  case less => exact Machine.decidesBy_of_crAt (k := 0) (by simp [hbit, orderBit])
  case greater => exact Machine.decidesBy_of_crAt (k := 1) (by simp [hbit, orderBit])
  case equal => exact Machine.decidesBy_of_crAt (k := 2) (by simp [hbit, orderBit])
  case summary => exact Machine.decidesBy_of_crAt (k := 3) (by simp [hbit, orderBit])

/-- `cmpwi cr6, r3, 1` finds a word of ones less than one, though it is the largest unsigned number.
`addic. r5, r3, 1`, which writes field zero, lies in between. Then `blt cr6` is taken and `bge cr6`
is not. The same comparison of doublewords is refused. -/
theorem comparison_decides_branch_minus_one :
    let m : Machine := ⟨Registers.initial.setGpr 3 0xFFFFFFFF#32, .ofBytes .empty⟩
    let m' := ((m.execute 0x2F030001#32).machine.execute 0x34A30001#32).machine
    m.regs.ComparesIntegers 0x2F030001#32 (-1) 1 ∧
      m'.BranchesIff 0x41980008#32 True ∧ m'.BranchesIff 0x40980008#32 False ∧
      ∃ mnemonic, m.execute 0x2F230001#32 = m.fail (.invalid (.doublewordCompare mnemonic)) := by
  intro m m'
  have hnumbers : m.regs.ComparesIntegers 0x2F030001#32 (-1) 1 :=
    .cmpi (by decide : Primary.cmpi.Selects 0x2F030001#32)
  have hdoublewords : m.regs.ComparesIntegers 0x2F230001#32 (-1) 1 :=
    .cmpi (by decide : Primary.cmpi.Selects 0x2F230001#32)
  have hspares : Word.SparesField 0x34A30001#32 6 := by
    intro t ht k hholds
    obtain ⟨-, i, hi, rfl⟩ := (Word.writesCondition_iff _ t).1 ht
    have hrecords : Instr.ofWord 0x34A30001#32 =
        .ok (.fixed (.addImmediateCarrying 5 3 1 true)) := rfl
    rw [hrecords] at hi
    cases hi
    have hzero : (6 : BitVec 3) = 0 := hholds
    contradiction
  obtain ⟨-, hdecides⟩ := (comparison_decides_branch m _ _ _ hnumbers).1 (by decide)
  obtain ⟨hless, -⟩ := hdecides m' (.executed .start hspares)
  obtain ⟨mnemonic, -, hrefused⟩ :=
    (comparison_decides_branch m _ _ _ hdoublewords).2 (by decide)
  have htaken := hless.ifSet 0x41980008#32 (by decide) (by decide) (by decide)
  have hpassed := hless.ifClear 0x40980008#32 (by decide) (by decide) (by decide)
  exact ⟨hnumbers, htaken.congr (by decide), hpassed.congr (by decide), mnemonic, hrefused⟩

end Broadway
