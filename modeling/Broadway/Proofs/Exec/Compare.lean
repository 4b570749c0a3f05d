import Broadway.Proofs.Exec.Scalar
import Broadway.Proofs.Float.Extended

/-!
# Floating point comparisons decide the exact order

Scalar and paired comparisons have tables of their own. `Word.ComparesFloats` brings them together:
each compares one lane of its operands, ordered or not. Whatever the operands are, the code of their
order as extended rational numbers is what the instruction leaves in the condition register and in
the status (`compare_exact`).
-/

namespace Broadway

open Opcode Fpscr

/-- Whether a move of group 63 is a comparison, and if so whether an ordered one. -/
def Opcode.DoubleMove.comparison? : DoubleMove → Option Bool
  | .fcmpu => some false
  | .fcmpo => some true
  | _ => none

/-- Whether a move of group 4 is a comparison, and if so of which lane and whether an ordered one. -/
def Opcode.PairedMove.comparison? : PairedMove → Option (Lane × Bool)
  | .cmpu0 => some (.ps0, false)
  | .cmpo0 => some (.ps0, true)
  | .cmpu1 => some (.ps1, false)
  | .cmpo1 => some (.ps1, true)
  | _ => none

/-- Words that compare a lane of two floating point registers, ordered or not. -/
inductive Word.ComparesFloats (w : Word) : Lane → Bool → Prop
  | scalar {op : DoubleMove} {ordered : Bool} (hw : op.Selects w)
      (hop : op.comparison? = some ordered) : ComparesFloats w .ps0 ordered
  | paired {op : PairedMove} {lane : Lane} {ordered : Bool} (hw : op.Selects w)
      (hop : op.comparison? = some (lane, ordered)) : ComparesFloats w lane ordered

/-- The two numbers that a word compares. -/
def Registers.compared (r : Registers) (w : Word) (lane : Lane) : Double × Double :=
  ((r.fpr.read (Field.ra w)).lane lane, (r.fpr.read (Field.rb w)).lane lane)

/-- What a comparison leaves in the registers. -/
def Registers.recordComparison (r : Registers) (ordered : Bool) (field : BitVec 3) (a b : Double) :
    Registers :=
  (r.setFpscr (compare ordered r.fpscr a b)).setCrField field (compareCode a b)

namespace Fpscr

/-- The condition code on record. -/
def conditionCode (s : Word) : BitVec 4 := s.extractLsb' 12 4

variable (ordered : Bool) (s : Word) (a b : Double)

theorem conditionCode_setCode (code : BitVec 4) : conditionCode (setCode s code) = code :=
  extractLsb'_placed s code (by decide) (by decide)

/-- Exceptions do not touch the code. -/
theorem conditionCode_compare : conditionCode (compare ordered s a b) = compareCode a b := by
  have hraises := raises_compare ordered s a b
  rw [← conditionCode_setCode s (compareCode a b)]
  apply BitVec.eq_of_getLsbD_eq
  intro i hi
  rw [conditionCode, conditionCode, BitVec.getLsbD_extractLsb', BitVec.getLsbD_extractLsb']
  obtain rfl | rfl | rfl | rfl : i = 0 ∨ i = 1 ∨ i = 2 ∨ i = 3 := by omega
  all_goals rw [hraises.getLsbD (by decide)]

/-- The bit above the code belongs to the class of a result and stays as it is. -/
theorem getLsbD_compare : (compare ordered s a b).getLsbD 16 = s.getLsbD 16 := by
  rw [(raises_compare ordered s a b).getLsbD (by decide), setCode, BitVec.getLsbD_or,
    BitVec.getLsbD_and, BitVec.getLsbD_not]
  simp [fpcc]

/-- Apart from the code a comparison raises what it is to raise, and does nothing else. -/
theorem raises_compare_without : Raises (compareCauses ordered s a b) (s &&& ~~~fpcc)
    (compare ordered s a b &&& ~~~fpcc) := by
  have hpart : lastResult &&& fpcc = fpcc := by decide
  have hraises := (raises_compare ordered s a b).without hpart
  have hcode : setCode s (compareCode a b) &&& ~~~fpcc = s &&& ~~~fpcc := by
    have hinside (code : BitVec 4) : (code.setWidth 32 <<< 12) &&& ~~~fpcc = 0#32 := by
      revert code
      decide
    rw [setCode, or_and_of_apart _ (hinside _), BitVec.and_assoc, BitVec.and_self]
  rwa [hcode] at hraises

end Fpscr

namespace Instr

variable {w : Word} {ordered : Bool}

theorem ofWord_of_scalarComparison {op : DoubleMove} (hw : op.Selects w)
    (hop : op.comparison? = some ordered) : ofWord w =
      .ok (.float (.compare ordered (Field.crfd w) (Field.ra w) (Field.rb w))) := by
  have hcrfd : crField (XForm.decode w).rt = Field.crfd w := crField_extractLsb' w 21
  have hform : op ≠ .mtfsf := by
    rintro rfl
    nomatch hop
  rw [ofWord_of_doubleMove hw hform, ofXForm63, hw.ofCode?_xForm]
  cases op <;> cases hop <;> simp only [hcrfd] <;> simp only [XForm.decode, reg_setWidth]

theorem ofWord_of_pairedComparison {op : PairedMove} {lane : Lane} (hw : op.Selects w)
    (hop : op.comparison? = some (lane, ordered)) : ofWord w =
      .ok (.paired (.compare lane ordered (Field.crfd w) (Field.ra w) (Field.rb w))) := by
  have hcrfd : crField (XForm.decode w).rt = Field.crfd w := crField_extractLsb' w 21
  rw [ofWord_of_pairedMove hw, ofXForm4, hw.ofCode?_xForm]
  cases op <;> cases hop <;> simp only [hcrfd] <;> simp only [XForm.decode, reg_setWidth]

end Instr

theorem Machine.execute_comparesFloats {w : Word} {lane : Lane} {ordered : Bool}
    (hw : Word.ComparesFloats w lane ordered) (m : Machine) :
    m.execute w = m.done (m.regs.recordComparison ordered (Field.crfd w)
      (m.regs.compared w lane).1 (m.regs.compared w lane).2) := by
  cases hw with
  | scalar hw hop => exact execute_of_ofWord (Instr.ofWord_of_scalarComparison hw hop) m
  | paired hw hop => exact execute_of_ofWord (Instr.ofWord_of_pairedComparison hw hop) m

/-- What a comparison of `x` and `y` leaves in the registers `r` for the order that `code` stands
for. -/
structure Machine.Compares (m : Machine) (w : Word) (ordered : Bool) (x y : Double) (r : Registers)
    (code : BitVec 4) : Prop where
  completes : m.execute w = m.done r
  /-- The code is the one of the order of the extended rational numbers. -/
  orders : Code.Orders x.datum y.datum code
  field : r.crField (Field.crfd w) = code
  status : conditionCode r.fpscr = code
  others : ∀ n, n ≠ Field.crfd w → r.crField n = m.regs.crField n
  /-- The bit above the code belongs to the class of a result. -/
  kind : r.fpscr.getLsbD 16 = m.regs.fpscr.getLsbD 16
  raised : Raises (compareCauses ordered m.regs.fpscr x y) (m.regs.fpscr &&& ~~~fpcc)
    (r.fpscr &&& ~~~fpcc)

theorem Machine.exists_compares {w : Word} {lane : Lane} {ordered : Bool}
    (hw : Word.ComparesFloats w lane ordered) (m : Machine) {x y : Double}
    (h : m.regs.compared w lane = (x, y)) : ∃ r, m.Compares w ordered x y r (compareCode x y) := by
  refine ⟨m.regs.recordComparison ordered (Field.crfd w) x y, ?_⟩
  constructor
  case completes => rw [execute_comparesFloats hw, h]
  case orders => exact orders_compareCode x y
  case field => exact Condition.field_setField_self ..
  case status => exact conditionCode_compare ..
  case others => exact fun n hn => Condition.field_setField_of_ne _ _ hn.symm
  case kind => exact getLsbD_compare ..
  case raised => exact raises_compare_without ..

/-- **Floating point comparisons decide the exact order**, for every state, every comparison and all
operands. There is one code for the order of the operands as extended rational numbers, and it goes
to the field that the word names and to the status. A comparison with the operands exchanged, in
whatever state and of whichever kind, leaves the mirror image of the code. -/
theorem compare_exact (m : Machine) (w : Word) {lane : Lane} {ordered : Bool} {x y : Double}
    (hw : Word.ComparesFloats w lane ordered) (h : m.regs.compared w lane = (x, y)) :
    ∃ r code, m.Compares w ordered x y r code ∧
      (∀ other, Code.Orders x.datum y.datum other → other = code) ∧
      ∀ (m' : Machine) (w' : Word) (lane' : Lane) (ordered' : Bool),
        Word.ComparesFloats w' lane' ordered' → m'.regs.compared w' lane' = (y, x) →
        ∃ r', m'.Compares w' ordered' y x r' (Code.mirror code) := by
  obtain ⟨r, hcompares⟩ := Machine.exists_compares hw m h
  refine ⟨r, compareCode x y, hcompares, ?_, ?_⟩
  · intro other hother
    exact hother.unique hcompares.orders
  · intro m' w' lane' ordered' hw' h'
    obtain ⟨r', hcompares'⟩ := Machine.exists_compares hw' m' h'
    have hmirror : compareCode y x = Code.mirror (compareCode x y) :=
      hcompares'.orders.unique hcompares.orders.mirror
    rw [hmirror] at hcompares'
    exact ⟨r', hcompares'⟩

/-- The smallest negative number is less than a negative zero, by `ps_cmpo1` and the other way round by
`fcmpu`. -/
theorem compare_exact_smallest :
    let x : Double := 0x8000000000000001#64
    let y : Double := .zero true
    let m : Machine := ⟨(Registers.initial.setFpr 1 (.both x)).setFpr 2 (.both y), .ofBytes .empty⟩
    Word.ComparesFloats 0x118110C0#32 .ps1 true ∧ m.regs.compared 0x118110C0#32 .ps1 = (x, y) ∧
      ∃ r r', m.execute 0x118110C0#32 = m.done r ∧ r.crField 3 = Code.less ∧
        m.execute 0xFE820800#32 = m.done r' ∧ r'.crField 5 = Code.greater := by
  intro x y m
  have hw : Word.ComparesFloats 0x118110C0#32 .ps1 true := by
    have hop : PairedMove.cmpo1.Selects 0x118110C0#32 := by decide
    exact .paired hop rfl
  have hw' : Word.ComparesFloats 0xFE820800#32 .ps0 false := by
    have hop : DoubleMove.fcmpu.Selects 0xFE820800#32 := by decide
    exact .scalar hop rfl
  have hlanes : m.regs.compared 0x118110C0#32 .ps1 = (x, y) := by decide +kernel
  have hlanes' : m.regs.compared 0xFE820800#32 .ps0 = (y, x) := by decide +kernel
  obtain ⟨r, code, hcompares, hunique, hswapped⟩ := compare_exact m _ hw hlanes
  obtain ⟨r', hcompares'⟩ := hswapped m _ _ _ hw' hlanes'
  have hcode : Code.less = code := by
    have hless : compareCode x y = Code.less := by decide +kernel
    rw [← hless]
    exact hunique _ (orders_compareCode x y)
  refine ⟨hw, hlanes, r, r', hcompares.completes, ?_, hcompares'.completes, ?_⟩
  · exact hcompares.field.trans hcode.symm
  · rw [← hcode] at hcompares'
    exact hcompares'.field

end Broadway
