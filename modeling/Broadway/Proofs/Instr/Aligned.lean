import Broadway.Proofs.Fault.Order
import Broadway.Proofs.Instr.Reads

/-!
# Words that must be aligned

Which words report an address that is not a multiple of four is read off their opcodes, and the
address off their operand fields (`Word.MustAlign`). An instruction that a word stands for must have
an address aligned exactly if its word must, and it is the same address
(`Instr.mustAlign_of_reads`).
-/

namespace Broadway

open Opcode

/-- Multiple transfers and floating point loads and stores must be aligned. -/
def Opcode.Primary.mustAlign : Primary → Bool
  | .lmw | .stmw | .lfs | .lfsu | .lfd | .lfdu | .stfs | .stfsu | .stfd | .stfdu => true
  | _ => false

/-- Reservations, external accesses and indexed floating point loads and stores must be aligned. -/
def Opcode.Fixed.mustAlign : Fixed → Bool
  | .lwarx | .stwcx | .eciwx | .ecowx | .lfsx | .lfsux | .lfdx | .lfdux | .stfsx | .stfsux | .stfdx
  | .stfdux | .stfiwx => true
  | _ => false

/-- The address that a word must have aligned. -/
inductive Word.MustAlign (w : Word) : Address → Prop
  | displaced {op : Primary} (hw : op.Selects w) (hop : op.mustAlign = true) :
      MustAlign w (.displaced (Field.ra w) ((Field.immediate w).signExtend 32))
  | indexed {op : Fixed} (hw : op.Selects w) (hop : op.mustAlign = true) :
      MustAlign w (.indexed (Field.ra w) (Field.rb w))

section

variable {w : Word} {a : Address}

theorem mustAlign_iff_of_primary {op : Primary} (hw : op.Selects w) (hop : op ≠ .table31) :
    w.MustAlign a ↔
      op.mustAlign = true ∧ a = .displaced (Field.ra w) ((Field.immediate w).signExtend 32) := by
  constructor
  · intro h
    cases h with
    | displaced hw' hop' => exact ⟨hw.unique hw' ▸ hop', rfl⟩
    | indexed hw' hop' => exact absurd (hw.unique hw'.1) hop
  · rintro ⟨hop', rfl⟩
    exact .displaced hw hop'

theorem mustAlign_iff_of_fixed {op : Fixed} (hw : op.Selects w) :
    w.MustAlign a ↔ op.mustAlign = true ∧ a = .indexed (Field.ra w) (Field.rb w) := by
  constructor
  · intro h
    cases h with
    | displaced hw' hop' =>
        have hop := hw.1.unique hw'
        rw [← hop] at hop'
        contradiction
    | indexed hw' hop' => exact ⟨hw.unique hw' ▸ hop', rfl⟩
  · rintro ⟨hop', rfl⟩
    exact .indexed hw hop'

theorem not_mustAlign_of_arith {op : FixedArith} (hw : op.Selects w) : ¬ w.MustAlign a := by
  intro h
  cases h with
  | displaced hw' hop' =>
      have hop := hw.1.unique hw'
      rw [← hop] at hop'
      contradiction
  | indexed hw' hop' => exact hw'.not_arith hw

theorem not_mustAlign_of_primary {op : Primary} (hw : op.Selects w) (hop : op ≠ .table31)
    (hfree : op.mustAlign = false) : ¬ w.MustAlign a := by
  rw [mustAlign_iff_of_primary hw hop, hfree]
  exact fun h => Bool.false_ne_true h.1

end

namespace Instr

/-- The address that an instruction must have aligned. -/
def mustAlign? : Instr → Option Address
  | .memory i => if i.mustAlign then some i.address else none
  | _ => none

variable {w : Word}

theorem mustAlign?_ofDForm {f : DForm} {op : Primary}
    (hf : Primary.ofCode? f.opcd.toNat = some op) :
    Yields (ofDForm f) (·.mustAlign? = if op.mustAlign then some (displaced f) else none) := by
  unfold ofDForm
  rw [hf]
  cases op with
  | lmw =>
      show Yields (if _ then _ else _) _
      split
      · exact yields_error _
      · exact yields_ok rfl
  | _ =>
      first
      | exact yields_error _
      | exact yields_ok rfl
      | exact yields_withBase rfl
      | exact yields_loadWithBase rfl
      | exact yields_compareWords rfl

theorem mustAlign?_ofXForm31 {f : XForm} {op : Fixed} (hf : Fixed.ofCode? f.xo.toNat = some op) :
    Yields (ofXForm31 f) (·.mustAlign? = if op.mustAlign then some (indexed f) else none) := by
  unfold ofXForm31
  rw [hf]
  cases op <;>
    first
    | exact yields_error _
    | exact yields_ok rfl
    | exact yields_withBase rfl
    | exact yields_loadWithBase rfl
    | exact yields_compareWords rfl

theorem displaced_decode (w : Word) :
    displaced (.decode w) = .displaced (Field.ra w) ((Field.immediate w).signExtend 32) := by
  rw [displaced, DForm.decode, reg_setWidth]

theorem indexed_decode (w : Word) :
    indexed (.decode w) = .indexed (Field.ra w) (Field.rb w) := by
  rw [indexed, XForm.decode, reg_setWidth, reg_setWidth]

/-- The address that an instruction must have aligned is the one that its word must have aligned. -/
theorem mustAlign_of_reads {x : Except Invalid Instr} (h : Reads w x) {i : Instr} (hx : x = .ok i)
    (a : Address) : i.mustAlign? = some a ↔ w.MustAlign a := by
  -- most words must not have any address aligned, and stand for no such instruction
  have hfree (hnone : Yields x (·.mustAlign? = none)) (hw : ¬ w.MustAlign a) :
      i.mustAlign? = some a ↔ w.MustAlign a := by
    rw [hnone i hx]
    exact ⟨fun heq => by contradiction, fun hmust => absurd hmust hw⟩
  cases h with
  | unlisted => contradiction
  | immediate hw hop =>
      rw [mustAlign?_ofDForm hw.ofCode?_dForm i hx, mustAlign_iff_of_primary hw hop.1,
        displaced_decode, Option.ite_none_right_eq_some, Option.some_inj, eq_comm (b := a)]
  | fixed hw =>
      rw [mustAlign?_ofXForm31 hw.ofCode?_xForm i hx, mustAlign_iff_of_fixed hw, indexed_decode,
        Option.ite_none_right_eq_some, Option.some_inj, eq_comm (b := a)]
  | branch hw | conditional hw | call hw =>
      exact hfree (yields_ok rfl) (not_mustAlign_of_primary hw (by decide) rfl)
  | rotate hw hop =>
      have hfacts : ∀ op ∈ [Primary.rlwimi, .rlwinm, .rlwnm],
          op ≠ .table31 ∧ op.mustAlign = false := by decide
      refine hfree ?_ (not_mustAlign_of_primary hw (hfacts _ hop).1 (hfacts _ hop).2)
      exact yields_ofMForm _ (fun _ _ _ _ _ _ => rfl) (fun _ _ _ _ _ _ => rfl)
  | quantized hw hop =>
      have hfacts : ∀ op ∈ [Primary.psqL, .psqLu, .psqSt, .psqStu],
          op ≠ .table31 ∧ op.mustAlign = false := by decide
      refine hfree ?_ (not_mustAlign_of_primary hw (hfacts _ hop).1 (hfacts _ hop).2)
      exact yields_ofPsqForm _ (fun _ _ _ _ _ => rfl) (fun _ _ _ _ _ => rfl)
  | control hw =>
      refine hfree ?_ (not_mustAlign_of_primary hw.1 (by decide) rfl)
      exact yields_ofXlForm _ (fun _ => rfl) (fun _ _ => rfl) (fun _ _ _ _ => rfl) rfl rfl
  | arith hw =>
      refine hfree ?_ (not_mustAlign_of_arith hw)
      exact yields_ofXoForm _ fun _ _ _ _ _ _ _ => rfl
  | special hw hop =>
      have hfacts : ∀ op ∈ [Fixed.mtcrf, .mfspr, .mtspr, .mftb], op.mustAlign = false := by decide
      refine hfree ?_ ?_
      · exact yields_ofXfxForm _ (fun _ _ => rfl) (fun _ _ => rfl) (fun _ _ => rfl) fun _ _ => rfl
      · rw [mustAlign_iff_of_fixed hw, hfacts _ hop]
        exact fun h => Bool.false_ne_true h.1
  | pairedArith hw =>
      exact hfree (yields_ofAForm4 _ fun _ => rfl) (not_mustAlign_of_primary hw (by decide) rfl)
  | pairedIndexed hw =>
      refine hfree ?_ (not_mustAlign_of_primary hw (by decide) rfl)
      exact yields_ofPsqxForm _ (fun _ _ _ _ _ => rfl) (fun _ _ _ _ _ => rfl)
  | pairedMove hw =>
      exact hfree (yields_ofXForm4 _ (fun _ => rfl) rfl)
        (not_mustAlign_of_primary hw (by decide) rfl)
  | single hw =>
      exact hfree (yields_ofAForm59 _ fun _ _ _ _ _ _ _ => rfl)
        (not_mustAlign_of_primary hw (by decide) rfl)
  | double hw =>
      exact hfree (yields_ofAForm63 _ (fun _ _ _ _ _ _ _ => rfl) fun _ _ _ _ _ => rfl)
        (not_mustAlign_of_primary hw (by decide) rfl)
  | doubleMove hw =>
      exact hfree (yields_ofXForm63 _ fun _ => rfl)
        (not_mustAlign_of_primary hw.1 (by decide) rfl)
  | statusFields hw =>
      exact hfree (yields_ok rfl) (not_mustAlign_of_primary hw.1 (by decide) rfl)

end Instr

end Broadway
