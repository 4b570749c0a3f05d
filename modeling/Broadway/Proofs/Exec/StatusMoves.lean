import Broadway.Proofs.Condition
import Broadway.Proofs.Exec.Status
import Broadway.Proofs.Exec.ToInteger
import Broadway.Proofs.Instr.Groups
import Broadway.Proofs.Run.Stretch

/-!
# Moves of the floating point status

`mffs` copies the status to a lane, `mtfsf` writes fields of it from a lane, and `mtfsfi` a single
field from the word itself. Both writes may name the field that holds the two summaries, and then
choose values for them that may be wrong. They are computed anew afterwards, so the status is the
chosen word with right summaries (`Fpscr.Summarized`).

* The chosen word determines this status, whatever it says of the summaries
  (`Fpscr.Summarized.unique`), and a status with right summaries is left as it is
  (`Fpscr.summarize_eq_self`).
* A write is the choice of a word for each field (`Registers.Chooses`), and one equation for both
  instructions (`Machine.execute_of_chooses`).
* So a status with right summaries is restored exactly from the lane that it has been saved in, if
  no instruction in between has written to this lane.
-/

namespace Broadway

open Fpscr Opcode

/-! ## Summaries computed anew -/

namespace Fpscr

variable {s t chosen chosen' : Word}

/-- The two bits that sum up others. -/
def summaries : Word := vx ||| fex

/-- `s` is the chosen word with its summaries computed anew: all other bits are as chosen, and the
summaries are right for them. -/
structure Summarized (chosen s : Word) : Prop where
  kept : s &&& ~~~summaries = chosen &&& ~~~summaries
  right : Consistent s

theorem summarized_summarize (chosen : Word) : Summarized chosen (summarize chosen) where
  kept := by
    let t := assign chosen vx (chosen &&& vxAny != 0)
    calc assign t fex (enabled t != 0) &&& ~~~summaries
      _ = t &&& ~~~summaries := assign_and_of_apart t (by decide) _
      _ = chosen &&& ~~~summaries := assign_and_of_apart chosen (by decide) _
  right := consistent_summarize chosen

/-- Right summaries are functions of the other bits. -/
theorem Consistent.eq_of_and_eq (hs : Consistent s) (ht : Consistent t)
    (h : s &&& ~~~summaries = t &&& ~~~summaries) : s = t := by
  have hvx : Has s Fpscr.vx ↔ Has t Fpscr.vx := by
    rw [hs.vx, ht.vx]
    simp (disch := decide) only [has_congr h]
  have hfex : Has s Fpscr.fex ↔ Has t Fpscr.fex := by
    rw [hs.fex, ht.fex, hvx]
    simp (disch := decide) only [has_congr h]
  -- every other bit is one that the two words have in common
  have hplace : ∀ k : Fin 32, ~~~summaries &&& 1#32 <<< k.val = 1#32 <<< k.val ∨
      1#32 <<< k.val = Fpscr.vx ∨ 1#32 <<< k.val = Fpscr.fex := by
    decide
  have hbit (k : Fin 32) : Has s (1#32 <<< k.val) ↔ Has t (1#32 <<< k.val) := by
    obtain hother | hbit | hbit := hplace k
    · exact has_congr h hother
    · rwa [hbit]
    · rwa [hbit]
  apply BitVec.eq_of_getLsbD_eq
  intro k hk
  rw [Bool.eq_iff_iff, ← has_shiftLeft s hk, ← has_shiftLeft t hk]
  exact hbit ⟨k, hk⟩

/-- A choice of the summaries leaves no trace. -/
theorem Summarized.unique (h : Summarized chosen s) (h' : Summarized chosen' t)
    (hchosen : chosen &&& ~~~summaries = chosen' &&& ~~~summaries) : s = t :=
  h.right.eq_of_and_eq h'.right (h.kept.trans (hchosen.trans h'.kept.symm))

theorem summarize_eq_self (h : Consistent s) : summarize s = s :=
  (summarized_summarize s).unique ⟨rfl, h⟩ rfl

end Fpscr

/-- A word that has been put into a lane is there in its low half. -/
theorem Double.setWidth_ofWord (w : Word) : (Double.ofWord w).setWidth 32 = w := by
  have htag : integerTag.setWidth 32 = 0#32 := rfl
  rw [ofWord, BitVec.setWidth_or, htag, BitVec.zero_or, BitVec.setWidth_setWidth_of_le _ (by decide),
    BitVec.setWidth_eq]

/-! ## The three words -/

namespace Instr

variable {w : Word}

theorem ofWord_of_mffs (hw : DoubleMove.mffs.Selects w) :
    ofWord w = .ok (.float (.fromStatus (Field.rt w) (Field.bit31 w))) := by
  rw [ofWord_of_doubleMove hw (by decide), ofXForm63, hw.ofCode?_xForm]
  simp only [XForm.decode, reg_setWidth]

/-- The immediate of a status field is the high part of its component. -/
theorem statusImmediate_decode (w : Word) :
    (XForm.decode w).rb.extractLsb' 1 4 = Field.statusImmediate w := by
  apply BitVec.eq_of_getLsbD_eq
  intro i hi
  have hbyte : 1 + i < 8 := by omega
  have hfield : 1 + i < 5 := by omega
  have hplace : 11 + (1 + i) = 12 + i := by omega
  simp [XForm.decode, Field.rb, Field.statusImmediate, hi, hbyte, hfield, hplace]

theorem ofWord_of_mtfsfi (hw : DoubleMove.mtfsfi.Selects w) :
    ofWord w = .ok (.float
      (.setStatusField (Field.crfd w) (Field.statusImmediate w) (Field.bit31 w))) := by
  have hcrfd : crField (XForm.decode w).rt = Field.crfd w := crField_extractLsb' w 21
  rw [ofWord_of_doubleMove hw (by decide), ofXForm63, hw.ofCode?_xForm]
  simp only [hcrfd, statusImmediate_decode]
  rfl

end Instr

/-! ## Writes of fields -/

/-- The word that a write of fields chooses for the status: the fields that it names are those of
its operand, and all others stay as they are. -/
inductive Registers.Chooses (r : Registers) (w chosen : Word) : Prop
  | operand (hw : DoubleMove.mtfsf.Selects w)
      (h : ∀ n : BitVec 3, Condition.field chosen n =
        if (Field.fm w).getMsbD n.toNat then Condition.field ((r.ps0 (Field.rb w)).setWidth 32) n
        else Condition.field r.fpscr n)
  | immediate (hw : DoubleMove.mtfsfi.Selects w)
      (h : ∀ n : BitVec 3, Condition.field chosen n =
        if n = Field.crfd w then Field.statusImmediate w else Condition.field r.fpscr n)

namespace Registers

variable {r : Registers} {w : Word}

theorem chooses_blend (r : Registers) (hw : DoubleMove.mtfsf.Selects w) :
    r.Chooses w
      (Condition.blend (Field.fm w) r.fpscr ((r.ps0 (Field.rb w)).setWidth 32)) :=
  .operand hw fun n => Condition.field_blend r.fpscr n (Field.fm w) _

theorem chooses_setField (r : Registers) (hw : DoubleMove.mtfsfi.Selects w) :
    r.Chooses w (Condition.setField r.fpscr (Field.crfd w) (Field.statusImmediate w)) := by
  refine .immediate hw fun n => ?_
  split
  case isTrue hn => rw [hn, Condition.field_setField_self]
  case isFalse hn => exact Condition.field_setField_of_ne _ _ (Ne.symm hn)

end Registers

namespace Machine

variable {m m' : Machine} {w chosen : Word}

/-- Both writes leave the chosen word with its summaries computed anew. -/
theorem execute_of_chooses (h : m.regs.Chooses w chosen) :
    m.execute w = m.done
      ((m.regs.setFpscr (summarize chosen)).recordStatusIf (Field.bit31 w)) := by
  -- the fields make up the word, so it is the one that the instruction works out
  cases h with
  | operand hw hfields =>
      have hchosen : chosen = Condition.blend (Field.fm w) m.regs.fpscr
          ((m.regs.ps0 (Field.rb w)).setWidth 32) := by
        refine Condition.ext_field fun n => ?_
        rw [hfields, Condition.field_blend]
      rw [execute_of_ofWord (Instr.ofWord_of_statusFields hw), hchosen]
      rfl
  | immediate hw hfields =>
      have hchosen : chosen = Condition.setField m.regs.fpscr (Field.crfd w)
          (Field.statusImmediate w) := by
        cases m.regs.chooses_setField hw with
        | operand hw' _ => cases hw.unique hw'
        | immediate _ hfields' =>
            exact Condition.ext_field fun n => (hfields n).trans (hfields' n).symm
      rw [execute_of_ofWord (Instr.ofWord_of_mtfsfi hw), hchosen]
      rfl

/-- What a write of fields leaves: it completes, and the status is the chosen word with right
summaries. -/
structure WritesStatus (m : Machine) (w chosen : Word) : Prop where
  completes : (m.execute w).failure = none
  status : Summarized chosen (m.execute w).machine.regs.fpscr

theorem writesStatus (h : m.regs.Chooses w chosen) : m.WritesStatus w chosen where
  completes := by rw [execute_of_chooses h, failure_done]
  status := by
    rw [execute_of_chooses h, machine_done, Registers.fpscr_recordStatusIf]
    exact summarized_summarize chosen

/-! ## Saving and restoring -/

/-- Writing all fields from a lane makes the status `s`. -/
def RestoresStatus (m : Machine) (f : Reg) (s : Word) : Prop :=
  ∀ w, DoubleMove.mtfsf.Selects w → Field.fm w = 0xFF#8 → Field.rb w = f →
    (m.execute w).failure = none ∧ (m.execute w).machine.regs.fpscr = s

theorem restoresStatus {f : Reg} {s : Word} (hs : Consistent s)
    (hlane : m.regs.ps0 f = Double.ofWord s) : m.RestoresStatus f s := by
  intro w hw hall hf
  have hchosen : m.regs.Chooses w s := by
    refine .operand hw fun n => ?_
    have hmask : (0xFF#8).getMsbD n.toNat = true := by
      revert n
      decide
    rw [hall, hmask, if_pos rfl, hf, hlane, Double.setWidth_ofWord]
  have hwrites := writesStatus hchosen
  exact ⟨hwrites.completes, hwrites.status.unique ⟨rfl, hs⟩ rfl⟩

end Machine

/-- A word leaves the first lane of a register alone, whatever the machine. -/
def Word.KeepsLane (w : Word) (f : Reg) : Prop :=
  ∀ m : Machine, (m.execute w).machine.regs.ps0 f = m.regs.ps0 f

namespace Machine

variable {m m' : Machine} {w : Word}

theorem Stretch.ps0_eq {f : Reg} (h : m.Stretch (·.KeepsLane f) m') :
    m'.regs.ps0 f = m.regs.ps0 f :=
  h.keeps (·.ps0 f) (fun _ _ _ _ => rfl) fun m _ hw => hw m

/-- What a word that saves the status leaves: it completes, and the status is restored by every
machine that still has the lane in which it has been saved, and so after every stretch of words
that leave this lane alone. -/
structure SavesStatus (m : Machine) (w : Word) : Prop where
  completes : (m.execute w).failure = none
  restored (m' : Machine)
      (h : m'.regs.ps0 (Field.rt w) = (m.execute w).machine.regs.ps0 (Field.rt w)) :
    m'.RestoresStatus (Field.rt w) m.regs.fpscr
  outlasts (m' : Machine) (h : (m.execute w).machine.Stretch (·.KeepsLane (Field.rt w)) m') :
    m'.RestoresStatus (Field.rt w) m.regs.fpscr

theorem savesStatus (hw : DoubleMove.mffs.Selects w) (hs : Consistent m.regs.fpscr) :
    m.SavesStatus w := by
  have hdone : m.execute w = m.done
      (m.regs.finishMove (Field.rt w) (Field.bit31 w) (Double.ofWord m.regs.fpscr)) :=
    execute_of_ofWord (Instr.ofWord_of_mffs hw) m
  have hlane : (m.execute w).machine.regs.ps0 (Field.rt w) = Double.ofWord m.regs.fpscr := by
    rw [hdone, machine_done, Registers.ps0, Registers.fpr_finishMove, Bank.read_write_self]
  have hrestored (m' : Machine)
      (h : m'.regs.ps0 (Field.rt w) = (m.execute w).machine.regs.ps0 (Field.rt w)) :
      m'.RestoresStatus (Field.rt w) m.regs.fpscr :=
    restoresStatus hs (h.trans hlane)
  constructor
  case completes => rw [hdone, failure_done]
  case restored => exact hrestored
  case outlasts => exact fun m' h => hrestored m' h.ps0_eq

end Machine

/-- **The status is saved, restored and written exactly.** A status with right summaries that is
saved in a lane is restored from it, after any stretch of words that leave the lane alone. A write
of fields, for every status, mask and operand, replaces the fields that it names, keeps the others
and computes the summaries anew, so that no choice of them is left. -/
theorem status_moves_exact (m : Machine) :
    (∀ w, DoubleMove.mffs.Selects w → Consistent m.regs.fpscr → m.SavesStatus w) ∧
    (∀ w, DoubleMove.mtfsf.Selects w ∨ DoubleMove.mtfsfi.Selects w →
      ∃ chosen, m.regs.Chooses w chosen) ∧
    (∀ w chosen, m.regs.Chooses w chosen → m.WritesStatus w chosen) ∧
    ∀ (m' : Machine) (w w' chosen chosen' : Word),
      m.regs.Chooses w chosen → m'.regs.Chooses w' chosen' →
      chosen &&& ~~~summaries = chosen' &&& ~~~summaries →
      (m.execute w).machine.regs.fpscr = (m'.execute w').machine.regs.fpscr := by
  refine ⟨fun w hw hs => Machine.savesStatus hw hs, fun w hw => ?_,
    fun w chosen h => Machine.writesStatus h, fun m' w w' chosen chosen' h h' hchosen => ?_⟩
  · obtain hw | hw := hw
    · exact ⟨_, m.regs.chooses_blend hw⟩
    · exact ⟨_, m.regs.chooses_setField hw⟩
  · exact (Machine.writesStatus h).status.unique (Machine.writesStatus h').status hchosen

/-- `mtfsfi 0, 0` clears the exceptions of a status that `mffs f1` has saved and leaves the first
lane of `f1` alone, and `mtfsf 0xFF, f1` restores it. After a reset `mtfsfi 0, 15` chooses both
summaries and leaves neither, as if it were `mtfsfi 0, 9`. -/
theorem status_moves_exact_overflow :
    let s := fx ||| fex ||| vx ||| ox ||| vxsnan ||| oe
    let m : Machine := ⟨Registers.initial.setFpscr s, .ofBytes .empty⟩
    let cleared := ((m.execute 0xFC20048E#32).machine.execute 0xFC00010C#32).machine
    Consistent s ∧ cleared.regs.fpscr = vx ||| vxsnan ||| oe ∧
      (cleared.execute 0xFDFE0D8E#32).machine.regs.fpscr = s ∧
      let reset : Machine := .initial (.ofBytes .empty)
      reset.regs.Chooses 0xFC00F10C#32 0xF0000000#32 ∧
        Summarized 0xF0000000#32 (reset.execute 0xFC00F10C#32).machine.regs.fpscr ∧
        (reset.execute 0xFC00F10C#32).machine.regs.fpscr
          = (reset.execute 0xFC00910C#32).machine.regs.fpscr := by
  intro s m cleared
  have hs : Consistent s := ⟨by decide, by decide⟩
  have hlane : Word.KeepsLane 0xFC00010C#32 1 := by
    intro m
    rw [Machine.execute_of_ofWord (Instr.ofWord_of_mtfsfi (by decide))]
    rfl
  have hsaves := (status_moves_exact m).1 0xFC20048E#32 (by decide) hs
  have hrestored := (hsaves.outlasts cleared (.executed .start hlane)) 0xFDFE0D8E#32
    (by decide) (by decide) (by decide)
  refine ⟨hs, by decide +kernel, hrestored.2, ?_⟩
  intro reset
  have hall : reset.regs.Chooses 0xFC00F10C#32 0xF0000000#32 :=
    .immediate (by decide) (by decide +kernel)
  have hsome : reset.regs.Chooses 0xFC00910C#32 0x90000000#32 :=
    .immediate (by decide) (by decide +kernel)
  obtain ⟨-, -, hwrites, hsame⟩ := status_moves_exact reset
  exact ⟨hall, (hwrites _ _ hall).status, hsame reset _ _ _ _ hall hsome (by decide)⟩

end Broadway
