import Broadway.Proofs.Run.Step

/-!
# Stretches of execution

A program is often known by the words in it and not by their number or order: a handler that leaves
some registers alone, the code between a comparison and its branch. `Machine.Stretch` is a stretch
of execution, of any length and along any way, in which all words are of some kind. Between two
words the program may be moved elsewhere, time may pass and memory may change, so what a stretch
does is what its words do.

* A step of a program belongs to a stretch if its word does, whether it completes or fails
  (`Machine.Stretch.stepped`).
* A part of the registers that each word of the kind keeps is kept over the whole stretch
  (`Machine.Stretch.keeps`).
-/

namespace Broadway.Machine

/-- A stretch of execution from `m`, in which all words that are executed are of some kind. -/
inductive Stretch (P : Word → Prop) (m : Machine) : Machine → Prop
  | start : Stretch P m m
  | moved {m' : Machine} (h : Stretch P m m') (pc npc : Word) (tb : BitVec 64) (ram : Ram) :
      Stretch P m ⟨{ m'.regs with pc := pc, npc := npc, tb := tb }, ram⟩
  | executed {m' : Machine} {w : Word} (h : Stretch P m m') (hw : P w) :
      Stretch P m (m'.execute w).machine

namespace Stretch

variable {P : Word → Prop} {m m' : Machine}

theorem stepped (h : m.Stretch P m')
    (hword : ∀ w, Window.read m'.ram 4 m'.regs.pc = .ok w → P w) :
    m.Stretch P m'.step.machine := by
  have hfetched : m.Stretch P m'.fetched :=
    h.moved m'.regs.pc (m'.regs.pc + 4) m'.regs.tb m'.ram
  rcases hstep : m'.step with ⟨m₁, _ | f⟩
  · obtain ⟨w, m₂, hread, hexecute, rfl⟩ := step_completed hstep
    have hexecuted := hfetched.executed (hword w hread)
    rw [hexecute] at hexecuted
    exact hexecuted.moved m₂.regs.npc m₂.regs.npc (m₂.regs.tb + 1) m₂.ram
  · rcases step_failed hstep with ⟨rfl, -⟩ | ⟨w, hread, hexecute⟩
    · exact h
    · have hexecuted := hfetched.executed (hword w hread)
      rwa [hexecute] at hexecuted

/-- What no word of a stretch changes is at its end what it was at its start, unless it is a matter
of where the program is and what time it is. -/
theorem keeps {α : Type} (view : Registers → α)
    (hmoved : ∀ (r : Registers) pc npc tb,
      view { r with pc := pc, npc := npc, tb := tb } = view r)
    (hexecute : ∀ (m : Machine) w, P w → view (m.execute w).machine.regs = view m.regs)
    (h : m.Stretch P m') : view m'.regs = view m.regs := by
  induction h with
  | start => rfl
  | moved _ pc npc tb _ ih => exact (hmoved _ pc npc tb).trans ih
  | executed _ hw ih => exact (hexecute _ _ hw).trans ih

end Stretch

end Broadway.Machine
