import Broadway.Exec.Condition
import Broadway.Exec.Fixed
import Broadway.Exec.Memory
import Broadway.Exec.Paired
import Broadway.Exec.System
import Broadway.Instr.OfForm

/-!
# Executing an instruction

`Instr.exec` carries out one instruction on the machine; `Machine.execute` does the same for an
instruction word, and fails if the word is no instruction.
-/

namespace Broadway

/-- Carries out an instruction. -/
def Instr.exec (i : Instr) (m : Machine) : Outcome :=
  match i with
  | .fixed i => m.done (i.exec m.regs)
  | .branch i => m.done (i.exec m.regs)
  | .condition i => m.done (i.exec m.regs)
  | .system i => m.done (i.exec m.regs)
  | .float i => m.done (i.exec m.regs)
  | .paired i => m.done (i.exec m.regs)
  | .trap options ra b =>
    if trapCondition options (m.regs.gpr.read ra) (m.regs.operand b) then
      m.fail (.fault .program m.regs.pc)
    else m.done m.regs
  | .memory i => i.exec m

/-- Carries out the instruction that a word stands for. -/
def Machine.execute (m : Machine) (w : Word) : Outcome :=
  match Instr.ofWord w with
  | .ok i => i.exec m
  | .error e => m.fail (.invalid e)

theorem Machine.execute_of_ofWord {w : Word} {i : Instr} (h : Instr.ofWord w = .ok i)
    (m : Machine) : m.execute w = i.exec m := by
  rw [execute, h]

theorem Machine.execute_of_error {w : Word} {e : Invalid} (h : Instr.ofWord w = .error e)
    (m : Machine) : m.execute w = m.fail (.invalid e) := by
  rw [execute, h]

end Broadway
