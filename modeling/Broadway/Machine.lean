import Broadway.Failure
import Broadway.Memory.Ram
import Broadway.Registers

/-!
# The machine

Registers and guest memory, the state on which an instruction works, and the outcome of an
instruction. A failed instruction has an outcome as well: an instruction that moves several
elements may fail after some of them, and what it has done by then stays done.
-/

namespace Broadway

structure Machine where
  regs : Registers
  ram : Ram

/-- The machine after an instruction, and why the instruction failed if it did. -/
structure Outcome where
  machine : Machine
  failure : Option Failure

namespace Machine

/-- The machine after a reset, over some memory. -/
def initial (ram : Ram) : Machine := ⟨.initial, ram⟩

/-- The outcome of an instruction that only changes registers. -/
def done (m : Machine) (regs : Registers) : Outcome := ⟨{ m with regs := regs }, none⟩

/-- The outcome of an instruction that failed before it changed anything. -/
def fail (m : Machine) (f : Failure) : Outcome := ⟨m, some f⟩

@[simp]
theorem machine_done (m : Machine) (regs : Registers) :
    (m.done regs).machine = { m with regs := regs } := rfl

@[simp]
theorem failure_done (m : Machine) (regs : Registers) : (m.done regs).failure = none := rfl

@[simp]
theorem machine_fail (m : Machine) (f : Failure) : (m.fail f).machine = m := rfl

@[simp]
theorem failure_fail (m : Machine) (f : Failure) : (m.fail f).failure = some f := rfl

end Machine

end Broadway
