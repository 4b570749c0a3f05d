import Broadway.Exec

/-!
# Stepping and running

A step fetches the word at the program counter and executes it; a run steps until the guest returns
to the host, an instruction fails or the instruction limit is reached. A run without a limit need
not end, so running takes fuel, the number of turns it may take, and gives `none` when the fuel
does not last. With a limit, `limit + 1` turns are always enough.

* More fuel never changes the outcome of a run that ended (`loop_add`).
-/

namespace Broadway

/-- The cause that a data access fault leaves: the address is not mapped. -/
def notMapped : Word := 0x40000000#32

/-- Fetches and executes one instruction. A step that fails leaves the program counter on the
instruction that failed. -/
def Machine.step (m : Machine) : Outcome :=
  match Window.read m.ram 4 m.regs.pc with
  | .error _ => m.fail (.fault .isi m.regs.pc)
  | .ok word =>
    match ({ m with regs := { m.regs with npc := m.regs.pc + 4 } }).execute word with
    | ⟨m, some f⟩ => ⟨m, some f⟩
    | ⟨m, none⟩ => ⟨{ m with regs := { m.regs with pc := m.regs.npc, tb := m.regs.tb + 1 } }, none⟩

/-- Where a run is. -/
inductive DispatchState
  | idle
  | running
  | completed
  | faulted
  | invalid
  deriving DecidableEq

/-- Whether a run has come to an end. -/
def DispatchState.isTerminal : DispatchState → Bool
  | .completed | .faulted | .invalid => true
  | .idle | .running => false

/-- Why a run stopped, and on which instruction. -/
inductive Termination
  /-- The guest returned to the host. -/
  | completed
  | faulted (cause : Cause) (address pc : Word)
  | invalid (reason : Invalid) (pc : Word)
  deriving DecidableEq

namespace Termination

/-- The end of a run whose instruction at `pc` failed. -/
def ofFailure (f : Failure) (pc : Word) : Termination :=
  match f with
  | .fault cause address => .faulted cause address pc
  | .invalid reason => .invalid reason pc

def state : Termination → DispatchState
  | .completed => .completed
  | .faulted .. => .faulted
  | .invalid .. => .invalid

end Termination

/-- A machine with what a run needs: the number of instructions it may execute, zero standing for
no limit, and how far it has come. -/
structure Interpreter where
  machine : Machine
  limit : Nat
  state : DispatchState
  executed : Nat

namespace Interpreter

/-- An interpreter over some memory, with all registers as after a reset. -/
def initial (ram : Ram) (limit : Nat) : Interpreter := ⟨.initial ram, limit, .idle, 0⟩

def regs (i : Interpreter) : Registers := i.machine.regs

def ram (i : Interpreter) : Ram := i.machine.ram

def setRegs (i : Interpreter) (r : Registers) : Interpreter :=
  { i with machine := { i.machine with regs := r } }

def setRam (i : Interpreter) (ram : Ram) : Interpreter :=
  { i with machine := { i.machine with ram := ram } }

/-- Resets all registers. -/
def reset (i : Interpreter) : Interpreter :=
  { i with machine := .initial i.machine.ram, state := .idle, executed := 0 }

/-- Executes the instruction at the program counter and counts it if it completes. -/
def step : Interpreter → Interpreter × Option Failure
  | ⟨machine, limit, state, executed⟩ =>
    match machine.step with
    | ⟨machine, some f⟩ => (⟨machine, limit, state, executed⟩, some f)
    | ⟨machine, none⟩ => (⟨machine, limit, state, executed + 1⟩, none)

/-- Leaves the address of a data access fault, and its cause, where a handler looks for them. -/
def recordFault (r : Registers) : Failure → Registers
  | .fault .dsi address => { r with dar := address, dsisr := notMapped }
  | .fault .alignment address => { r with dar := address }
  | _ => r

/-- Why the run stops before the next instruction, if it does. -/
def stop? (i : Interpreter) : Option Termination :=
  if i.regs.pc = returnSentinel then some .completed
  else if i.limit ≠ 0 ∧ i.limit ≤ i.executed then some (.invalid .limitReached i.regs.pc)
  else none

/-- One turn of a run: stops, or executes an instruction. -/
def turn (i : Interpreter) : Interpreter × Option Termination :=
  match i.stop? with
  | some t => (i, some t)
  | none =>
    match i.step with
    | (i, none) => (i, none)
    | (i, some f) => (i.setRegs (recordFault i.regs f), some (.ofFailure f i.regs.pc))

/-- Takes turns until one of them stops. -/
def loop : (fuel : Nat) → Interpreter → Option (Interpreter × Termination)
  | 0, _ => none
  | n + 1, i =>
    match i.turn with
    | (i, some t) => some ({ i with state := t.state }, t)
    | (i, none) => loop n i

/-- Runs from the current program counter. -/
def run (fuel : Nat) (i : Interpreter) : Option (Interpreter × Termination) :=
  loop fuel { i with state := .running, executed := 0 }

/-- Fuel for every run that a 64-bit instruction counter can count. -/
def ample : Nat := 2 ^ 64

theorem loop_add {n : Nat} {i : Interpreter} {x : Interpreter × Termination}
    (h : loop n i = some x) (k : Nat) : loop (n + k) i = some x := by
  induction n generalizing i with
  | zero => contradiction
  | succ n ih =>
    rw [Nat.succ_add]
    unfold loop at h ⊢
    split at h
    · exact h
    · exact ih h

end Interpreter

end Broadway
