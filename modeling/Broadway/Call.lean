import Broadway.Interpreter

/-!
# Calling guest functions

The host calls a guest function by placing arguments in registers, pointing the link register at
the return sentinel and running. The result tells how the run ended and what the registers then
held; a listener learns of it through exactly one of its methods.
-/

namespace Broadway

/-- At most this many arguments of a kind are passed in registers. -/
def maxRegisterArguments : Nat := 8

/-- A guest function to be called. -/
structure FunctionCall where
  entry : Word
  integers : List Word
  floats : List Double

inductive ArgumentKind
  | integer | floatingPoint
  deriving DecidableEq

def ArgumentKind.name : ArgumentKind → String
  | .integer => "integer"
  | .floatingPoint => "floating-point"

/-- Why a call was not made. -/
inductive CallError
  | tooManyArguments (kind : ArgumentKind) (count : Nat)
  | workerStopped
  deriving DecidableEq

def CallError.message : CallError → String
  | .tooManyArguments kind count =>
    s!"Too many {kind.name} arguments: {count} "
      ++ s!"(at most {maxRegisterArguments} are passed in registers)"
  | .workerStopped => "Call worker has stopped"

namespace FunctionCall

/-- Why the arguments of a call cannot be passed; integers are counted first. -/
def refusal (c : FunctionCall) : Option CallError :=
  if maxRegisterArguments < c.integers.length then
    some (.tooManyArguments .integer c.integers.length)
  else if maxRegisterArguments < c.floats.length then
    some (.tooManyArguments .floatingPoint c.floats.length)
  else none

/-- Places integers in registers from `first` on. -/
def placeIntegers (r : Registers) (first : Reg) : List Word → Registers
  | [] => r
  | v :: rest => placeIntegers (r.setGpr first v) (first + 1) rest

/-- Places numbers in `ps0` of the registers from `first` on. -/
def placeFloats (r : Registers) (first : Reg) : List Double → Registers
  | [] => r
  | v :: rest => placeFloats (r.setPs0 first v) (first + 1) rest

/-- The registers on entry to the function. -/
def enter (c : FunctionCall) (r : Registers) : Registers :=
  { placeFloats (placeIntegers r 3 c.integers) 1 c.floats with
    lr := returnSentinel
    pc := c.entry
    reservation := none }

end FunctionCall

/-- The registers at the end of a call. -/
structure Snapshot where
  pc : Word
  lr : Word
  ctr : Word
  cr : Word
  xer : Word
  msr : Word
  srr0 : Word
  srr1 : Word
  dar : Word
  dsisr : Word
  fpscr : Word
  tb : BitVec 64
  gpr : Bank 5 Word
  fpr : Bank 5 Lanes
  sr : Bank 4 Word
  gqr : Bank 3 Word
  deriving DecidableEq

namespace Snapshot

def capture (r : Registers) : Snapshot where
  pc := r.pc
  lr := r.lr
  ctr := r.ctr
  cr := r.cr
  xer := r.xer
  msr := r.msr
  srr0 := r.srr0
  srr1 := r.srr1
  dar := r.dar
  dsisr := r.dsisr
  fpscr := r.fpscr
  tb := r.tb
  gpr := r.gpr
  fpr := r.fpr
  sr := r.sr
  gqr := r.gqr

/-- The integer that the function returned. -/
def returnValue (s : Snapshot) : Word := s.gpr.read 3

/-- The floating point number that the function returned. -/
def floatReturn (s : Snapshot) : Double := (s.fpr.read 1).ps0

end Snapshot

/-- How a call ended, and the registers at its end. -/
structure CallResult where
  termination : Termination
  snapshot : Snapshot
  deriving DecidableEq

/-- Learns of the end of a call. `σ` is what the listener remembers. -/
structure Listener (σ : Type) where
  onReturn : Snapshot → σ → σ
  onFault : (cause : Cause) → (address pc : Word) → Snapshot → σ → σ
  onInvalid : (reason : Invalid) → (pc : Word) → Snapshot → σ → σ

namespace CallResult

def isCompleted (c : CallResult) : Bool := c.termination = .completed

/-- Tells a listener of the result. -/
def notify {σ : Type} (c : CallResult) (l : Listener σ) (memory : σ) : σ :=
  match c.termination with
  | .completed => l.onReturn c.snapshot memory
  | .faulted cause address pc => l.onFault cause address pc c.snapshot memory
  | .invalid reason pc => l.onInvalid reason pc c.snapshot memory

end CallResult

namespace Interpreter

/-- Calls a guest function and runs it to its end. A call that is refused changes nothing; `none`
means that the fuel did not last. -/
def evaluate (fuel : Nat) (c : FunctionCall) (i : Interpreter) :
    Option (Interpreter × Except CallError CallResult) :=
  match c.refusal with
  | some e => some (i, .error e)
  | none =>
    match run fuel (i.setRegs (c.enter i.regs)) with
    | some (i, t) => some (i, .ok ⟨t, .capture i.regs⟩)
    | none => none

/-! ## The host's view -/

/-- Sets the stack pointer. -/
def setStackPointer (i : Interpreter) (v : Word) : Interpreter := i.setRegs (i.regs.setGpr 1 v)

/-- Sets the anchor of the constant small data. -/
def setConstantAnchor (i : Interpreter) (v : Word) : Interpreter := i.setRegs (i.regs.setGpr 2 v)

/-- Sets the anchor of the writable small data. -/
def setDataAnchor (i : Interpreter) (v : Word) : Interpreter := i.setRegs (i.regs.setGpr 13 v)

def readMemory (i : Interpreter) (address : Word) (length : Nat) : Except MemoryError (List Byte) :=
  Window.readBytes i.ram address length

def writeMemory (i : Interpreter) (address : Word) (data : List Byte) :
    Interpreter × Option MemoryError :=
  let (e, ram) := Window.writeBytes i.ram address data
  (i.setRam ram, e)

/-- Writes instruction words one after another, up to the first that fails. -/
def writeCode (i : Interpreter) (address : Word) : List Word → Interpreter × Option MemoryError
  | [] => (i, none)
  | w :: rest =>
    match i.writeMemory address (Bytes.ofWord 4 w) with
    | (i, none) => writeCode i (address + 4) rest
    | (i, some e) => (i, some e)

end Interpreter

end Broadway
