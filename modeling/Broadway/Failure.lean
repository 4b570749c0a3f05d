import Broadway.Word

/-!
# Why an instruction fails

An instruction either faults, when it is well formed but cannot complete, or is invalid, when the
processor does not have it or forbids its operands. Accesses to guest memory have errors of their
own; to the guest each of them is a data storage fault at the address of the access
(`Failure.ofMemory`). Every error is a value, and its wording is in one function.
-/

namespace Broadway

/-- The exceptions that the processor knows. -/
inductive Cause
  | decrementer
  | syscall
  | externalInt
  /-- A load or store outside guest memory. -/
  | dsi
  /-- The program counter is outside guest memory. -/
  | isi
  | alignment
  | fpuUnavailable
  /-- A trap that was taken. -/
  | program
  | performanceMonitor
  | fakeMemcheckHit
  deriving DecidableEq

namespace Cause

/-- Every cause, in the order of its exception bit. -/
def all : List Cause :=
  [.decrementer, .syscall, .externalInt, .dsi, .isi, .alignment, .fpuUnavailable, .program,
    .performanceMonitor, .fakeMemcheckHit]

/-- The place of the cause among the exception bits. -/
def index : Cause → Nat
  | .decrementer => 0
  | .syscall => 1
  | .externalInt => 2
  | .dsi => 3
  | .isi => 4
  | .alignment => 5
  | .fpuUnavailable => 6
  | .program => 7
  | .performanceMonitor => 8
  | .fakeMemcheckHit => 9

/-- The exception bit of the cause. -/
def bit (c : Cause) : Word := 1#32 <<< c.index

def name : Cause → String
  | .decrementer => "decrementer"
  | .syscall => "system call"
  | .externalInt => "external interrupt"
  | .dsi => "DSI"
  | .isi => "ISI"
  | .alignment => "alignment"
  | .fpuUnavailable => "FPU unavailable"
  | .program => "program"
  | .performanceMonitor => "performance monitor"
  | .fakeMemcheckHit => "memcheck hit"

theorem all_getElem?_index (c : Cause) : all[c.index]? = some c := by
  cases c <;> rfl

end Cause

/-- Why an access to guest memory failed, with the address of the access. -/
inductive MemoryError
  | outOfBounds (address : Word) (length : Nat)
  | disconnected (address : Word)
  /-- The memory behind the window reported a failure of its own. -/
  | provider (address : Word) (text : String)
  deriving DecidableEq

namespace MemoryError

def address : MemoryError → Word
  | .outOfBounds a _ => a
  | .disconnected a => a
  | .provider a _ => a

/-- The same failure reported at another address. -/
def relocate (a : Word) : MemoryError → MemoryError
  | .outOfBounds _ n => .outOfBounds a n
  | .disconnected _ => .disconnected a
  | .provider _ t => .provider a t

def message : MemoryError → String
  | .outOfBounds a n => s!"Access of {n} bytes at {a.text} is outside guest memory"
  | .disconnected a => s!"Memory provider is not connected (access at {a.text})"
  | .provider a t => s!"Memory provider error at {a.text}: {t}"

@[simp]
theorem address_relocate (a : Word) (e : MemoryError) : (e.relocate a).address = a := by
  cases e <;> rfl

end MemoryError

/-- Why a word is no instruction, or a run cannot go on. -/
inductive Invalid
  /-- No instruction has this word. -/
  | unknown (word : Word)
  /-- A compare of doublewords. -/
  | doublewordCompare (mnemonic : String)
  /-- A load that updates its base, with no base or with the base as its target. -/
  | loadUpdate (mnemonic : String) (ra rd : Reg)
  /-- An access that updates its base, without a base. -/
  | baseUpdate (mnemonic : String)
  /-- A multiple load that would overwrite its base. -/
  | multipleOverBase (ra rd : Reg)
  /-- A string load that would overwrite a register of its address. -/
  | stringOverSource (mnemonic : String) (source rd : Reg)
  /-- A branch to the count register that would also count. -/
  | countingBranch (bo : BitVec 5)
  /-- A time base register that does not exist. -/
  | timeBase (number : BitVec 10)
  /-- A quantization type that is reserved. -/
  | quantization (bits : BitVec 3)
  /-- The run has executed as many instructions as it may. -/
  | limitReached
  /-- A reason in a caller's own words. -/
  | other (text : String)
  deriving DecidableEq

namespace Invalid

/-- The last `digits` binary digits of a number. -/
def binaryDigits : (digits : Nat) → Nat → String
  | 0, _ => ""
  | k + 1, n => binaryDigits k (n / 2) ++ (Nat.digitChar (n % 2)).toString

def message : Invalid → String
  | .unknown w => s!"unknown instruction {w.text} (opcode {(w >>> 26).toNat})"
  | .doublewordCompare m => s!"{m} with L=1 (64-bit compare)"
  | .loadUpdate m ra rd => s!"{m} with rA={ra.toNat}, rD={rd.toNat} is an invalid form"
  | .baseUpdate m => s!"{m} with rA=0 is an invalid form"
  | .multipleOverBase ra rd =>
    s!"lmw with rA={ra.toNat} inside the loaded range r{rd.toNat}..r31"
  | .stringOverSource m r rd =>
    s!"{m} with r{r.toNat} inside the loaded range starting at r{rd.toNat}"
  | .countingBranch bo => s!"bcctr with BO=0b{binaryDigits 5 bo.toNat} would decrement CTR"
  | .timeBase n => s!"mftb from TBR {n.toNat}"
  | .quantization b => s!"reserved quantization type {b.toNat}"
  | .limitReached => "instruction limit reached"
  | .other t => t

end Invalid

/-- Why an instruction did not complete. -/
inductive Failure
  | fault (cause : Cause) (address : Word)
  | invalid (reason : Invalid)
  deriving DecidableEq

namespace Failure

/-- To the guest an access that fails is a reference to memory that is not mapped. -/
def ofMemory (e : MemoryError) : Failure := .fault .dsi e.address

def message : Failure → String
  | .fault c a => s!"{c.name} exception at {a.text}"
  | .invalid r => s!"Invalid instruction: {r.message}"

end Failure

end Broadway
