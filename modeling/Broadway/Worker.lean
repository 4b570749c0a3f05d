import Broadway.Call

/-!
# The call worker

A worker owns an interpreter and serves requests one at a time, in the order in which they were
submitted, until it is shut down; from then on every request is refused and nothing changes any
more.
-/

namespace Broadway

structure Worker where
  interpreter : Interpreter
  running : Bool

namespace Worker

def spawn (i : Interpreter) : Worker := ⟨i, true⟩

/-- Lets a client work on the interpreter between calls. -/
def withInterpreter {α : Type} (f : Interpreter → Interpreter × α) (w : Worker) :
    Worker × Except CallError α :=
  if w.running then
    let (i, x) := f w.interpreter
    ({ w with interpreter := i }, .ok x)
  else (w, .error .workerStopped)

/-- Calls a guest function. -/
def call (fuel : Nat) (c : FunctionCall) (w : Worker) :
    Option (Worker × Except CallError CallResult) :=
  if w.running then
    (w.interpreter.evaluate fuel c).map fun (i, x) => ({ w with interpreter := i }, x)
  else some (w, .error .workerStopped)

/-- Calls a guest function and tells a listener of the result. A call that was not made tells it
nothing. -/
def callWith {σ : Type} (fuel : Nat) (c : FunctionCall) (l : Listener σ) (memory : σ)
    (w : Worker) : Option (Worker × Except CallError CallResult × σ) :=
  (w.call fuel c).map fun (w, x) =>
    (w, x, match x with
      | .ok result => result.notify l memory
      | .error _ => memory)

/-- Stops the worker. -/
def shutdown (w : Worker) : Worker := { w with running := false }

end Worker

end Broadway
