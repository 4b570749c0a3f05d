import Broadway.Proofs.Call.Entry
import Broadway.Proofs.Checked.Fixed
import Broadway.Proofs.Checked.Float
import Broadway.Proofs.Checked.Memory
import Broadway.Proofs.Checked.Operands
import Broadway.Proofs.Instr.Dispatch
import Broadway.Proofs.Run.Step

/-!
# Execution with checked arithmetic

A word is looked up in the tables, taken apart, read as an instruction and carried out, each under
checks; a call places its arguments and counts its instructions under checks. None of it is ever
stopped, and what comes out is what comes out without checks.

* No word stops the machine, whatever its registers and its memory are (`Checked.execute_eq`), and
  no step does before the counter of instructions runs out (`Checked.step_eq`).
* No call stops it that was not refused (`Checked.enter_eq`): from the eighth argument on there
  are registers left.
* A run of fewer turns than the counter can count is not stopped (`Checked.loop_eq`), and so a
  call is carried out from its arguments to its end (`Checked.evaluate_eq`).
-/

namespace Broadway.Checked

/-! ## Instructions -/

/-- Carries out an instruction. A trap only compares. -/
def exec (i : Instr) (m : Machine) : Checked Outcome := do
  match i with
  | .fixed i => return m.done (← execFixed i m.regs)
  | .branch i => return m.done (← execBranch i m.regs)
  | .condition i => return m.done (← execCondition i m.regs)
  | .system i => return m.done (← execSystem i m.regs)
  | .float i => return m.done (← execFloat i m.regs)
  | .paired i => return m.done (← execPaired i m.regs)
  | .trap .. => return i.exec m
  | .memory i => execMemory i m

/-- Carries out the instruction that a word stands for. -/
def execute (m : Machine) (w : Word) : Checked Outcome := do
  match ← kind? w with
  | none => return m.fail (.invalid (.unknown w))
  | some k =>
    match ← ofForm (← decode k w) with
    | .error e => return m.fail (.invalid e)
    | .ok i => exec i m

theorem exec_eq (i : Instr) (m : Machine) : exec i m = .ok (i.exec m) := by
  cases i with
  | trap => rfl
  | memory i => exact execMemory_eq i m
  | _ =>
    simp only [exec, Instr.exec, execFixed_eq, execBranch_eq, execCondition_eq, execSystem_eq,
      execFloat_eq, execPaired_eq, ok_bind, pure_eq]

/-- **No word stops the machine.** -/
theorem execute_eq (m : Machine) (w : Word) : execute m w = .ok (m.execute w) := by
  rw [execute, kind?_eq, ok_bind, Machine.execute, ← Instr.dispatch_eq_ofWord, Instr.dispatch]
  cases FormKind.ofTables? w with
  | none => rfl
  | some k =>
    dsimp only
    rw [decode_eq, ok_bind, ofForm_eq, ok_bind]
    cases Instr.ofForm (.decode k w) with
    | error => rfl
    | ok i => exact exec_eq i m

/-! ## Steps -/

/-- Fetches and executes one instruction. -/
def fetchAndExecute (m : Machine) : Checked Outcome := do
  match ← readBytes m.ram m.regs.pc 4 with
  | .error _ => return m.fail (.fault .isi m.regs.pc)
  | .ok bytes =>
    match ← execute m.fetched (Bytes.toWord 4 bytes) with
    | ⟨m, some f⟩ => return ⟨m, some f⟩
    | ⟨m, none⟩ => return ⟨m.advanced, none⟩

/-- Executes the instruction at the program counter and counts it if it completes. -/
def step : Interpreter → Checked (Interpreter × Option Failure)
  | ⟨machine, limit, state, executed⟩ => do
    match ← fetchAndExecute machine with
    | ⟨machine, some f⟩ => return (⟨machine, limit, state, executed⟩, some f)
    | ⟨machine, none⟩ =>
      let count ← add (BitVec.ofNat 64 executed) 1#64
      return (⟨machine, limit, state, count.toNat⟩, none)

/-- One turn of a run: stops, or executes an instruction. -/
def turn (i : Interpreter) : Checked (Interpreter × Option Termination) := do
  match i.stop? with
  | some t => return (i, some t)
  | none =>
    match ← step i with
    | (i, none) => return (i, none)
    | (i, some f) =>
      return (i.setRegs (Interpreter.recordFault i.regs f), some (.ofFailure f i.regs.pc))

/-- Takes turns until one of them ends the run. -/
def loop : (fuel : Nat) → Interpreter → Checked (Option (Interpreter × Termination))
  | 0, _ => .ok none
  | n + 1, i => do
    match ← turn i with
    | (i, some t) => return some ({ i with state := t.state }, t)
    | (i, none) => loop n i

theorem fetchAndExecute_eq (m : Machine) : fetchAndExecute m = .ok m.step := by
  rw [fetchAndExecute, readBytes_eq, ok_bind, Machine.step, Window.read]
  cases Window.readBytes m.ram m.regs.pc 4 with
  | error => rfl
  | ok bytes =>
    dsimp only [Except.map]
    rw [execute_eq, ok_bind, Machine.fetched]
    obtain ⟨machine, failure⟩ := Machine.execute _ _
    cases failure <;> rfl

/-- No step is stopped as long as the counter can go on. -/
theorem step_eq {i : Interpreter} (h : i.executed < 2 ^ 64 - 1) : step i = .ok i.step := by
  obtain ⟨machine, limit, state, executed⟩ := i
  have hlt : executed + 1 < 2 ^ 64 := Nat.add_lt_of_lt_sub h
  have hadd : add (BitVec.ofNat 64 executed) 1#64 = .ok (BitVec.ofNat 64 (executed + 1)) :=
    add_ofNat hlt
  have hcount : (BitVec.ofNat 64 (executed + 1)).toNat = executed + 1 := toNat_ofNat_of_lt hlt
  rw [step, fetchAndExecute_eq, ok_bind, Interpreter.step]
  obtain ⟨machine', failure⟩ := machine.step
  cases failure with
  | some => rfl
  | none =>
    dsimp only
    rw [hadd, ok_bind, hcount, pure_eq]

theorem turn_eq {i : Interpreter} (h : i.executed < 2 ^ 64 - 1) : turn i = .ok i.turn := by
  unfold turn Interpreter.turn
  cases i.stop? with
  | some => rfl
  | none =>
    dsimp only
    rw [step_eq h, ok_bind]
    obtain ⟨i', failure⟩ := i.step
    cases failure <;> rfl

/-- A step that completes has counted one instruction. -/
theorem executed_of_step {i j : Interpreter} (h : i.step = (j, none)) :
    j.executed = i.executed + 1 := by
  obtain ⟨machine, limit, state, executed⟩ := i
  unfold Interpreter.step at h
  rcases hstep : machine.step with ⟨machine', f | f⟩
  · simp only [hstep] at h
    cases h
    rfl
  · simp only [hstep] at h
    cases h

/-- A turn that goes on has made a step. -/
theorem step_of_turn {i j : Interpreter} (h : i.turn = (j, none)) : i.step = (j, none) := by
  unfold Interpreter.turn at h
  split at h
  · cases h
  · split at h
    · next hstep => cases h; exact hstep
    · cases h

/-- A run is not stopped whose turns the counter can count. -/
theorem loop_eq {fuel : Nat} {i : Interpreter} (h : i.executed + fuel < 2 ^ 64) :
    loop fuel i = .ok (i.loop fuel) := by
  induction fuel generalizing i with
  | zero => rfl
  | succ n ih =>
      rw [loop, turn_eq (by omega), ok_bind, Interpreter.loop]
      rcases hturn : i.turn with ⟨j, t | t⟩
      · -- what the turn has counted, the fuel has lost
        have hcount := executed_of_step (step_of_turn hturn)
        exact ih (by omega)
      · rfl

/-! ## Calls -/

/-- Places arguments in the registers from number `first + i` on. -/
def place {α : Type} (put : Registers → Reg → α → Registers) (first : Nat) :
    (i : Nat) → Registers → List α → Checked Registers
  | _, r, [] => .ok r
  | i, r, v :: rest => do
    let number ← add (BitVec.ofNat 64 first) (BitVec.ofNat 64 i)
    let target ← index 5 number.toNat
    place put first (i + 1) (put r target v) rest

/-- The registers on entry to a function. -/
def enter (c : FunctionCall) (r : Registers) : Checked Registers := do
  let r ← place Registers.setGpr 3 0 r c.integers
  let r ← place Registers.setPs0 1 0 r c.floats
  return { r with lr := returnSentinel, pc := c.entry, reservation := none }

/-- Calls a guest function and runs it to its end. -/
def evaluate (fuel : Nat) (c : FunctionCall) (i : Interpreter) :
    Checked (Option (Interpreter × Except CallError CallResult)) := do
  match c.refusal with
  | some e => return some (i, .error e)
  | none =>
    let r ← enter c i.regs
    match ← loop fuel { i.setRegs r with state := .running, executed := 0 } with
    | some (i, t) => return some (i, .ok ⟨t, .capture i.regs⟩)
    | none => return none

/-- Arguments are placed one register after the other, as long as there are registers left. -/
theorem place_eq {α : Type} {put : Registers → Reg → α → Registers}
    (all : Registers → Reg → List α → Registers) (hnil : ∀ r first, all r first [] = r)
    (hcons : ∀ r first v rest, all r first (v :: rest) = all (put r first v) (first + 1) rest)
    {first i : Nat} {vs : List α} (h : first + i + vs.length ≤ 32) (r : Registers) :
    place put first i r vs = .ok (all r (BitVec.ofNat 5 (first + i)) vs) := by
  induction vs generalizing i r with
  | nil => rw [place, hnil]
  | cons v rest ih =>
      have hlength : first + i + (rest.length + 1) ≤ 32 := h
      have hnumber : (BitVec.ofNat 64 (first + i)).toNat = first + i :=
        toNat_ofNat_of_lt (by omega)
      have hnext : BitVec.ofNat 5 (first + i) + 1 = BitVec.ofNat 5 (first + (i + 1)) := by
        rw [← Nat.add_assoc, BitVec.ofNat_add (first + i)]
        rfl
      rw [place, add_ofNat (by omega), ok_bind, hnumber, index_eq (by omega), ok_bind,
        ih (by omega), hcons, hnext]

/-- A call that is not refused has a register for each of its arguments. -/
theorem enter_eq {c : FunctionCall} (h : c.refusal = none) (r : Registers) :
    enter c r = .ok (c.enter r) := by
  have hintegers : ¬8 < c.integers.length := by
    intro hmany
    rw [FunctionCall.refusal_integers hmany] at h
    contradiction
  have hfloats : ¬8 < c.floats.length := by
    intro hmany
    rw [FunctionCall.refusal_floats (Nat.le_of_not_lt hintegers) hmany] at h
    contradiction
  have hgpr (r : Registers) : place Registers.setGpr 3 0 r c.integers
      = .ok (FunctionCall.placeIntegers r 3 c.integers) :=
    place_eq FunctionCall.placeIntegers (fun _ _ => rfl) (fun _ _ _ _ => rfl) (by omega) r
  have hfpr (r : Registers) : place Registers.setPs0 1 0 r c.floats
      = .ok (FunctionCall.placeFloats r 1 c.floats) :=
    place_eq FunctionCall.placeFloats (fun _ _ => rfl) (fun _ _ _ _ => rfl) (by omega) r
  rw [enter, hgpr, ok_bind, hfpr, ok_bind]
  rfl

/-- A call is not stopped, from its arguments to its end. -/
theorem evaluate_eq {fuel : Nat} (h : fuel < 2 ^ 64) (c : FunctionCall) (i : Interpreter) :
    evaluate fuel c i = .ok (i.evaluate fuel c) := by
  unfold evaluate Interpreter.evaluate
  cases hrefusal : c.refusal with
  | some => rfl
  | none =>
    dsimp only
    rw [enter_eq hrefusal, ok_bind, loop_eq (by rwa [Nat.zero_add]), ok_bind, Interpreter.run]
    cases Interpreter.loop _ _ <;> rfl

/-! ## Nothing is stopped -/

/-- **Execution under checks is execution.** No word stops any machine, no step stops that can
still be counted, and no call stops at its arguments that is not refused. -/
theorem execution_never_traps :
    (∀ (m : Machine) (w : Word), execute m w = .ok (m.execute w)) ∧
    (∀ i : Interpreter, i.executed < 2 ^ 64 - 1 → step i = .ok i.step) ∧
    ∀ c : FunctionCall, c.refusal = none → ∀ r : Registers, enter c r = .ok (c.enter r) :=
  ⟨execute_eq, fun _ => step_eq, fun _ => enter_eq⟩

/-- The last instruction that can be counted, and a call with as many arguments of either kind as
are passed in registers. -/
theorem execution_never_traps_at_bounds :
    let i : Interpreter :=
      ⟨.initial (.ofBytes ⟨#[0x60, 0x00, 0x00, 0x00]⟩), 0, .running, 2 ^ 64 - 2⟩
    let c : FunctionCall :=
      ⟨0x80000000#32, List.replicate 8 7#32, List.replicate 8 Double.one⟩
    i.executed < 2 ^ 64 - 1 ∧ (∃ j, step i = .ok (j, none) ∧ j.executed = 2 ^ 64 - 1) ∧
      c.refusal = none ∧
      ∃ r, enter c .initial = .ok r ∧ r.gpr.read 10 = 7#32 ∧ (r.fpr.read 8).ps0 = Double.one := by
  intro i c
  have hlast : i.executed < 2 ^ 64 - 1 := by decide
  have hcompleted : i.step = (i.step.1, none) := by rfl
  have hstep : step i = .ok i.step := execution_never_traps.2.1 i hlast
  have hmade : c.refusal = none := rfl
  have henter : enter c .initial = .ok (c.enter .initial) :=
    execution_never_traps.2.2 c hmade .initial
  rw [hcompleted] at hstep
  exact ⟨hlast, ⟨i.step.1, hstep, by rfl⟩, hmade, c.enter .initial, henter, by decide +kernel,
    by decide +kernel⟩

end Broadway.Checked
