import Broadway.Proofs.Call.Entry
import Broadway.Proofs.Fault.Record
import Broadway.Proofs.Run.Sentinel

/-!
# A call reports what happened

A call is refused for its arguments, and then nothing has happened, or it is the run that starts
from the entry registers. What the result then says is what the run has left behind
(`CallResult.Reports`): the registers, where and how the run ended, what the fault registers hold,
and the one callback by which a listener learns of it. The three exits of a run differ in what
they touch, so the parts of the report that depend on the exit come from facts about all ends of a
run: the host's address is left in the program counter by a return only
(`Interpreter.Ends.completed_iff`), every other end names the address that is left there
(`Interpreter.Ends.pc_eq`), and the fault registers hold the record of the failure or what the
guest left in them (`Interpreter.Ends.read_faultRegister`).
-/

namespace Broadway

/-! ## Callbacks -/

/-- A call of one of the methods of a listener, with the data that it carries. -/
inductive Callback
  | returned (snapshot : Snapshot)
  | faulted (cause : Cause) (address pc : Word) (snapshot : Snapshot)
  | invalid (reason : Invalid) (pc : Word) (snapshot : Snapshot)

namespace Callback

/-- Makes the call. -/
def deliver {σ : Type} (b : Callback) (l : Listener σ) (memory : σ) : σ :=
  match b with
  | .returned snapshot => l.onReturn snapshot memory
  | .faulted cause address pc snapshot => l.onFault cause address pc snapshot memory
  | .invalid reason pc snapshot => l.onInvalid reason pc snapshot memory

/-- The result of which the callback tells. -/
def result : Callback → CallResult
  | .returned snapshot => ⟨.completed, snapshot⟩
  | .faulted cause address pc snapshot => ⟨.faulted cause address pc, snapshot⟩
  | .invalid reason pc snapshot => ⟨.invalid reason pc, snapshot⟩

end Callback

/-- The listener that remembers how it was called, in order. -/
def Listener.recorder : Listener (List Callback) where
  onReturn snapshot calls := calls ++ [.returned snapshot]
  onFault cause address pc snapshot calls := calls ++ [.faulted cause address pc snapshot]
  onInvalid reason pc snapshot calls := calls ++ [.invalid reason pc snapshot]

/-- A listener is told of a result by one callback, which carries all of it. -/
theorem CallResult.notify_once (r : CallResult) :
    ∃ b : Callback, b.result = r ∧ (∀ calls, r.notify .recorder calls = calls ++ [b]) ∧
      ∀ (σ : Type) (l : Listener σ) (memory : σ), r.notify l memory = b.deliver l memory := by
  obtain ⟨t, snapshot⟩ := r
  cases t with
  | completed => exact ⟨.returned snapshot, rfl, fun _ => rfl, fun _ _ _ => rfl⟩
  | faulted cause address pc =>
      exact ⟨.faulted cause address pc snapshot, rfl, fun _ => rfl, fun _ _ _ => rfl⟩
  | invalid reason pc =>
      exact ⟨.invalid reason pc snapshot, rfl, fun _ => rfl, fun _ _ _ => rfl⟩

/-! ## Ends of a run -/

/-- The address that the end of a run names. -/
def Termination.pc? : Termination → Option Word
  | .completed => none
  | .faulted _ _ pc => some pc
  | .invalid _ pc => some pc

theorem Termination.pc?_ofFailure (f : Failure) (pc : Word) : (ofFailure f pc).pc? = some pc := by
  cases f <;> rfl

namespace Interpreter

variable {i : Interpreter} {k : Nat} {m : Machine} {t : Termination}

/-- A run leaves the host's address in the program counter if it has returned there, and else
never. -/
theorem Ends.completed_iff (h : i.Ends k m t) : t = .completed ↔ m.regs.pc = returnSentinel := by
  cases h with
  | stopped _ hstop =>
      rcases of_stop?_eq_some hstop with ⟨rfl, hpc⟩ | ⟨rfl, hpc⟩
      · exact iff_of_true rfl hpc
      · exact iff_of_false (fun h => by contradiction) hpc
  | @failed m₀ m' f _ hgo hstep =>
      -- the failing instruction is not at the host, and a failure does not move
      refine iff_of_false (Termination.ofFailure_ne_completed f _) ?_
      rw [pc_recordFault, Machine.pc_step_failed hstep]
      exact pc_ne_of_stop?_eq_none hgo

/-- The address that the end of a run names is the one that is left in the program counter. -/
theorem Ends.pc_eq (h : i.Ends k m t) {pc : Word} (hpc : t.pc? = some pc) : m.regs.pc = pc := by
  cases h with
  | stopped _ hstop =>
      rcases of_stop?_eq_some hstop with ⟨rfl, -⟩ | ⟨rfl, -⟩
      · contradiction
      · exact Option.some.inj hpc
  | @failed m₀ m' f _ _ _ =>
      rw [Termination.pc?_ofFailure] at hpc
      rw [pc_recordFault]
      exact Option.some.inj hpc

end Interpreter

/-! ## The report -/

/-- What the result `r` of the call `c` says of the interpreter `j` that the call has made of
`i`. -/
structure CallResult.Reports (r : CallResult) (c : FunctionCall) (i j : Interpreter) : Prop where
  /-- The snapshot shows the registers as they are now. -/
  snapshot : r.snapshot =
    { pc := j.regs.pc, lr := j.regs.lr, ctr := j.regs.ctr, cr := j.regs.cr, xer := j.regs.xer
      msr := j.regs.msr, srr0 := j.regs.srr0, srr1 := j.regs.srr1, dar := j.regs.dar
      dsisr := j.regs.dsisr, fpscr := j.regs.fpscr, tb := j.regs.tb, gpr := j.regs.gpr
      fpr := j.regs.fpr, sr := j.regs.sr, gqr := j.regs.gqr }
  /-- The call has completed if the program counter is at the host. -/
  completed_iff : r.termination = .completed ↔ r.snapshot.pc = 0xDEADBEEF#32
  completed : r.termination = .completed → j.state = .completed
  faulted : ∀ cause address pc, r.termination = .faulted cause address pc →
    j.state = .faulted ∧ pc = r.snapshot.pc
  invalid : ∀ reason pc, r.termination = .invalid reason pc →
    j.state = .invalid ∧ pc = r.snapshot.pc
  dsi : ∀ address pc, r.termination = .faulted .dsi address pc →
    j.regs.dar = address ∧ j.regs.dsisr = 0x40000000#32
  alignment : ∀ address pc, r.termination = .faulted .alignment address pc → j.regs.dar = address
  /-- No other end changes the address of the last fault: it is what the guest last moved there,
  or what it was before the call. -/
  dar : (∀ address pc, r.termination ≠ .faulted .dsi address pc ∧
      r.termination ≠ .faulted .alignment address pc) →
    j.regs.dar = ((i.entering c).machine.written? Spr.dar j.executed).getD i.regs.dar
  /-- Only a data storage fault changes the cause of the last fault. -/
  dsisr : (∀ address pc, r.termination ≠ .faulted .dsi address pc) →
    j.regs.dsisr = ((i.entering c).machine.written? Spr.dsisr j.executed).getD i.regs.dsisr
  /-- A listener is told by one callback, which carries the result. -/
  notified : ∃ b : Callback, b.result = r ∧ (∀ calls, r.notify .recorder calls = calls ++ [b]) ∧
    ∀ (σ : Type) (l : Listener σ) (memory : σ), r.notify l memory = b.deliver l memory

namespace Interpreter

variable {i : Interpreter} {c : FunctionCall}

/-- What a fault register holds at the end of a call's run. -/
theorem Ends.read_after_call {k : Nat} {m : Machine} {t : Termination} (q : FaultRegister)
    (h : (i.entering c).Ends k m t) :
    q.read m.regs =
      ((q.left? t).or ((i.entering c).machine.written? q.number k)).getD (q.read i.regs) := by
  -- the call itself touches no fault register
  have hentry : q.read (i.entering c).machine.regs = q.read i.regs := by
    show q.read (c.enter i.regs) = q.read i.regs
    rw [FunctionCall.enter, FunctionCall.placeIntegers_eq, FunctionCall.placeFloats_eq]
    cases q <;> rfl
  rw [h.read_faultRegister q, hentry]

/-- The result of a call whose run ends is a report of that end. -/
theorem Ends.reports {k : Nat} {m : Machine} {t : Termination} (h : (i.entering c).Ends k m t) :
    CallResult.Reports ⟨t, .capture m.regs⟩ c i ((i.entering c).ended k m t) where
  snapshot := rfl
  completed_iff := h.completed_iff
  completed := by
    intro ht
    exact congrArg Termination.state ht
  faulted := by
    intro cause address pc ht
    exact ⟨congrArg Termination.state ht, (h.pc_eq (congrArg Termination.pc? ht)).symm⟩
  invalid := by
    intro reason pc ht
    exact ⟨congrArg Termination.state ht, (h.pc_eq (congrArg Termination.pc? ht)).symm⟩
  dsi := by
    rintro address pc rfl
    exact ⟨h.read_after_call .dar, h.read_after_call .dsisr⟩
  alignment := by
    rintro address pc rfl
    exact h.read_after_call .dar
  dar := by
    intro hother
    have hread := h.read_after_call .dar
    rw [FaultRegister.left?_eq_none (fun address pc => (hother address pc).1)
      (fun _ address pc => (hother address pc).2), Option.none_or] at hread
    exact hread
  dsisr := by
    intro hother
    have hread := h.read_after_call .dsisr
    rw [FaultRegister.left?_eq_none hother (fun hdar => by contradiction), Option.none_or] at hread
    exact hread
  notified := CallResult.notify_once _

/-- A call whose arguments fit is the run from its entry. -/
theorem evaluate_eq_run (hintegers : c.integers.length ≤ 8) (hfloats : c.floats.length ≤ 8)
    (fuel : Nat) :
    i.evaluate fuel c =
      (run fuel (i.entering c)).map fun x => (x.1, .ok ⟨x.2, .capture x.1.regs⟩) := by
  unfold evaluate entering
  rw [FunctionCall.refusal_none hintegers hfloats]
  cases run fuel (i.setRegs (c.enter i.regs)) with
  | none => rfl
  | some x => rfl

/-- A call reports exactly what happened. With too many arguments of a kind it is refused, and
nothing has happened; integers are counted first. Otherwise it is the run from the registers that
have the arguments placed and the return to the host set up, and if that run ends, the result is a
report of its end. -/
theorem evaluate_reports (i : Interpreter) (c : FunctionCall) :
    (8 < c.integers.length → ∀ fuel, i.evaluate fuel c =
      some (i, .error (.tooManyArguments .integer c.integers.length))) ∧
    (c.integers.length ≤ 8 → 8 < c.floats.length → ∀ fuel, i.evaluate fuel c =
      some (i, .error (.tooManyArguments .floatingPoint c.floats.length))) ∧
    (c.integers.length ≤ 8 → c.floats.length ≤ 8 →
      c.Enters i.regs (i.entering c).regs ∧
      i.entering c = { i with machine := ⟨(i.entering c).regs, i.ram⟩ } ∧
      (∀ fuel, i.evaluate fuel c =
        (run fuel (i.entering c)).map fun x => (x.1, .ok ⟨x.2, .capture x.1.regs⟩)) ∧
      ∀ fuel j r, i.evaluate fuel c = some (j, .ok r) → r.Reports c i j) := by
  refine ⟨?_, ?_, ?_⟩
  · intro hmany fuel
    rw [evaluate, FunctionCall.refusal_integers hmany]
  · intro hintegers hmany fuel
    rw [evaluate, FunctionCall.refusal_floats hintegers hmany]
  · intro hintegers hfloats
    refine ⟨c.enters hintegers hfloats i.regs, rfl, evaluate_eq_run hintegers hfloats, ?_⟩
    intro fuel j r heval
    rw [evaluate_eq_run hintegers hfloats, Option.map_eq_some_iff] at heval
    obtain ⟨⟨u, t⟩, hrun, heq⟩ := heval
    cases heq
    obtain ⟨k, m, -, hend, rfl⟩ := run_eq_some_iff.1 hrun
    exact hend.reports

/-- Nine arguments of a kind are refused; a load from an address outside the memory faults, and the
result, the state and the fault registers all tell so. -/
theorem evaluate_reports_fault :
    let i := initial (.ofBytes ⟨#[0x80, 0x64, 0x00, 0x00]⟩) 0
    let c : FunctionCall := ⟨0, [0, 0x100], []⟩
    i.evaluate 0 ⟨0, List.replicate 9 0, []⟩ = some (i, .error (.tooManyArguments .integer 9)) ∧
    i.evaluate 0 ⟨0, [], List.replicate 9 0⟩ =
      some (i, .error (.tooManyArguments .floatingPoint 9)) ∧
    ∃ j r, i.evaluate 1 c = some (j, .ok r) ∧ r.Reports c i j ∧
      r.termination = .faulted .dsi 0x100 0 ∧ r.snapshot.pc = 0 ∧ j.state = .faulted ∧
      j.regs.dar = 0x100 ∧ j.regs.dsisr = 0x40000000#32 := by
  intro i c
  refine ⟨(evaluate_reports i ⟨0, List.replicate 9 0, []⟩).1 (by decide) 0,
    (evaluate_reports i ⟨0, [], List.replicate 9 0⟩).2.1 (by decide) (by decide) 0, ?_⟩
  have hrun : (i.evaluate 1 c).bind (fun x => x.2.toOption.map (·.termination))
      = some (.faulted .dsi 0x100 0) := by
    decide
  obtain ⟨⟨j, x⟩, heval, hx⟩ := Option.bind_eq_some_iff.1 hrun
  cases x with
  | error e => contradiction
  | ok r =>
      have hfaulted : r.termination = .faulted .dsi 0x100 0 := Option.some.inj hx
      obtain ⟨-, -, -, hreports⟩ := (evaluate_reports i c).2.2 (by decide) (by decide)
      have hreport := hreports 1 j r heval
      obtain ⟨hstate, hpc⟩ := hreport.faulted .dsi 0x100 0 hfaulted
      obtain ⟨hdar, hdsisr⟩ := hreport.dsi 0x100 0 hfaulted
      exact ⟨j, r, heval, hreport, hfaulted, hpc.symm, hstate, hdar, hdsisr⟩

end Interpreter

end Broadway
