import Broadway.Proofs.Worker.Stage

/-!
# A worker refines the bare interpreter

The turns of a dialogue are put together to runs, for every order of turns. A run stays in step with
the session of its requests (`Stage.run`), and comes to its end if everyone gets a turn again and
again (`finishes`), since the turn that helps stays the same until it comes. Both give the
refinement, `worker_refines_interpreter`.
-/

namespace Broadway

variable {α σ : Type}

namespace Dialogue

variable {fuel : Nat} {todo rest : List (Request α σ)} {x y : Session α σ} {d : Dialogue α σ}

/-! ## Runs -/

section Run

variable (schedule : Nat → Turn) (hstart : Stage fuel todo x d)

include hstart

/-- Every schedule keeps a dialogue in step with the session. -/
theorem Stage.run (n : Nat) : ∃ rest y, Stage fuel rest y (d.run fuel schedule n) ∧
    Serves fuel x todo y rest := by
  induction n with
  | zero => exact ⟨todo, x, hstart, .refl fuel x todo⟩
  | succ n ih =>
      obtain ⟨rest, y, hstage, hserves⟩ := ih
      obtain ⟨rest', z, hstage', hserves'⟩ := (hstage.turn (schedule n)).stage
      exact ⟨rest', z, hstage', hserves.trans hserves'⟩

variable (hall : x.serveAll fuel todo ≠ none)

include hall

theorem nears_run {n : Nat} (hrank : (d.run fuel schedule n).rank ≠ 0) :
    Nears (d.run fuel schedule n) (schedule n) (d.run fuel schedule (n + 1)) := by
  obtain ⟨rest, y, hstage, done, rfl, hdone⟩ := hstart.run schedule n
  refine (hstage.turn (schedule n)).nears ?_ hrank
  rwa [Session.serveAll_append, hdone] at hall

/-- When the helpful turn comes, at the latest, the dialogue is nearer to its end. -/
theorem nearer_of_helpful {n k : Nat} (hrank : (d.run fuel schedule n).rank ≠ 0)
    (hhelpful : schedule (n + k) = (d.run fuel schedule n).helpful) :
    ∃ m, (d.run fuel schedule m).rank < (d.run fuel schedule n).rank := by
  induction k generalizing n with
  | zero =>
      rcases nears_run schedule hstart hall hrank with hlt | ⟨hne, -⟩
      · exact ⟨n + 1, hlt⟩
      · exact absurd hhelpful hne
  | succ k ih =>
      rcases nears_run schedule hstart hall hrank with hlt | ⟨-, hsame, hhelps⟩
      · exact ⟨n + 1, hlt⟩
      · have hnext : schedule (n + 1 + k) = (d.run fuel schedule (n + 1)).helpful := by
          rw [hhelps, ← hhelpful, Nat.add_right_comm]
          rfl
        rw [← hsame] at hrank ⊢
        exact ih hrank hnext

/-- Under a fair schedule nothing remains to be done. -/
theorem finishes (hfair : Fair schedule) : ∃ n, (d.run fuel schedule n).rank = 0 := by
  suffices hmost : ∀ k n, (d.run fuel schedule n).rank ≤ k →
      ∃ m, (d.run fuel schedule m).rank = 0 from hmost _ 0 (Nat.le_refl _)
  intro k
  induction k with
  | zero => exact fun n hn => ⟨n, Nat.le_zero.1 hn⟩
  | succ k ih =>
      intro n hn
      by_cases hrank : (d.run fuel schedule n).rank = 0
      · exact ⟨n, hrank⟩
      · obtain ⟨l, hl⟩ := hfair (d.run fuel schedule n).helpful n
        obtain ⟨m, hm⟩ := nearer_of_helpful schedule hstart hall hrank hl
        exact ih m (by omega)

end Run

theorem run_add (fuel : Nat) (schedule : Nat → Turn) (d : Dialogue α σ) (n k : Nat) :
    d.run fuel schedule (n + k) =
      (d.run fuel schedule n).run fuel (fun m => schedule (n + m)) k := by
  induction k with
  | zero => rfl
  | succ k ih => rw [← Nat.add_assoc, run, run, ih]

/-- When nothing remains to be done, all requests are answered. -/
theorem Stage.eq_nil (h : Stage fuel todo x d) (hrank : d.rank = 0) : todo = [] := by
  cases h with
  | ready | stopped =>
      have hlength : 8 * todo.length + 0 = 0 := hrank
      exact List.length_eq_zero_iff.1 (by omega)
  | sending | serving | replying | replied | exited => exact absurd hrank (Nat.succ_ne_zero _)
  | posted | joining => exact absurd hrank (Nat.succ_ne_zero _)

/-- When all requests are answered, the record of a dialogue is that of the session. -/
theorem Stage.session_eq (h : Stage fuel [] x d) : d.session = x := by
  cases h with
  | ready | stopped => rfl

theorem Stage.run_nil (h : Stage fuel [] x d) (schedule : Nat → Turn) (n : Nat) :
    (d.run fuel schedule n).session = x := by
  obtain ⟨rest, y, hstage, done, hdone, hserve⟩ := h.run schedule n
  obtain ⟨rfl, rfl⟩ := List.nil_eq_append_iff.1 hdone
  cases hserve
  exact hstage.session_eq

/-! ## Stopping -/

theorem running_undertake {r : Request α σ} (h : d.session.worker.running = false) :
    (d.undertake r).session.worker.running = false := by
  rw [undertake]
  split
  · split <;> exact h
  · simp only
    split <;> rfl

theorem running_clientTurn (h : d.session.worker.running = false) :
    d.clientTurn.session.worker.running = false := by
  rw [clientTurn]
  split
  case h_1 =>
    split
    · exact h
    · next r rest _ => exact running_undertake (d := { d with pending := rest }) h
  case h_2 | h_3 =>
    split
    · exact h
    · split <;> exact h
  case h_4 => split <;> exact h

theorem running_workerTurn (h : d.session.worker.running = false) :
    (d.workerTurn fuel).session.worker.running = false := by
  rw [workerTurn]
  split
  case h_3 =>
    rw [execute]
    split <;> exact h
  case h_1 | h_2 => split <;> exact h
  case h_4 | h_5 => exact h

/-- The flag of a worker that is to stop is never set again. -/
theorem running_turn (h : d.session.worker.running = false) (t : Turn) :
    (d.turn fuel t).session.worker.running = false := by
  cases t with
  | client => exact running_clientTurn h
  | worker => exact running_workerTurn h
  | timeout =>
      rw [turn, timeout]
      split <;> exact h

theorem running_run {schedule : Nat → Turn} {n m : Nat} (hle : n ≤ m)
    (h : (d.run fuel schedule n).session.worker.running = false) :
    (d.run fuel schedule m).session.worker.running = false := by
  induction hle with
  | refl => exact h
  | step _ ih => exact running_turn ih _

/-! ## The refinement -/

/-- What holds of a dialogue at any time, when `answers` is what the bare interpreter `i` answers to
the requests before the first shutdown and `j` is what they make of it. -/
structure Agrees (fuel : Nat) (requests : List (Request α σ)) (i : Interpreter) (memory : σ)
    (j : Interpreter) (answers : List (Answer α)) (d : Dialogue α σ) : Prop where
  /-- The jobs before the first shutdown are done in order, and each of them once. -/
  executed : d.session.executed <+: Request.accepted requests
  /-- They make of the interpreter what they make of the bare one. -/
  performed : d.session.Performed fuel i
  answers : d.session.answers <+: Request.answered requests answers
  heard : Heard (requests.take d.session.answers.length) d.session.answers memory d.session.memory
  /-- A worker that is to stop has nothing left to do, and does nothing any more. -/
  stopped : d.session.worker.running = false →
    d.session.executed = Request.accepted requests ∧ d.session.worker = ⟨j, false⟩

theorem start_stage (fuel : Nat) (requests : List (Request α σ)) (i : Interpreter) (memory : σ) :
    Stage fuel requests (.start i memory) (start requests i memory) :=
  .ready (start requests i memory) requests .checking rfl

theorem Stage.agrees {requests : List (Request α σ)} {i j : Interpreter} {memory : σ}
    {answers : List (Answer α)}
    (hall : (Session.start i memory).serveAll fuel requests = some y)
    (hinterpreter : y.worker.interpreter = j) (hexecuted : y.executed = Request.accepted requests)
    (hanswers : y.answers = Request.answered requests answers)
    (h : Stage fuel rest x d) (hserves : Serves fuel (.start i memory) requests x rest) :
    Agrees fuel requests i memory j answers d := by
  -- what the worker has done and what the client has are states of one session
  obtain ⟨z, rest', hz, hworker, hdone⟩ := h.worker
  obtain ⟨hclient, hmemory⟩ := h.client
  have hgrows : x.Grows y := hserves.grows hall
  have hgrows' : z.Grows y := (hserves.trans hz).grows hall
  obtain ⟨done, -, hserve⟩ := hserves.trans hz
  obtain ⟨served, rfl, hserved⟩ := hserves
  obtain ⟨given, hgiven, hheard⟩ := Session.heard hserved
  constructor
  case executed =>
    rw [hdone, ← hexecuted]
    exact hgrows'.executed
  case performed =>
    have hperformed : z.Performed fuel i := Session.serveAll_preserves
      (fun _ _ _ hx hserve => hx.serve hserve) ⟨[], rfl⟩ hserve
    obtain ⟨more, hmore⟩ := hperformed
    exact ⟨more, by rw [hdone, hworker, hmore]⟩
  case answers =>
    rw [hclient, ← hanswers]
    exact hgrows.answers
  case heard =>
    have hlength : x.answers = given := hgiven
    rw [hclient, hmemory, hlength, hheard.length, List.take_left]
    exact hheard
  case stopped =>
    intro hrunning
    rw [hworker] at hrunning
    obtain ⟨hsame, hsame'⟩ := hgrows'.stopped hrunning
    refine ⟨?_, ?_⟩
    · rw [hdone, ← hsame', hexecuted]
    · rw [hworker, ← hinterpreter, hsame, ← hrunning]

end Dialogue

open Dialogue

/-- **A worker refines the bare interpreter**, whatever the client asks of it and in whatever order
the client, the thread and the time-outs take turns. Served one after the other, the requests before
the first shutdown do to the interpreter and answer what their jobs do to a bare one and answer, and
those from there on are refused. A dialogue is in step with this at any time, does nothing any more
once the worker is to stop, and comes to the same end if nobody is kept from its turn for ever. -/
theorem worker_refines_interpreter {fuel : Nat} {requests : List (Request α σ)}
    {i j : Interpreter} {answers : List (Answer α)}
    (hserved : Job.performAll fuel i (Request.accepted requests) = some (j, answers))
    (memory : σ) :
    ∃ y, (Session.start i memory).serveAll fuel requests = some y ∧
      y.worker.interpreter = j ∧ y.executed = Request.accepted requests ∧
      y.answers = Request.answered requests answers ∧ Heard requests y.answers memory y.memory ∧
      ∀ schedule : Nat → Turn, let d := (Dialogue.start requests i memory).run fuel schedule
        (∀ n, (d n).Agrees fuel requests i memory j answers) ∧
        (∀ n m, n ≤ m → (d n).session.worker.running = false →
          (d m).session.worker = ⟨j, false⟩) ∧
        (Fair schedule → ∃ n, ∀ m, n ≤ m → (d m).session = y) := by
  have hstart := start_stage fuel requests i memory
  obtain ⟨y, hy, hinterpreter, hexecuted, hanswers⟩ :=
    Session.serve_all (x := .start i memory) rfl hserved
  obtain ⟨given, hgiven, hheard⟩ := Session.heard hy
  have hsame : y.answers = given := hgiven
  refine ⟨y, hy, hinterpreter, hexecuted, hanswers, hsame ▸ hheard, ?_⟩
  intro schedule d
  have hagrees (n : Nat) : (d n).Agrees fuel requests i memory j answers := by
    obtain ⟨rest, x, hstage, hserves⟩ := hstart.run schedule n
    exact hstage.agrees hy hinterpreter hexecuted hanswers hserves
  refine ⟨hagrees, ?_, ?_⟩
  · intro n m hle hrunning
    exact ((hagrees m).stopped (running_run hle hrunning)).2
  · intro hfair
    obtain ⟨n, hn⟩ := finishes schedule hstart (by rw [hy]; exact nofun) hfair
    obtain ⟨rest, x, hstage, done, hdone, hserve⟩ := hstart.run schedule n
    obtain rfl := hstage.eq_nil hn
    have hx : x = y := by
      rw [hdone, List.append_nil, hserve] at hy
      exact Option.some.inj hy
    refine ⟨n, fun m hm => ?_⟩
    obtain ⟨k, rfl⟩ := Nat.exists_eq_add_of_le hm
    rw [show d (n + k) = _ from run_add fuel schedule _ n k, hstage.run_nil, hx]

/-- A client that sets the stack pointer, calls twice with a listener, the second time with too many
arguments, and calls once more after it has stopped the worker; everyone takes turns. -/
theorem worker_refines_interpreter_shutdown :
    let i := Interpreter.initial (.ofBytes .empty) 1
    let requests : List (Request Word (List Callback)) :=
      [.withInterpreter fun i => (i.setStackPointer 16, i.regs.pc),
        .callWith ⟨returnSentinel, [7], []⟩ .recorder,
        .callWith ⟨0, List.replicate 9 0, []⟩ .recorder, .shutdown, .call ⟨0, [], []⟩]
    let schedule : Nat → Turn := fun n =>
      if n % 3 = 0 then .client else if n % 3 = 1 then .worker else .timeout
    ∃ j r y, Job.performAll 1 i (Request.accepted requests) = some (j,
        [.value (.ok 0), .result (.ok r), .result (.error (.tooManyArguments .integer 9))]) ∧
      y.answers =
        [.value (.ok 0), .result (.ok r), .result (.error (.tooManyArguments .integer 9)),
          .stopped, .result (.error .workerStopped)] ∧
      y.memory = [.returned r.snapshot] ∧ Fair schedule ∧
      ∃ n, ∀ m, n ≤ m → ((Dialogue.start requests i []).run 1 schedule m).session = y := by
  intro i requests schedule
  have hfair : Fair schedule := by
    intro t n
    cases t with
    | client => exact ⟨2 * n, if_pos (by omega)⟩
    | worker => exact ⟨2 * n + 1, (if_neg (by omega)).trans (if_pos (by omega))⟩
    | timeout => exact ⟨2 * n + 2, (if_neg (by omega)).trans (if_neg (by omega))⟩
  obtain ⟨y, hy, -, -, hanswers, -, hruns⟩ :=
    @worker_refines_interpreter Word (List Callback) 1 requests i _ _ rfl []
  refine ⟨_, _, y, rfl, hanswers, ?_, hfair, (hruns schedule).2.2 hfair⟩
  cases hy
  rfl

end Broadway
