import Broadway.Proofs.Call.Report
import Broadway.Worker

/-!
# Sessions with a worker

A session is the record of a worker that handles the requests of a client one after the other: the
jobs that it has executed, what it has answered, and what the listeners of the client remember.

Up to the first shutdown a session is nothing but the bare interpreter, to which the jobs are given
in order (`Job.performAll`), and from then on every request is refused (`Session.serve_all`).
Whatever has been recorded stays on record (`Session.Grows`), and listeners are told as `Heard`
says.
-/

namespace Broadway

variable {α σ : Type}

/-- What a client asks of a worker. `α` is what its work on the interpreter gives, and `σ` what its
listeners remember. -/
inductive Request (α σ : Type)
  | call (c : FunctionCall)
  | callWith (c : FunctionCall) (l : Listener σ)
  | withInterpreter (f : Interpreter → Interpreter × α)
  | shutdown

/-- What a worker does with its interpreter. -/
inductive Job (α : Type)
  | evaluate (c : FunctionCall)
  | run (f : Interpreter → Interpreter × α)

/-- What a request comes back with. -/
inductive Answer (α : Type)
  | result (x : Except CallError CallResult)
  | value (x : Except CallError α)
  | stopped

namespace Job

/-- Does a job on the bare interpreter; `none` means that the fuel did not last. -/
def perform (fuel : Nat) (i : Interpreter) : Job α → Option (Interpreter × Answer α)
  | .evaluate c => (i.evaluate fuel c).map fun (i, x) => (i, .result x)
  | .run f =>
    let (i, x) := f i
    some (i, .value (.ok x))

/-- Does jobs one after the other. -/
def performAll (fuel : Nat) (i : Interpreter) :
    List (Job α) → Option (Interpreter × List (Answer α))
  | [] => some (i, [])
  | job :: rest =>
    (job.perform fuel i).bind fun x =>
      (performAll fuel x.1 rest).map fun y => (y.1, x.2 :: y.2)

variable {fuel : Nat} {i j : Interpreter} {job : Job α} {jobs : List (Job α)}
  {answers : List (Answer α)}

theorem performAll_cons_eq_some : performAll fuel i (job :: jobs) = some (j, answers) ↔
    ∃ i' a more, job.perform fuel i = some (i', a) ∧ performAll fuel i' jobs = some (j, more) ∧
      answers = a :: more := by
  rw [performAll, Option.bind_eq_some_iff]
  constructor
  · rintro ⟨⟨i', a⟩, hjob, h⟩
    obtain ⟨⟨k, more⟩, hmore, heq⟩ := Option.map_eq_some_iff.1 h
    cases heq
    exact ⟨i', a, more, hjob, hmore, rfl⟩
  · rintro ⟨i', a, more, hjob, hmore, rfl⟩
    exact ⟨(i', a), hjob, Option.map_eq_some_iff.2 ⟨(j, more), hmore, rfl⟩⟩

/-- One job more. -/
theorem performAll_concat {k : Interpreter} {a : Answer α}
    (h : performAll fuel i jobs = some (j, answers)) (hjob : job.perform fuel j = some (k, a)) :
    performAll fuel i (jobs ++ [job]) = some (k, answers ++ [a]) := by
  induction jobs generalizing i answers with
  | nil =>
      cases h
      exact performAll_cons_eq_some.2 ⟨k, a, [], hjob, rfl, rfl⟩
  | cons first jobs ih =>
      obtain ⟨i', b, more, hfirst, hmore, rfl⟩ := performAll_cons_eq_some.1 h
      exact performAll_cons_eq_some.2 ⟨i', b, more ++ [a], hfirst, ih hmore, rfl⟩

end Job

namespace Request

/-- The job of a request. To shut down is no job. -/
def job? : Request α σ → Option (Job α)
  | .call c | .callWith c _ => some (.evaluate c)
  | .withInterpreter f => some (.run f)
  | .shutdown => none

/-- What a worker that has stopped answers. -/
def refusal : Request α σ → Answer α
  | .call _ | .callWith _ _ => .result (.error .workerStopped)
  | .withInterpreter _ => .value (.error .workerStopped)
  | .shutdown => .stopped

/-- What the listeners remember when a request has been answered. -/
def hear : Request α σ → Answer α → σ → σ
  | .callWith _ l, .result (.ok r), memory => r.notify l memory
  | _, _, memory => memory

/-- The jobs of the requests before the first shutdown. -/
def accepted : List (Request α σ) → List (Job α)
  | [] => []
  | r :: rest =>
    match r.job? with
    | some job => job :: accepted rest
    | none => []

/-- The answers to all requests: the jobs before the first shutdown have the answers that are given,
and from the first shutdown on every request is refused. -/
def answered (requests : List (Request α σ)) (answers : List (Answer α)) : List (Answer α) :=
  answers ++ (requests.dropWhile fun r => r.job?.isSome).map refusal

/-- Nobody is told of a refusal. -/
theorem hear_refusal (r : Request α σ) (memory : σ) : r.hear r.refusal memory = memory := by
  cases r <;> rfl

theorem eq_shutdown {r : Request α σ} (h : r.job? = none) : r = .shutdown := by
  cases r with
  | shutdown => rfl
  | call | callWith | withInterpreter => contradiction

end Request

/-- A worker handles a request; `none` means that the fuel did not last. -/
def Worker.handle (fuel : Nat) (r : Request α σ) (memory : σ) (w : Worker) :
    Option (Worker × Answer α × σ) :=
  match r with
  | .call c => (w.call fuel c).map fun (w, x) => (w, .result x, memory)
  | .callWith c l => (w.callWith fuel c l memory).map fun (w, x, memory) => (w, .result x, memory)
  | .withInterpreter f =>
    let (w, x) := w.withInterpreter f
    some (w, .value x, memory)
  | .shutdown => some (w.shutdown, .stopped, memory)

namespace Worker

variable {fuel : Nat} {r : Request α σ} {memory : σ} {w : Worker}

/-- A worker that runs does the job of a request on its interpreter. -/
theorem handle_running {job : Job α} (hjob : r.job? = some job) (hw : w.running = true) :
    w.handle fuel r memory = (job.perform fuel w.interpreter).map fun (i, a) =>
      (⟨i, true⟩, a, r.hear a memory) := by
  obtain ⟨i, running⟩ := w
  cases hw
  cases r with
  | shutdown => contradiction
  | call c | callWith c l =>
      cases hjob
      simp only [handle, callWith, call, if_true, Job.perform, Option.map_map]
      cases i.evaluate fuel c with
      | none => rfl
      | some x => cases x with | mk j y => cases y <;> rfl
  | withInterpreter f =>
      cases hjob
      rfl

/-- A worker that has stopped refuses everything. -/
theorem handle_stopped (hw : w.running = false) :
    w.handle fuel r memory = some (w, r.refusal, memory) := by
  obtain ⟨i, running⟩ := w
  cases hw
  cases r <;> rfl

theorem shutdown_stopped (hw : w.running = false) : w.shutdown = w := by
  obtain ⟨i, running⟩ := w
  cases hw
  rfl

theorem handle_shutdown (hjob : r.job? = none) :
    w.handle fuel r memory = some (w.shutdown, .stopped, memory) := by
  rw [Request.eq_shutdown hjob]
  rfl

end Worker

/-- A worker with the record of what has happened. -/
structure Session (α σ : Type) where
  worker : Worker
  /-- The jobs that were done, in order. -/
  executed : List (Job α)
  answers : List (Answer α)
  /-- What the listeners of the client remember. -/
  memory : σ

namespace Session

/-- The worker that owns the interpreter has just started. -/
def start (i : Interpreter) (memory : σ) : Session α σ := ⟨.spawn i, [], [], memory⟩

/-- The worker handles a request. -/
def serve (fuel : Nat) (x : Session α σ) (r : Request α σ) : Option (Session α σ) :=
  (x.worker.handle fuel r x.memory).map fun (w, a, memory) =>
    ⟨w, x.executed ++ (if x.worker.running then r.job?.toList else []), x.answers ++ [a], memory⟩

/-- The worker handles requests one after the other. -/
def serveAll (fuel : Nat) (x : Session α σ) (requests : List (Request α σ)) :
    Option (Session α σ) :=
  requests.foldlM (serve fuel) x

variable {fuel : Nat} {x y : Session α σ} {r : Request α σ} {requests : List (Request α σ)}

theorem serve_running {job : Job α} (hjob : r.job? = some job) (hx : x.worker.running = true) :
    x.serve fuel r = (job.perform fuel x.worker.interpreter).map fun (i, a) =>
      ⟨⟨i, true⟩, x.executed ++ [job], x.answers ++ [a], r.hear a x.memory⟩ := by
  rw [serve, Worker.handle_running hjob hx, if_pos hx, hjob, Option.map_map]
  rfl

theorem serve_of_perform {job : Job α} {i : Interpreter} {a : Answer α} (hjob : r.job? = some job)
    (hx : x.worker.running = true) (h : job.perform fuel x.worker.interpreter = some (i, a)) :
    x.serve fuel r =
      some ⟨⟨i, true⟩, x.executed ++ [job], x.answers ++ [a], r.hear a x.memory⟩ := by
  rw [serve_running hjob hx, h]
  rfl

theorem serve_stopped (hx : x.worker.running = false) :
    x.serve fuel r = some { x with answers := x.answers ++ [r.refusal] } := by
  rw [serve, Worker.handle_stopped hx, if_neg (by rw [hx]; decide), List.append_nil]
  rfl

theorem serve_shutdown (hjob : r.job? = none) : x.serve fuel r =
    some { x with worker := x.worker.shutdown, answers := x.answers ++ [.stopped] } := by
  rw [serve, Worker.handle_shutdown hjob, hjob]
  simp only [Option.toList_none, ite_self, List.append_nil, Option.map_some]

theorem serveAll_cons :
    x.serveAll fuel (r :: requests) = (x.serve fuel r).bind fun y => y.serveAll fuel requests :=
  List.foldlM_cons

theorem serveAll_append {rest : List (Request α σ)} : x.serveAll fuel (requests ++ rest) =
    (x.serveAll fuel requests).bind fun y => y.serveAll fuel rest :=
  List.foldlM_append

theorem serveAll_singleton : x.serveAll fuel [r] = x.serve fuel r := by
  rw [serveAll_cons]
  exact Option.bind_fun_some _

/-- What every request preserves holds after all of them. -/
theorem serveAll_preserves {p : Session α σ → Prop}
    (hserve : ∀ x r y, p x → x.serve fuel r = some y → p y) (hx : p x)
    (h : x.serveAll fuel requests = some y) : p y := by
  induction requests generalizing x with
  | nil =>
      cases h
      exact hx
  | cons r requests ih =>
      rw [serveAll_cons, Option.bind_eq_some_iff] at h
      obtain ⟨z, hz, h⟩ := h
      exact ih (hserve x r z hx hz) h

/-! ## The bare interpreter -/

theorem serveAll_stopped (hx : x.worker.running = false) : x.serveAll fuel requests =
    some { x with answers := x.answers ++ requests.map Request.refusal } := by
  induction requests generalizing x with
  | nil =>
      rw [List.map_nil, List.append_nil]
      rfl
  | cons r requests ih =>
      rw [serveAll_cons, serve_stopped hx, Option.bind_some,
        ih (x := { x with answers := x.answers ++ [r.refusal] }) hx, List.append_assoc]
      rfl

/-- A session that runs gives the jobs before the first shutdown to the interpreter, in order, and
refuses what comes after. -/
theorem serve_all {j : Interpreter} {answers : List (Answer α)} (hx : x.worker.running = true)
    (h : Job.performAll fuel x.worker.interpreter (Request.accepted requests) = some (j, answers)) :
    ∃ y, x.serveAll fuel requests = some y ∧ y.worker.interpreter = j ∧
      y.executed = x.executed ++ Request.accepted requests ∧
      y.answers = x.answers ++ Request.answered requests answers := by
  induction requests generalizing x answers with
  | nil =>
      cases h
      exact ⟨x, rfl, rfl, (List.append_nil _).symm, (List.append_nil _).symm⟩
  | cons r requests ih =>
      rw [serveAll_cons]
      cases hjob : r.job? with
      | some job =>
          simp only [Request.accepted, hjob] at h ⊢
          obtain ⟨i, a, more, hperform, hmore, rfl⟩ := Job.performAll_cons_eq_some.1 h
          rw [serve_running hjob hx, hperform, Option.map_some, Option.bind_some]
          obtain ⟨y, hy, hinterpreter, hexecuted, hanswers⟩ := ih
            (x := ⟨⟨i, true⟩, x.executed ++ [job], x.answers ++ [a], r.hear a x.memory⟩) rfl hmore
          refine ⟨y, hy, hinterpreter, ?_, ?_⟩
          · rw [hexecuted, List.append_assoc]
            rfl
          · rw [hanswers, List.append_assoc, Request.answered, Request.answered,
              List.dropWhile_cons_of_pos (by rw [hjob]; rfl)]
            rfl
      | none =>
          simp only [Request.accepted, hjob] at h ⊢
          cases h
          rw [serve_shutdown hjob, Option.bind_some, serveAll_stopped rfl]
          refine ⟨_, rfl, rfl, (List.append_nil _).symm, ?_⟩
          rw [Request.eq_shutdown hjob, List.append_assoc]
          rfl

/-- The interpreter is what the jobs that were done have made of the one that the session started
with. -/
def Performed (fuel : Nat) (i : Interpreter) (x : Session α σ) : Prop :=
  ∃ answers, Job.performAll fuel i x.executed = some (x.worker.interpreter, answers)

theorem Performed.serve {i : Interpreter} (hx : x.Performed fuel i)
    (h : x.serve fuel r = some y) : y.Performed fuel i := by
  cases hrunning : x.worker.running with
  | false =>
      rw [serve_stopped hrunning] at h
      cases h
      exact hx
  | true =>
      cases hjob : r.job? with
      | none =>
          rw [serve_shutdown hjob] at h
          cases h
          exact hx
      | some job =>
          rw [serve_running hjob hrunning] at h
          obtain ⟨⟨j, a⟩, hperform, heq⟩ := Option.map_eq_some_iff.1 h
          cases heq
          obtain ⟨answers, hanswers⟩ := hx
          exact ⟨answers ++ [a], Job.performAll_concat hanswers hperform⟩

/-! ## The record -/

/-- What a session may become: the record grows, and nothing more is done once the worker has
stopped. -/
structure Grows (x y : Session α σ) : Prop where
  executed : x.executed <+: y.executed
  answers : x.answers <+: y.answers
  stopped : x.worker.running = false → y.worker = x.worker ∧ y.executed = x.executed

namespace Grows

theorem refl (x : Session α σ) : x.Grows x :=
  ⟨List.prefix_rfl, List.prefix_rfl, fun _ => ⟨rfl, rfl⟩⟩

theorem trans {z : Session α σ} (hxy : x.Grows y) (hyz : y.Grows z) : x.Grows z where
  executed := hxy.executed.trans hyz.executed
  answers := hxy.answers.trans hyz.answers
  stopped := by
    intro hx
    obtain ⟨hworker, hexecuted⟩ := hxy.stopped hx
    obtain ⟨hworker', hexecuted'⟩ := hyz.stopped (by rw [hworker, hx])
    exact ⟨hworker'.trans hworker, hexecuted'.trans hexecuted⟩

theorem serve (h : x.serve fuel r = some y) : x.Grows y := by
  obtain ⟨⟨w, a, memory⟩, hhandle, rfl⟩ := Option.map_eq_some_iff.1 h
  refine ⟨List.prefix_append _ _, List.prefix_append _ _, ?_⟩
  intro hx
  rw [Worker.handle_stopped hx] at hhandle
  cases hhandle
  exact ⟨rfl, by rw [if_neg (by rw [hx]; decide), List.append_nil]⟩

theorem serveAll (h : x.serveAll fuel requests = some y) : x.Grows y :=
  serveAll_preserves (fun _ _ _ hgrows hserve => hgrows.trans (serve hserve)) (refl x) h

end Grows

end Session

/-! ## Listeners -/

/-- What the answer to a request does to the memory of the listeners: a call that was made with a
listener makes one callback, which carries its result, and nothing else makes any. -/
inductive Told : Request α σ → Answer α → σ → σ → Prop
  | once (c : FunctionCall) (l : Listener σ) (b : Callback) (memory : σ) :
      Told (.callWith c l) (.result (.ok b.result)) memory (b.deliver l memory)
  | failed (c : FunctionCall) (l : Listener σ) (e : CallError) (memory : σ) :
      Told (.callWith c l) (.result (.error e)) memory memory
  | call (c : FunctionCall) (a : Answer α) (memory : σ) : Told (.call c) a memory memory
  | withInterpreter (f : Interpreter → Interpreter × α) (a : Answer α) (memory : σ) :
      Told (.withInterpreter f) a memory memory
  | shutdown (a : Answer α) (memory : σ) : Told .shutdown a memory memory

/-- Each request of a list has told the listeners of its answer. -/
inductive Heard : List (Request α σ) → List (Answer α) → σ → σ → Prop
  | nil (memory : σ) : Heard [] [] memory memory
  | cons {r : Request α σ} {a : Answer α} {requests : List (Request α σ)}
      {answers : List (Answer α)} {memory next last : σ} :
      Told r a memory next → Heard requests answers next last →
      Heard (r :: requests) (a :: answers) memory last

theorem Heard.length {requests : List (Request α σ)} {answers : List (Answer α)}
    {memory last : σ} (h : Heard requests answers memory last) :
    answers.length = requests.length := by
  induction h with
  | nil => rfl
  | cons _ _ ih => rw [List.length_cons, List.length_cons, ih]

/-- What a client does with an answer. Only calls are answered with results. -/
theorem Request.told {fuel : Nat} {r : Request α σ} {w w' : Worker} {a : Answer α}
    {memory memory' : σ} (h : w.handle fuel r memory = some (w', a, memory')) :
    Told r a memory memory' := by
  cases r with
  | call c =>
      obtain ⟨x, -, heq⟩ := Option.map_eq_some_iff.1 h
      cases heq
      exact .call c _ memory
  | callWith c l =>
      obtain ⟨x, hx, heq⟩ := Option.map_eq_some_iff.1 h
      obtain ⟨⟨w₁, outcome⟩, -, rfl⟩ := Option.map_eq_some_iff.1 hx
      cases heq
      cases outcome with
      | error e => exact .failed c l e memory
      | ok result =>
          obtain ⟨b, rfl, -, hnotify⟩ := result.notify_once
          show Told _ _ memory (b.result.notify l memory)
          rw [hnotify]
          exact .once c l b memory
  | withInterpreter f =>
      cases h
      exact .withInterpreter f _ memory
  | shutdown =>
      cases h
      exact .shutdown _ memory

/-- In a session the listeners hear of every answer, in order. -/
theorem Session.heard {fuel : Nat} {x y : Session α σ} {requests : List (Request α σ)}
    (h : x.serveAll fuel requests = some y) :
    ∃ answers, y.answers = x.answers ++ answers ∧ Heard requests answers x.memory y.memory := by
  induction requests generalizing x with
  | nil =>
      cases h
      exact ⟨[], (List.append_nil _).symm, .nil _⟩
  | cons r requests ih =>
      rw [serveAll_cons, Option.bind_eq_some_iff] at h
      obtain ⟨z, hz, h⟩ := h
      obtain ⟨⟨w, a, memory⟩, hhandle, rfl⟩ := Option.map_eq_some_iff.1 hz
      obtain ⟨answers, hanswers, hheard⟩ := ih h
      refine ⟨a :: answers, ?_, .cons (Request.told hhandle) hheard⟩
      rw [hanswers, List.append_assoc]
      rfl

end Broadway
