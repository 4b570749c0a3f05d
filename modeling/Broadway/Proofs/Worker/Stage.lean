import Broadway.Proofs.Worker.Dialogue

/-!
# The stages of a dialogue

A request goes through a few stages on its way to the worker and back, and at each of them one turn
at most can bring it further. `Stage` lists them, and says for each what the dialogue has to do with
a session in which the requests are served one after the other. What a turn can do is said once,
for every stage and every turn (`Stage.turn`): it leads to a stage of the same session or of the
session one request further (`Leads.stage`), and it brings the dialogue nearer to its end or leaves
the turn that does (`Leads.nears`).
-/

namespace Broadway

variable {α σ : Type}

/-! ## Stages -/

namespace Dialogue

/-- Where a dialogue is, seen against a session in which the requests of the client are served one
after the other. Of that session the client has the answers and the memory; the requests that are
not answered are still to be served. -/
inductive Stage (fuel : Nat) : List (Request α σ) → Session α σ → Dialogue α σ → Prop
  /-- The client is between two requests, and the worker polls. -/
  | ready (d : Dialogue α σ) (pending : List (Request α σ)) (p : Poll) :
      d.session.worker.running = true →
      Stage fuel pending d.session
        { d with
          pending := pending, client := .ready, handle := true, slot := none, thread := .polling p }
  /-- The client has seen that the worker runs, which it still does. -/
  | sending (d : Dialogue α σ) (r : Request α σ) (job : Job α) (p : Poll) :
      r.job? = some job → d.session.worker.running = true →
      Stage fuel (r :: d.pending) d.session
        { d with client := .sending r job, handle := true, slot := none, thread := .polling p }
  /-- The request lies in the channel. -/
  | posted (d : Dialogue α σ) (r : Request α σ) (job : Job α) (t : Nat) (p : Poll) :
      r.job? = some job → d.session.worker.running = true → d.replies t = none →
      Stage fuel (r :: d.pending) d.session
        { d with
          client := .awaiting r t, handle := true, slot := some (job, t), thread := .polling p }
  | serving (d : Dialogue α σ) (r : Request α σ) (job : Job α) (t : Nat) :
      r.job? = some job → d.session.worker.running = true → d.replies t = none →
      Stage fuel (r :: d.pending) d.session
        { d with client := .awaiting r t, handle := true, slot := none, thread := .serving job t }
  /-- The job is done. The thread is one request further than the client knows. -/
  | replying (d : Dialogue α σ) (x : Session α σ) (r : Request α σ) (job : Job α) (t : Nat)
      (i : Interpreter) (a : Answer α) :
      r.job? = some job → x.worker.running = true →
      job.perform fuel x.worker.interpreter = some (i, a) → d.replies t = none →
      Stage fuel (r :: d.pending) x
        { d with
          client := .awaiting r t, handle := true, slot := none, thread := .replying a t
          session := { x with worker := ⟨i, true⟩, executed := x.executed ++ [job] } }
  /-- The answer lies in the reply channel, and the thread polls again. -/
  | replied (d : Dialogue α σ) (x : Session α σ) (r : Request α σ) (job : Job α) (t : Nat)
      (i : Interpreter) (a : Answer α) (p : Poll) :
      r.job? = some job → x.worker.running = true →
      job.perform fuel x.worker.interpreter = some (i, a) → d.replies t = some a →
      Stage fuel (r :: d.pending) x
        { d with
          client := .awaiting r t, handle := true, slot := none, thread := .polling p
          session := { x with worker := ⟨i, true⟩, executed := x.executed ++ [job] } }
  /-- The client has stopped the worker, which does not know it yet. -/
  | joining (d : Dialogue α σ) (x : Session α σ) (p : Poll) :
      Stage fuel (.shutdown :: d.pending) x
        { d with
          client := .joining, handle := false, slot := none, thread := .polling p
          session := { x with worker := x.worker.shutdown } }
  | exited (d : Dialogue α σ) (x : Session α σ) :
      Stage fuel (.shutdown :: d.pending) x
        { d with
          client := .joining, handle := false, slot := none, thread := .exited
          session := { x with worker := x.worker.shutdown } }
  | stopped (d : Dialogue α σ) (pending : List (Request α σ)) : d.session.worker.running = false →
      Stage fuel pending d.session
        { d with
          pending := pending, client := .ready, handle := false, slot := none, thread := .exited }

/-- Requests that a session serves one after the other. -/
def Serves (fuel : Nat) (x : Session α σ) (todo : List (Request α σ)) (y : Session α σ)
    (rest : List (Request α σ)) : Prop :=
  ∃ done, todo = done ++ rest ∧ x.serveAll fuel done = some y

theorem Serves.refl (fuel : Nat) (x : Session α σ) (todo : List (Request α σ)) :
    Serves fuel x todo x todo :=
  ⟨[], rfl, rfl⟩

theorem Serves.one {fuel : Nat} {x y : Session α σ} {r : Request α σ} {rest : List (Request α σ)}
    (h : x.serve fuel r = some y) : Serves fuel x (r :: rest) y rest :=
  ⟨[r], rfl, Session.serveAll_singleton.trans h⟩

theorem Serves.trans {fuel : Nat} {x y z : Session α σ} {todo rest last : List (Request α σ)}
    (hxy : Serves fuel x todo y rest) (hyz : Serves fuel y rest z last) :
    Serves fuel x todo z last := by
  obtain ⟨done, rfl, hdone⟩ := hxy
  obtain ⟨more, rfl, hmore⟩ := hyz
  refine ⟨done ++ more, (List.append_assoc _ _ _).symm, ?_⟩
  rw [Session.serveAll_append, hdone, Option.bind_some, hmore]

theorem Serves.grows {fuel : Nat} {x y z : Session α σ} {todo rest : List (Request α σ)}
    (h : Serves fuel x todo y rest) (hall : x.serveAll fuel todo = some z) : y.Grows z := by
  obtain ⟨done, rfl, hdone⟩ := h
  rw [Session.serveAll_append, hdone] at hall
  exact .serveAll hall

/-! ## Progress -/

/-- So many turns are left, at most, before the thread takes a request that waits for it. -/
def Poll.untilTaken : Poll → Nat
  | .waiting => 3
  | .checking => 2
  | .receiving => 1

theorem Poll.untilTaken_le (p : Poll) : p.untilTaken ≤ 3 := by
  cases p <;> decide

/-- So many turns are left, at most, before the thread exits when it is to stop. -/
def Poll.untilExit : Poll → Nat
  | .receiving => 3
  | .waiting => 2
  | .checking => 1

theorem Poll.untilExit_le (p : Poll) : p.untilExit ≤ 3 := by
  cases p <;> decide

/-- How far a dialogue is from its end. -/
def rank (d : Dialogue α σ) : Nat :=
  8 * d.pending.length +
    match d.client, d.thread, d.slot with
    | .ready, _, _ => 0
    | .sending _ _, _, _ => 7
    | .awaiting _ _, .polling p, some _ => p.untilTaken + 3
    | .awaiting _ _, .serving _ _, _ => 3
    | .awaiting _ _, .replying _ _, _ => 2
    | .awaiting _ _, _, _ => 1
    | .joining, .polling p, _ => p.untilExit + 1
    | .joining, _, _ => 1

/-- The turn that brings a dialogue nearer to its end. -/
def helpful (d : Dialogue α σ) : Turn :=
  match d.client, d.thread, d.slot with
  | .awaiting _ _, .polling _, some _ => .worker
  | .awaiting _ _, .serving _ _, _ => .worker
  | .awaiting _ _, .replying _ _, _ => .worker
  | .joining, .polling .waiting, _ => .timeout
  | .joining, .polling _, _ => .worker
  | _, _, _ => .client

/-- A turn brings a dialogue nearer to its end, or another turn does and still will. -/
def Nears (d : Dialogue α σ) (t : Turn) (d' : Dialogue α σ) : Prop :=
  d'.rank < d.rank ∨ t ≠ d.helpful ∧ d'.rank = d.rank ∧ d'.helpful = d.helpful

/-! ## Turns -/

/-- What a turn leads to: the session may have served a request, and if it can serve all that is
left, then the dialogue nears its end. -/
structure Leads (fuel : Nat) (todo : List (Request α σ)) (x : Session α σ) (d : Dialogue α σ)
    (t : Turn) (d' : Dialogue α σ) : Prop where
  stage : ∃ rest y, Stage fuel rest y d' ∧ Serves fuel x todo y rest
  nears : x.serveAll fuel todo ≠ none → d.rank ≠ 0 → Nears d t d'

variable {fuel : Nat} {todo rest : List (Request α σ)} {x y : Session α σ} {d d' : Dialogue α σ}
  {t : Turn}

/-- A turn that gives no answer. -/
theorem Stage.keeps (h : Stage fuel todo x d') (hnears : Nears d t d') :
    Leads fuel todo x d t d' :=
  ⟨⟨todo, x, h, .refl fuel x todo⟩, fun _ _ => hnears⟩

/-- A turn with which a request is answered. -/
theorem Stage.answers {r : Request α σ} (h : Stage fuel rest y d')
    (hserve : x.serve fuel r = some y) (hrank : d'.rank < d.rank) :
    Leads fuel (r :: rest) x d t d' :=
  ⟨⟨rest, y, h, .one hserve⟩, fun _ _ => .inl hrank⟩

/-- Once the worker has stopped, a client only learns that it has. -/
theorem undertake_stopped {r : Request α σ} (hrunning : d.session.worker.running = false)
    (hhandle : d.handle = false) : d.undertake r =
      { d with
        client := .ready
        session := { d.session with answers := d.session.answers ++ [r.refusal] } } := by
  cases hjob : r.job? with
  | some job =>
      simp only [undertake, hjob, isRunning, hrunning, Bool.false_and, Bool.false_eq_true, if_false,
        conclude, Request.hear_refusal]
  | none =>
      rw [Request.eq_shutdown hjob]
      simp only [undertake, Request.job?, hhandle, Bool.false_eq_true, if_false, conclude,
        Worker.shutdown_stopped hrunning]
      rfl

theorem Stage.clientTurn (h : Stage fuel todo x d) : Leads fuel todo x d .client d.clientTurn := by
  cases h with
  | ready d _ p hrunning =>
      cases todo with
      | nil =>
          refine ⟨⟨[], _, .ready d [] p hrunning, .refl fuel _ _⟩, ?_⟩
          exact fun _ hrank => absurd rfl hrank
      | cons r rest =>
          cases hjob : r.job? with
          | some job =>
              let next : Dialogue α σ := { d with pending := rest }
              simp only [Dialogue.clientTurn, undertake, hjob, isRunning, hrunning,
                Thread.isExited, Bool.not_false, Bool.and_self, if_true]
              refine (Stage.sending next r job p hjob hrunning).keeps (.inl ?_)
              show 8 * rest.length + 7 < 8 * (rest.length + 1)
              omega
          | none =>
              rw [Request.eq_shutdown hjob]
              refine (Stage.joining { d with pending := rest } d.session p).keeps (.inl ?_)
              have hexit : p.untilExit ≤ 3 := p.untilExit_le
              show 8 * rest.length + (p.untilExit + 1) < 8 * (rest.length + 1)
              omega
  | sending d r job p hjob hrunning =>
      let next : Dialogue α σ :=
        { d with
          tickets := d.tickets + 1
          replies := fun t => if t = d.tickets then none else d.replies t }
      refine (Stage.posted next r job d.tickets p hjob hrunning (if_pos rfl)).keeps (.inl ?_)
      have htaken : p.untilTaken ≤ 3 := p.untilTaken_le
      show 8 * d.pending.length + (p.untilTaken + 3) < 8 * d.pending.length + 7
      omega
  | posted d r job t p hjob hrunning hreplies =>
      simp only [Dialogue.clientTurn, hreplies, mayReply, Option.any_some, decide_true, Bool.or_true,
        if_true]
      exact (Stage.posted d r job t p hjob hrunning hreplies).keeps (.inr ⟨nofun, rfl, rfl⟩)
  | serving d r job t hjob hrunning hreplies =>
      simp only [Dialogue.clientTurn, hreplies, mayReply, Thread.owes, decide_true, Bool.true_or,
        if_true]
      exact (Stage.serving d r job t hjob hrunning hreplies).keeps (.inr ⟨nofun, rfl, rfl⟩)
  | replying d x r job t i a hjob hrunning hperform hreplies =>
      simp only [Dialogue.clientTurn, hreplies, mayReply, Thread.owes, decide_true, Bool.true_or,
        if_true]
      exact (Stage.replying d x r job t i a hjob hrunning hperform hreplies).keeps
        (.inr ⟨nofun, rfl, rfl⟩)
  | replied d x r job t i a p hjob hrunning hperform hreplies =>
      let y : Session α σ :=
        ⟨⟨i, true⟩, x.executed ++ [job], x.answers ++ [a], r.hear a x.memory⟩
      simp only [Dialogue.clientTurn, hreplies]
      exact (Stage.ready { d with session := y } d.pending p rfl).answers
        (Session.serve_of_perform hjob hrunning hperform) (Nat.lt_succ_self _)
  | joining d x p =>
      exact (Stage.joining d x p).keeps (.inr (by cases p <;> exact ⟨nofun, rfl, rfl⟩))
  | exited d x =>
      let y : Session α σ :=
        ⟨x.worker.shutdown, x.executed, x.answers ++ [.stopped], x.memory⟩
      exact (Stage.stopped { d with session := y } d.pending rfl).answers
        (Session.serve_shutdown rfl) (Nat.lt_succ_self _)
  | stopped d _ hrunning =>
      cases todo with
      | nil =>
          refine ⟨⟨[], _, .stopped d [] hrunning, .refl fuel _ _⟩, ?_⟩
          exact fun _ hrank => absurd rfl hrank
      | cons r rest =>
          let y : Session α σ := { d.session with answers := d.session.answers ++ [r.refusal] }
          let next : Dialogue α σ :=
            { d with
              pending := rest, client := .ready, handle := false, slot := none, thread := .exited }
          show Leads fuel (r :: rest) d.session _ .client (next.undertake r)
          rw [undertake_stopped (d := next) hrunning rfl]
          exact (Stage.stopped { d with session := y } rest hrunning).answers
            (Session.serve_stopped hrunning) (Nat.add_lt_add_left (by decide : 0 < 8) _)

theorem Stage.workerTurn (h : Stage fuel todo x d) :
    Leads fuel todo x d .worker (d.workerTurn fuel) := by
  cases h with
  | ready d _ p hrunning =>
      cases p with
      | checking =>
          simp only [Dialogue.workerTurn, hrunning, if_true]
          exact (Stage.ready d todo .receiving hrunning).keeps (.inr ⟨nofun, rfl, rfl⟩)
      | receiving | waiting =>
          exact (Stage.ready d todo .waiting hrunning).keeps (.inr ⟨nofun, rfl, rfl⟩)
  | sending d r job p hjob hrunning =>
      cases p with
      | checking =>
          simp only [Dialogue.workerTurn, hrunning, if_true]
          exact (Stage.sending d r job .receiving hjob hrunning).keeps (.inr ⟨nofun, rfl, rfl⟩)
      | receiving | waiting =>
          exact (Stage.sending d r job .waiting hjob hrunning).keeps (.inr ⟨nofun, rfl, rfl⟩)
  | posted d r job t p hjob hrunning hreplies =>
      cases p with
      | checking =>
          simp only [Dialogue.workerTurn, hrunning, if_true]
          exact (Stage.posted d r job t .receiving hjob hrunning hreplies).keeps
            (.inl (Nat.lt_succ_self _))
      | receiving =>
          exact (Stage.serving d r job t hjob hrunning hreplies).keeps (.inl (Nat.lt_succ_self _))
      | waiting =>
          refine (Stage.serving d r job t hjob hrunning hreplies).keeps (.inl ?_)
          exact Nat.add_lt_add_left (by decide : 3 < 6) (8 * d.pending.length)
  | serving d r job t hjob hrunning hreplies =>
      cases hperform : job.perform fuel d.session.worker.interpreter with
      | none =>
          simp only [Dialogue.workerTurn, execute, hperform]
          -- a session that can serve all requests can do this job
          refine ⟨⟨_, _, .serving d r job t hjob hrunning hreplies, .refl fuel _ _⟩, ?_⟩
          intro hall
          rw [Session.serveAll_cons, Session.serve_running hjob hrunning, hperform] at hall
          contradiction
      | some x =>
          simp only [Dialogue.workerTurn, execute, hperform, hrunning]
          exact (Stage.replying d d.session r job t x.1 x.2 hjob hrunning hperform hreplies).keeps
            (.inl (Nat.lt_succ_self _))
  | replying d x r job t i a hjob hrunning hperform hreplies =>
      let next : Dialogue α σ :=
        { d with replies := fun t' => if t' = t then some a else d.replies t' }
      exact (Stage.replied next x r job t i a .checking hjob hrunning hperform (if_pos rfl)).keeps
        (.inl (Nat.lt_succ_self _))
  | replied d x r job t i a p hjob hrunning hperform hreplies =>
      cases p with
      | checking =>
          exact (Stage.replied d x r job t i a .receiving hjob hrunning hperform hreplies).keeps
            (.inr ⟨nofun, rfl, rfl⟩)
      | receiving | waiting =>
          exact (Stage.replied d x r job t i a .waiting hjob hrunning hperform hreplies).keeps
            (.inr ⟨nofun, rfl, rfl⟩)
  | joining d x p =>
      cases p with
      | checking => exact (Stage.exited d x).keeps (.inl (Nat.lt_succ_self _))
      | receiving =>
          exact (Stage.joining d x .waiting).keeps (.inl (Nat.lt_succ_self _))
      | waiting => exact (Stage.joining d x .waiting).keeps (.inr ⟨nofun, rfl, rfl⟩)
  | exited d x => exact (Stage.exited d x).keeps (.inr ⟨nofun, rfl, rfl⟩)
  | stopped d _ hrunning => exact (Stage.stopped d todo hrunning).keeps (.inr ⟨nofun, rfl, rfl⟩)

theorem Stage.timeout (h : Stage fuel todo x d) : Leads fuel todo x d .timeout d.timeout := by
  cases h with
  | ready d _ p hrunning =>
      cases p <;> exact (Stage.ready d todo _ hrunning).keeps (.inr ⟨nofun, rfl, rfl⟩)
  | sending d r job p hjob hrunning =>
      cases p <;> exact (Stage.sending d r job _ hjob hrunning).keeps (.inr ⟨nofun, rfl, rfl⟩)
  | posted d r job t p hjob hrunning hreplies =>
      cases p with
      | checking | receiving =>
          exact (Stage.posted d r job t _ hjob hrunning hreplies).keeps (.inr ⟨nofun, rfl, rfl⟩)
      | waiting =>
          exact (Stage.posted d r job t .checking hjob hrunning hreplies).keeps
            (.inl (Nat.lt_succ_self _))
  | serving d r job t hjob hrunning hreplies =>
      exact (Stage.serving d r job t hjob hrunning hreplies).keeps (.inr ⟨nofun, rfl, rfl⟩)
  | replying d x r job t i a hjob hrunning hperform hreplies =>
      exact (Stage.replying d x r job t i a hjob hrunning hperform hreplies).keeps
        (.inr ⟨nofun, rfl, rfl⟩)
  | replied d x r job t i a p hjob hrunning hperform hreplies =>
      cases p <;>
        exact (Stage.replied d x r job t i a _ hjob hrunning hperform hreplies).keeps
          (.inr ⟨nofun, rfl, rfl⟩)
  | joining d x p =>
      cases p with
      | checking | receiving =>
          exact (Stage.joining d x _).keeps (.inr ⟨nofun, rfl, rfl⟩)
      | waiting => exact (Stage.joining d x .checking).keeps (.inl (Nat.lt_succ_self _))
  | exited d x => exact (Stage.exited d x).keeps (.inr ⟨nofun, rfl, rfl⟩)
  | stopped d _ hrunning => exact (Stage.stopped d todo hrunning).keeps (.inr ⟨nofun, rfl, rfl⟩)

theorem Stage.turn (h : Stage fuel todo x d) (t : Turn) :
    Leads fuel todo x d t (d.turn fuel t) := by
  cases t with
  | client => exact h.clientTurn
  | worker => exact h.workerTurn
  | timeout => exact h.timeout

/-- The client has what the session has given it. -/
theorem Stage.client (h : Stage fuel todo x d) :
    d.session.answers = x.answers ∧ d.session.memory = x.memory := by
  cases h <;> exact ⟨rfl, rfl⟩

/-- The worker is where the session is, or one request further. -/
theorem Stage.worker (h : Stage fuel todo x d) : ∃ y rest, Serves fuel x todo y rest ∧
    d.session.worker = y.worker ∧ d.session.executed = y.executed := by
  cases h with
  | ready | sending | posted | serving | stopped => exact ⟨_, _, .refl fuel _ _, rfl, rfl⟩
  | replying d x r job t i a hjob hrunning hperform _
  | replied d x r job t i a _ hjob hrunning hperform _ =>
      exact ⟨_, _, .one (Session.serve_of_perform hjob hrunning hperform), rfl, rfl⟩
  | joining d x | exited d x => exact ⟨_, _, .one (Session.serve_shutdown rfl), rfl, rfl⟩

end Dialogue

end Broadway
