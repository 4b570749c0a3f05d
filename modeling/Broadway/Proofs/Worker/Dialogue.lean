import Broadway.Proofs.Worker.Session

/-!
# A client and a worker thread

A dialogue is a client and a worker thread with all that lies between them: the channel of
requests, which has room for one, a reply channel for each request, the handle of the thread, and
the flag that stops it. The client and the thread take turns in any order. The thread looks at the
flag and then for a request; if it finds none it waits for one until a time-out sends it back to
the flag. A turn of a party that has to wait for the other changes nothing.

One client holds the lock on the worker whenever it asks for it, so the lock is left out.
-/

namespace Broadway

variable {α σ : Type}

namespace Dialogue

/-- The client is between two requests, or within one of them. -/
inductive Client (α σ : Type)
  | ready
  /-- The worker runs, as far as the client knows, and there may be room in the channel. -/
  | sending (r : Request α σ) (job : Job α)
  /-- The client waits at the reply channel with this number. -/
  | awaiting (r : Request α σ) (ticket : Nat)
  /-- The client has stopped the worker, and waits for its thread to exit. -/
  | joining

/-- The thread is between two requests: it looks at the flag, looks for a request, or waits for
one. -/
inductive Poll
  | checking
  | receiving
  | waiting

/-- The worker thread polls, or is within a request, or has exited. -/
inductive Thread (α : Type)
  | polling (p : Poll)
  | serving (job : Job α) (ticket : Nat)
  | replying (a : Answer α) (ticket : Nat)
  | exited

def Thread.isExited : Thread α → Bool
  | .exited => true
  | .polling _ | .serving .. | .replying .. => false

/-- Whether the thread is to answer at this reply channel. -/
def Thread.owes (ticket : Nat) : Thread α → Bool
  | .serving _ t | .replying _ t => t = ticket
  | .polling _ | .exited => false

/-- What may happen next. -/
inductive Turn
  | client
  | worker
  | timeout
  deriving DecidableEq

end Dialogue

open Dialogue

/-- A client and a worker thread in the middle of things. -/
structure Dialogue (α σ : Type) where
  /-- The requests that the client has still to make. -/
  pending : List (Request α σ)
  client : Client α σ
  /-- Whether the client has the handle of the thread: it gives it up to stop the worker. -/
  handle : Bool
  /-- The channel of requests, with the numbers of their reply channels. -/
  slot : Option (Job α × Nat)
  /-- So many reply channels have been made. -/
  tickets : Nat
  /-- What lies in each reply channel. -/
  replies : Nat → Option (Answer α)
  thread : Thread α
  /-- The interpreter of the thread, the flag, and the record of both parties. -/
  session : Session α σ

namespace Dialogue

/-- The worker has just been spawned over an interpreter. -/
def start (requests : List (Request α σ)) (i : Interpreter) (memory : σ) : Dialogue α σ where
  pending := requests
  client := .ready
  handle := true
  slot := none
  tickets := 0
  replies _ := none
  thread := .polling .checking
  session := .start i memory

variable (d : Dialogue α σ)

/-- Whether the client takes the worker for running. -/
def isRunning : Bool := d.session.worker.running && d.handle && !d.thread.isExited

/-- Whether an answer may still come at a reply channel. -/
def mayReply (ticket : Nat) : Bool :=
  d.thread.owes ticket || d.slot.any fun request => request.2 = ticket

/-- The client returns from a request with an answer, and tells its listener. -/
def conclude (r : Request α σ) (a : Answer α) : Dialogue α σ :=
  { d with
    client := .ready
    session := { d.session with
      answers := d.session.answers ++ [a]
      memory := r.hear a d.session.memory } }

/-- The client turns to a request. It looks first whether the worker runs, or stops it. -/
def undertake (r : Request α σ) : Dialogue α σ :=
  match r.job? with
  | some job =>
    if d.isRunning then { d with client := .sending r job } else d.conclude r r.refusal
  | none =>
    let stopping := { d with
      handle := false
      session := { d.session with worker := d.session.worker.shutdown } }
    if d.handle then { stopping with client := .joining } else stopping.conclude r .stopped

/-- The client puts a job into the channel of requests, with a new reply channel. -/
def post (r : Request α σ) (job : Job α) : Dialogue α σ :=
  { d with
    client := .awaiting r d.tickets
    slot := some (job, d.tickets)
    tickets := d.tickets + 1
    replies := fun t => if t = d.tickets then none else d.replies t }

def clientTurn : Dialogue α σ :=
  match d.client with
  | .ready =>
    match d.pending with
    | [] => d
    | r :: rest => { d with pending := rest }.undertake r
  | .sending r job =>
    -- there is no channel any more once the thread has exited
    if d.thread.isExited then d.conclude r r.refusal
    else if d.slot.isSome then d
    else d.post r job
  | .awaiting r ticket =>
    match d.replies ticket with
    | some a => d.conclude r a
    | none => if d.mayReply ticket then d else d.conclude r r.refusal
  | .joining => if d.thread.isExited then d.conclude .shutdown .stopped else d

/-- The thread does a job, if the fuel lasts. -/
def execute (fuel : Nat) (job : Job α) (ticket : Nat) : Dialogue α σ :=
  match job.perform fuel d.session.worker.interpreter with
  | some (i, a) =>
    { d with
      thread := .replying a ticket
      session := { d.session with
        worker := { d.session.worker with interpreter := i }
        executed := d.session.executed ++ [job] } }
  | none => d

def workerTurn (fuel : Nat) : Dialogue α σ :=
  match d.thread with
  | .polling .checking =>
    if d.session.worker.running then { d with thread := .polling .receiving }
    else { d with thread := .exited, slot := none }
  | .polling _ =>
    match d.slot with
    | some (job, ticket) => { d with slot := none, thread := .serving job ticket }
    | none => { d with thread := .polling .waiting }
  | .serving job ticket => d.execute fuel job ticket
  | .replying a ticket =>
    { d with
      thread := .polling .checking
      replies := fun t => if t = ticket then some a else d.replies t }
  | .exited => d

/-- A wait for a request comes to its end. A request may have arrived in the same moment. -/
def timeout : Dialogue α σ :=
  match d.thread with
  | .polling .waiting => { d with thread := .polling .checking }
  | _ => d

def turn (fuel : Nat) (d : Dialogue α σ) : Turn → Dialogue α σ
  | .client => d.clientTurn
  | .worker => d.workerTurn fuel
  | .timeout => d.timeout

/-- A dialogue after so many turns. -/
def run (fuel : Nat) (schedule : Nat → Turn) (d : Dialogue α σ) : Nat → Dialogue α σ
  | 0 => d
  | n + 1 => (run fuel schedule d n).turn fuel (schedule n)

/-- Each party gets its turn again and again, and so does the time-out. -/
def Fair (schedule : Nat → Turn) : Prop :=
  ∀ t n, ∃ k, schedule (n + k) = t

end Dialogue

end Broadway
