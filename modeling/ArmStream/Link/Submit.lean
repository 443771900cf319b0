import ArmStream.Link.State

/-!
# The callers' side of a link

Submitting never waits. A message is refused if it is not finished, if the loop was stopped or is
gone, or if the queue is full; only the last counts as dropped. Guards keep an idle loop alive,
and a stop is final.

## Main definitions

- `LinkState.submit`: hands a message to the loop.
- `LinkState.guard`, `LinkState.dropGuard`, `LinkState.stop`
-/

namespace ArmStream.LinkState

variable {σ : Type}

/-- Wakes the loop. A failure is ignored. -/
def wake (net : Net σ) (s : LinkState σ) : LinkState σ :=
  match net.wake s.world with
  | (.fatal, w) => { s with world := w, callerDied := true }
  | (_, w) => { s with world := w }

inductive Enqueued where
  | queued
  | full
  | gone
  deriving DecidableEq, Repr, Inhabited

/-- Puts a message into the queue, if the loop is there and the queue has room. -/
def enqueue (s : LinkState σ) (b : Builder) : LinkState σ × Enqueued :=
  if !s.receiving then (s, .gone)
  else if s.config.queueCapacity ≤ s.queue.length then (s, .full)
  else ({ s with queue := s.queue ++ [b] }, .queued)

def countSubmitted (s : LinkState σ) : LinkState σ :=
  { s with metrics.submitted := s.metrics.submitted + 1 }

/-- Submits a message. A refused one goes back to the pool. -/
def submit (net : Net σ) (s : LinkState σ) (b : Builder) : LinkState σ × Except LinkError Unit :=
  if !b.finished then (s.release b, .error (.badMessage .notFinished))
  else if s.stopped then (s.release b, .error .loopStopped)
  else
    match s.enqueue b with
    | (s, .queued) => (s.countSubmitted.wake net, .ok ())
    | (s, .full) => ((s.release b).countDropped 1, .error (.queueFull s.config.queueCapacity))
    | (s, .gone) => (s.release b, .error .loopStopped)

def guard (s : LinkState σ) : LinkState σ := { s with guards := s.guards + 1 }

/-- Gives a guard back. The last one wakes the loop, which may be idle now. -/
def dropGuard (net : Net σ) (s : LinkState σ) : LinkState σ :=
  let left := { s with guards := s.guards - 1 }
  if s.guards = 1 then left.wake net else left

def stop (net : Net σ) (s : LinkState σ) : LinkState σ := { s with stopped := true }.wake net

end ArmStream.LinkState
