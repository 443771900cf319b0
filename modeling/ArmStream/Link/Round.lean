import ArmStream.Link.Events

/-!
# The rounds of the loop

A round takes messages from the queue, hands them on, waits for events, reacts to them and opens
the stream to the remote side again if it is time. The loop leaves its rounds when it was
stopped, when it is idle, or when waiting failed; what was not sent is then given up.

## Main definitions

- `LinkState.advance`: a round up to its wait.
- `LinkState.resume`: the rest of a round, after the wait.
- `LinkState.leave`: the end of the loop.
-/

namespace ArmStream.LinkState

variable {σ : Type}

/-- Nobody keeps the loop alive and it has nothing to do. -/
def isIdle (s : LinkState σ) : Bool :=
  s.guards == 0 && s.queue.isEmpty && s.outbox.isEmpty
    && match s.carrier with
      | .streams t => t.peers.all fun (_, p) => p.unsent == 0
      | .datagrams => true

/-- The longest wait for events: not beyond the next attempt to connect. -/
def longestWait (net : Net σ) (s : LinkState σ) : Nat :=
  match s.carrier with
  | .streams t =>
    match t.reopenAt with
    | some due => min (due - net.now s.world) s.config.pollTimeoutMs
    | none => s.config.pollTimeoutMs
  | .datagrams => s.config.pollTimeoutMs

inductive Departure where
  | stopRequested
  | idle
  | pollFailed (cause : IoError)
  deriving DecidableEq, Repr, Inhabited

inductive Next where
  /-- It waits for events, at most so many milliseconds. -/
  | waits (timeout : Nat)
  /-- It goes into its next round. -/
  | continues
  | leaves (why : Departure)
  | died
  deriving DecidableEq, Repr, Inhabited

/-- A round up to its wait. -/
def advance (net : Net σ) (s : LinkState σ) : LinkState σ × Next :=
  if s.stopped then (s, .leaves .stopRequested)
  else
    let s := s.takeSubmissions.handOn net
    if s.loopDied then (s, .died)
    else if s.isIdle then (s, .leaves .idle)
    else (s, .waits (s.longestWait net))

/-- The rest of a round, after a wait that ended with the given answer. An interrupted wait ends
the round at once. -/
def resume (net : Net σ) (s : LinkState σ) : Reply (List Event) → LinkState σ × Next
  | .fatal => ({ s with loopDied := true }, .died)
  | .fail .interrupted => (s, .continues)
  | .fail e => (s, .leaves (.pollFailed e))
  | .ok events =>
    let s := (events.foldl (react net) s).reopen net
    (s, if s.loopDied then .died else .continues)

def unsentFrames (s : LinkState σ) : Nat :=
  match s.carrier with
  | .streams t => t.peers.foldr (fun (_, p) n => p.frameEnds.length + n) 0
  | .datagrams => 0

def giveUp (s : LinkState σ) : LinkState σ :=
  let dropped := s.outbox.length + s.queue.length + s.unsentFrames
  let freed := (s.queue ++ s.outbox).foldl release { s with queue := [], outbox := [] }
  freed.countDropped dropped

/-- The loop is gone, and with it its sockets and the receiving end of the queue. Messages still
in the queue are lost uncounted. -/
def vanish (net : Net σ) (s : LinkState σ) : LinkState σ :=
  { s with world := net.closeAll s.world, receiving := false, queue := [] }

def leave (net : Net σ) (s : LinkState σ) : LinkState σ :=
  { s with stopped := true }.giveUp.vanish net

end ArmStream.LinkState
