import ArmStream.Driver
import ArmStream.Simulation.World

/-!
# Trying out a link

A trial puts a link into a simulated world and lets its loop run whenever it can: after each thing
that happens the loop goes on until it waits with nothing to do, or has ended. While the loop is
held it stays in its wait, whatever happens.

## Main definitions

- `Incident`: what can happen in the world.
- `LoopPhase`, `Trial.settle`: where the loop is, and letting it run.
- `Trial.submit`, `Trial.spawn`, `Trial.join`: what callers do.
- `Trial.look`: what changed since the last look.
-/

namespace ArmStream.Simulation

inductive Incident where
  | tick
  | connect
  | establish (conn : Conn)
  | refuse (conn : Conn)
  | send (conn : Conn) (data : Bytes)
  | close (conn : Conn)
  | reset (conn : Conn)
  | window (conn : Conn) (bytes : Option Nat)
  | datagram (data : Bytes)
  | event (e : Event)
  | reach (phase : Phase)
  | faults (call : Call) (entries : List Fault)
  deriving Repr, Inhabited

inductive Outcome where
  | happened
  | connected (conn : Conn)
  | noSuchStream
  deriving DecidableEq, Repr, Inhabited

namespace World

/-- The change of a stream from outside, with the event that it causes. -/
def touch (w : World) (conn : Conn) (f : Stream → Stream) (readable writable : Bool) :
    Outcome × World :=
  match w.stream? conn with
  | none => (.noSuchStream, w)
  | some _ =>
    let w := w.adjust conn f
    (.happened, if readable || writable then w.signal conn readable writable else w)

/-- A stream from outside that waits to be accepted. -/
def arrive (w : World) : Outcome × World :=
  let (conn, w) := w.addStream .connected
  let w := { w with backlog := w.backlog ++ [conn] }
  (.connected conn,
    match w.listener with
    | some token => w.raise { token := token, readable := true }
    | none => w)

def happen (w : World) : Incident → Outcome × World
  | .tick => (.happened, { w with ticked := true })
  | .connect => w.arrive
  | .establish conn => w.touch conn (fun s => { s with phase := .connected }) false true
  | .refuse conn => w.touch conn (fun s => { s with phase := .refused }) false true
  | .send conn data => w.touch conn (fun s => { s with input := s.input ++ data }) true false
  | .close conn => w.touch conn (fun s => { s with inputClosed := true }) true false
  | .reset conn => w.touch conn (fun s => { s with broken := true }) true true
  | .window conn bytes =>
    let opens := (w.stream? conn).any fun s => s.window == some 0 && bytes != some 0
    w.touch conn (fun s => { s with window := bytes }) false opens
  | .datagram data =>
    let w := { w with inbox := w.inbox ++ [data] }
    (.happened,
      match w.datagrams with
      | some token => w.raise { token := token, readable := true }
      | none => w)
  | .event e => (.happened, w.raise e)
  | .reach phase => (.happened, { w with reach := .to phase })
  | .faults call entries =>
    (.happened, { w with faults := w.faults ++ entries.map fun f => (call, f) })

end World

inductive LoopPhase where
  /-- It was not started. -/
  | unstarted
  /-- It is about to begin a round. -/
  | ready
  | waiting (timeout : Nat)
  /-- It ended by itself. -/
  | ended
  /-- It ended inside a call. -/
  | died
  deriving DecidableEq, Repr, Inhabited

namespace LoopPhase

def isGone : LoopPhase → Bool
  | .ended => true
  | .died => true
  | _ => false

def timeout? : LoopPhase → Option Nat
  | .waiting timeout => some timeout
  | _ => none

end LoopPhase

structure Trial where
  link : LinkState World
  phase : LoopPhase := .unstarted
  /-- The loop stays in its wait. -/
  held : Bool := false
  /-- The thread of the loop was waited for. -/
  joined : Bool := false
  deriving Inhabited

namespace Trial

def follow (t : Trial) : LinkState World × LinkState.Next → Trial
  | (s, .waits timeout) => { t with link := s, phase := .waiting timeout }
  | (s, .continues) => { t with link := s, phase := .ready }
  | (s, .leaves _) => { t with link := s.leave World.net, phase := .ended }
  | (s, .died) => { t with link := s.vanish World.net, phase := .died }

/-- One move of the loop; `none` if it is not running, or waits on. -/
def move? (t : Trial) : Option Trial :=
  match t.phase with
  | .ready => some (t.follow (t.link.advance World.net))
  | .waiting _ =>
    if t.held then none
    else
      match t.link.world.poll with
      | (none, _) => none
      | (some r, w) => some (t.follow ({ t.link with world := w }.resume World.net r))
  | _ => none

def moves : Nat → Trial → Trial
  | 0, t => t
  | n + 1, t =>
    match t.move? with
    | none => t
    | some t => moves n t

/-- The moves that a loop is granted between two things that happen. A loop that has not come to
rest by then never will. -/
def patience : Nat := 10000

def settle (t : Trial) : Trial := moves patience t

/-- A running loop from the begin of a round on, until it waits with nothing to do or has
ended. -/
def running (s : LinkState World) : LinkState World :=
  (settle { link := s, phase := .ready }).link

def happen (t : Trial) (i : Incident) : Outcome × Trial :=
  let (r, w) := t.link.world.happen i
  (r, { t with link := { t.link with world := w } })

def spawn (t : Trial) : Trial :=
  match t.phase with
  | .unstarted => if t.link.receiving then { t with phase := .ready } else t
  | _ => t

def dropLoop (t : Trial) : Trial :=
  match t.phase with
  | .unstarted => { t with link := t.link.vanish World.net }
  | _ => t

/-- Waits for the thread of the loop; tells whether it ended by itself and was not waited for
before. -/
def join (t : Trial) : Bool × Trial :=
  if t.phase.isGone then (t.phase == .ended && !t.joined, { t with joined := true })
  else (false, t)

/-- What callers submitted: how often it went well and badly, and the last error. -/
structure Tally where
  accepted : Nat := 0
  refused : Nat := 0
  lastError : Option LinkError := none
  deriving Repr, Inhabited

def build (s : LinkState World) (fields : List Field) (finish : Bool) :
    Except LinkError Builder × LinkState World :=
  let (b, s) := s.acquire
  match b.pushAll fields with
  | (_, some e) => (.error (.badMessage e), s)
  | (b, none) =>
    if finish then
      match b.finish .jointState with
      | .ok b => (.ok b, s)
      | .error e => (.error (.badMessage e), s)
    else (.ok b, s)

/-- Builds and submits the same message several times. -/
def submit (fields : List Field) (finish : Bool) :
    (times : Nat) → LinkState World → Tally → Tally × LinkState World
  | 0, s, tally => (tally, s)
  | times + 1, s, tally =>
    let (r, s) :=
      match build s fields finish with
      | (.error e, s) => (Except.error e, s)
      | (.ok b, s) =>
        let (s, r) := s.submit World.net b
        (r, s)
    submit fields finish times s
      (match r with
        | .ok _ => { tally with accepted := tally.accepted + 1 }
        | .error e => { tally with refused := tally.refused + 1, lastError := some e })

def dropGuards (s : LinkState World) : LinkState World :=
  s.guards.fold (fun _ _ s => s.dropGuard World.net) s

/-- Ends a trial: all guards are given back and the loop is stopped; one that was never started is
given up. -/
def finish (t : Trial) : Trial :=
  let ended := { t with link := (dropGuards t.link).stop World.net, held := false }.settle
  ended.dropLoop

/-- Lets the clock go forward until a condition holds, in steps of the interval between two
attempts to connect, for at most half a second. -/
def await (condition : LinkState World → Bool) : (fuel elapsed : Nat) → Trial → Option Trial
  | 0, _, t => if condition t.link then some t else none
  | fuel + 1, elapsed, t =>
    if condition t.link then some t
    else
      let step := max 1 t.link.config.reconnectIntervalMs
      if 500 < elapsed + step || t.phase.timeout?.isNone then none
      else
        let w := t.link.world
        let later := { w with clock := w.clock + step, ticked := true }
        await condition fuel (elapsed + step)
          (settle { t with link := { t.link with world := later } })

end Trial

structure Seen where
  /-- The bytes of output of each stream. -/
  output : List Nat := []
  sent : Nat := 0
  closed : Nat := 0
  attempts : Nat := 0
  deriving Repr, Inhabited

structure Changes where
  /-- What was written to streams. -/
  wrote : List (Conn × Bytes)
  sent : List Bytes
  /-- The streams given up, in ascending order. -/
  closed : List Conn
  attempts : Nat
  deriving Repr, Inhabited

def World.look (w : World) (seen : Seen) : Changes × Seen :=
  let fresh (s : Stream × Nat) : Option (Conn × Bytes) :=
    let before := seen.output[s.2]?.getD 0
    if before < s.1.output.size then some (s.2, s.1.output.extract before s.1.output.size) else none
  (⟨w.streams.toList.zipIdx.filterMap fresh, w.sent.drop seen.sent,
      (w.closed.drop seen.closed).mergeSort, w.attempts - seen.attempts⟩,
    ⟨w.streams.toList.map (·.output.size), w.sent.length, w.closed.length, w.attempts⟩)

end ArmStream.Simulation
