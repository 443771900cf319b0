import ArmStream.Link.HandOn

/-!
# Reacting to sockets

The loop accepts streams, finishes the opening of the stream to the remote side, throws away what
arrives and parts with peers whose input ended or whose write failed. Nothing that arrives
changes what is sent.

## Main definitions

- `LinkState.welcomeAll`, `LinkState.settleOpening`, `LinkState.reopen`
- `LinkState.react`: the reaction to one event.
-/

namespace ArmStream.LinkState

variable {σ : Type}

def registerStream (net : Net σ) (conn : Conn) (token : Token) (w : σ) : Reply Unit × σ :=
  net.register (.stream conn) token w

/-- Asks for small packets to be sent at once. A failure is ignored. -/
def hurry (net : Net σ) (s : LinkState σ) (conn : Conn) : LinkState σ :=
  match net.setNodelay conn s.world with
  | (.fatal, w) => { s with world := w, loopDied := true }
  | (_, w) => { s with world := w }

/-- Makes an accepted stream a peer. One that cannot be watched is closed. -/
def welcome (net : Net σ) (s : LinkState σ) (t : Streams) (conn : Conn) :
    LinkState σ × Streams :=
  let token := t.nextToken
  let t := { t with nextToken := token + 1 }
  match registerStream net conn token s.world with
  | (.fatal, w) => ({ s with world := w, loopDied := true }, t)
  | (.fail _, w) => ({ s with world := net.close conn w }, t)
  | (.ok _, w) =>
    let s := { s with world := w }.hurry net conn
    if s.loopDied then (s, t)
    else
      ({ s with metrics.peersAccepted := s.metrics.peersAccepted + 1 },
        t.setPeer token { conn := conn })

/-- Accepts streams until none waits. `fuel` bounds the calls. -/
def welcomeAll (net : Net σ) : (fuel : Nat) → LinkState σ → Streams → LinkState σ × Streams
  | 0, s, t => (s, t)
  | fuel + 1, s, t =>
    match net.accept s.world with
    | (.ok conn, w) =>
      let (s, t) := welcome net { s with world := w } t conn
      if s.loopDied then (s, t) else welcomeAll net fuel s t
    | (.fail .interrupted, w) => welcomeAll net fuel { s with world := w } t
    | (.fail _, w) => ({ s with world := w }, t)
    | (.fatal, w) => ({ s with world := w, loopDied := true }, t)

inductive Opening where
  | connected
  | stillOpening
  | refused
  | died
  deriving DecidableEq, Repr, Inhabited

def opening (net : Net σ) (conn : Conn) (w : σ) : Opening × σ :=
  match net.takeError conn w with
  | (.fatal, w) => (.died, w)
  | (.fail _, w) => (.refused, w)
  | (.ok (some _), w) => (.refused, w)
  | (.ok none, w) =>
    match net.peerAddress conn w with
    | (.fatal, w) => (.died, w)
    | (.ok _, w) => (.connected, w)
    | (.fail .notConnected, w) => (.stillOpening, w)
    | (.fail _, w) => (.refused, w)

/-- Makes the stream to the remote side a peer once it is connected. After a failure it is opened
again later. -/
def settleOpening (net : Net σ) (s : LinkState σ) (t : Streams) (conn : Conn) :
    LinkState σ × Streams :=
  match opening net conn s.world with
  | (.died, w) => ({ s with world := w, loopDied := true }, t)
  | (.stillOpening, w) => ({ s with world := w }, t)
  | (.connected, w) =>
    let s := { s with world := w }.hurry net conn
    let t := { t with connecting := none }
    if s.loopDied then (s, t) else (s, t.setPeer Token.outbound { conn := conn })
  | (.refused, w) =>
    let t := { t with connecting := none }
    match net.deregister conn w with
    | (.fatal, w) => ({ s with world := w, loopDied := true }, t)
    | (_, w) =>
      let s := { s with world := net.close conn w }
      (s, { t with reopenAt := some (s.nextAttempt net) })

/-- Reads from a peer what arrived. The flag tells whether its input is still open. -/
def readPeer (net : Net σ) (s : LinkState σ) (p : Peer) : LinkState σ × Bool :=
  match Peer.discardInput net p.conn (net.patience s.world) s.world 0 with
  | (w, count, .waiting) => ({ s with world := w }.countReceived count, true)
  | (w, count, .ended) => ({ s with world := w }.countReceived count, false)
  | (w, count, .died) => ({ { s with world := w }.countReceived count with loopDied := true }, true)

/-- Reads from a peer if its event says so. The flag tells whether the peer may still be
written to. -/
def hear (net : Net σ) (s : LinkState σ) (e : Event) (p : Peer) : LinkState σ × Bool :=
  if e.readable then s.readPeer net p else (s, !(e.error || e.readClosed))

/-- Reacts to an event of a peer: first reads, then writes, and parts with it if its input ended
or its write failed. -/
def servePeer (net : Net σ) (s : LinkState σ) (t : Streams) (e : Event) (p : Peer) :
    LinkState σ × Streams :=
  let (s, alive) := s.hear net e p
  if s.loopDied then (s, t)
  else
    let (s, t, alive) :=
      if alive && e.writable then
        let r := p.flush net s.world
        let (s, alive) := s.noteWritten r
        (s, t.setPeer e.token r.peer, alive)
      else (s, t, alive)
    if s.loopDied || alive then (s, t) else s.part net t e.token

def settleOutbound (net : Net σ) (s : LinkState σ) (t : Streams) (e : Event) :
    LinkState σ × Streams :=
  match t.connecting with
  | some conn => if e.token = Token.outbound then s.settleOpening net t conn else (s, t)
  | none => (s, t)

def reactStream (net : Net σ) (s : LinkState σ) (t : Streams) (e : Event) :
    LinkState σ × Streams :=
  let (s, t) := s.settleOutbound net t e
  if s.loopDied then (s, t)
  else
    match t.peer? e.token with
    | none => (s, t)
    | some p => s.servePeer net t e p

/-- Reads and throws away the datagrams that arrived. `fuel` bounds the calls. -/
def discardDatagrams (net : Net σ) : (fuel : Nat) → LinkState σ → LinkState σ
  | 0, s => s
  | fuel + 1, s =>
    match net.receive Peer.readChunk s.world with
    | (.ok bytes, w) => discardDatagrams net fuel ({ s with world := w }.countReceived bytes.size)
    | (.fail .interrupted, w) => discardDatagrams net fuel { s with world := w }
    | (.fail .connectionRefused, w) => discardDatagrams net fuel { s with world := w }
    | (.fail _, w) => { s with world := w }
    | (.fatal, w) => { s with world := w, loopDied := true }

def react (net : Net σ) (s : LinkState σ) (e : Event) : LinkState σ :=
  if s.loopDied || e.token = Token.waker then s
  else
    match s.carrier with
    | .streams t =>
      let (s, t) :=
        if e.token = Token.listener then welcomeAll net (net.patience s.world) s t
        else s.reactStream net t e
      { s with carrier := .streams t }
    | .datagrams =>
      if e.token ≠ Token.listener ∧ e.readable then
        discardDatagrams net (net.patience s.world) s
      else s

/-- Opens the stream to the remote side again, if it is time. -/
def reopen (net : Net σ) (s : LinkState σ) : LinkState σ :=
  match s.carrier with
  | .datagrams => s
  | .streams t =>
    match t.reopenAt with
    | none => s
    | some due =>
      if s.loopDied || net.now s.world < due then s
      else
        let s := { s with metrics.reconnects := s.metrics.reconnects + 1 }
        let t := { t with reopenAt := none }
        let later (s : LinkState σ) : LinkState σ :=
          { s with carrier := .streams { t with reopenAt := some (s.nextAttempt net) } }
        match net.connect t.remote s.world with
        | (.fatal, w) => { s with world := w, loopDied := true, carrier := .streams t }
        | (.fail _, w) => later { s with world := w }
        | (.ok conn, w) =>
          match registerStream net conn Token.outbound w with
          | (.fatal, w) => { s with world := w, loopDied := true, carrier := .streams t }
          | (.fail _, w) => later { s with world := net.close conn w }
          | (.ok _, w) =>
            { s with world := w, carrier := .streams { t with connecting := some conn } }

end ArmStream.LinkState
