import ArmStream.Link.State

/-!
# Handing messages on

The loop takes submitted messages into its outbox as long as the outbox is below the high-water
mark; messages beyond it are given up. From the outbox each message goes to one peer, in turn
among those that have room, or into one datagram.

## Main definitions

- `LinkState.takeSubmissions`: from the queue into the outbox.
- `Streams.turn?`: whose turn it is.
- `LinkState.handOn`: from the outbox to the sockets.
-/

namespace ArmStream

namespace Streams

/-- The first peer with room for `len` bytes, in the order of tokens from behind the peer that
got the last message, and from the start again. -/
def turn? (t : Streams) (len limit : Nat) : Option (Token × Peer) :=
  let after := match t.lastServed with
    | none => []
    | some last => t.peers.filter fun (token, _) => last < token
  (after ++ t.peers).find? fun (_, p) => p.fits len limit

end Streams

namespace LinkState

variable {σ : Type}

def take (s : LinkState σ) (b : Builder) : LinkState σ :=
  if s.config.pendingHighWaterMark ≤ s.outbox.length then (s.countDropped 1).release b
  else { s with outbox := s.outbox ++ [b] }

def takeSubmissions (s : LinkState σ) : LinkState σ :=
  s.queue.foldl take { s with queue := [] }

/-- Hands the oldest message to a peer. A message too long for a frame is given up instead; it
still takes the peer's turn. `none` if there is no message, or no peer for it. -/
def handOver? (s : LinkState σ) (t : Streams) : Option (LinkState σ × Streams) :=
  match s.outbox with
  | [] => none
  | b :: rest =>
    match t.turn? b.size s.config.maxPeerBufferBytes with
    | none => none
    | some (token, p) =>
      let s := { s with outbox := rest }
      let t := { t with lastServed := some token }
      let pushed := match b.bytes with
        | .ok bytes => p.push? bytes
        | .error _ => none
      match pushed with
      | some p => some (s.release b, t.setPeer token p)
      | none => some ((s.countDropped 1).release b, t)

def handOverAll : (fuel : Nat) → LinkState σ → Streams → LinkState σ × Streams
  | 0, s, t => (s, t)
  | fuel + 1, s, t =>
    match s.handOver? t with
    | none => (s, t)
    | some (s, t) => handOverAll fuel s t

/-- Takes note of what an offer to a peer did. The peer stays unless the write failed; the flag
tells whether it does. -/
def noteWritten (s : LinkState σ) (r : Peer.Written σ) : LinkState σ × Bool :=
  let s := { s with world := r.world }.countSent r.frames r.bytes
  match r.outcome with
  | .settled => (s, true)
  | .failed _ => (s.countSendError, false)
  | .died => ({ s with loopDied := true }, true)

/-- Offers to each peer what it has not taken yet, in the order of tokens. Gives back the peers
and the tokens of those whose write failed. -/
def offerAll (net : Net σ) : LinkState σ → List (Token × Peer) →
    LinkState σ × List (Token × Peer) × List Token
  | s, [] => (s, [], [])
  | s, (token, p) :: rest =>
    if s.loopDied then (s, (token, p) :: rest, [])
    else
      let r := p.flush net s.world
      let (s, alive) := s.noteWritten r
      let (s, rest, failed) := offerAll net s rest
      (s, (token, r.peer) :: rest, if alive then failed else token :: failed)

/-- When the stream to the remote side is to be opened again, seen from now. -/
def nextAttempt (net : Net σ) (s : LinkState σ) : Nat :=
  net.now s.world + s.config.reconnectIntervalMs

/-- Parts with a peer. Its unsent frames are given up. -/
def part (net : Net σ) (s : LinkState σ) (t : Streams) (token : Token) :
    LinkState σ × Streams :=
  match t.peer? token with
  | none => (s, t)
  | some p =>
    let t := t.erasePeer token
    match net.deregister p.conn s.world with
    | (.fatal, w) => ({ s with world := w, loopDied := true }, t)
    | (_, w) =>
      let s := { s with world := net.close p.conn w }.countDropped p.frameEnds.length
      (s, { t with
        reopenAt := if token = Token.outbound then some (s.nextAttempt net) else t.reopenAt
        lastServed := if t.lastServed = some token then none else t.lastServed })

def partAll (net : Net σ) : LinkState σ → Streams → List Token → LinkState σ × Streams
  | s, t, [] => (s, t)
  | s, t, token :: rest =>
    if s.loopDied then (s, t)
    else
      let (s, t) := s.part net t token
      partAll net s t rest

def handOnStreams (net : Net σ) (s : LinkState σ) (t : Streams) : LinkState σ :=
  let (s, t) := handOverAll s.outbox.length s t
  let (s, peers, failed) := offerAll net s t.peers
  let (s, t) := s.partAll net { t with peers := peers } failed
  { s with carrier := .streams t }

inductive Sending where
  | sent
  | givenUp
  /-- It is to be offered again at once. -/
  | again
  /-- It cannot be sent for now. -/
  | blocked
  | died
  deriving DecidableEq, Repr, Inhabited

/-- Offers the oldest message `b` as a datagram; `rest` are those behind it. A message whose
sending fails is given up. -/
def sendOldest (net : Net σ) (s : LinkState σ) (b : Builder) (rest : List Builder) :
    LinkState σ × Sending :=
  match b.bytes with
  | .error _ => (({ s with outbox := rest }.countDropped 1).release b, .givenUp)
  | .ok bytes =>
    match net.send bytes s.world with
    | (.ok n, w) => (({ s with world := w, outbox := rest }.countSent 1 n).release b, .sent)
    | (.fail .wouldBlock, w) => ({ s with world := w }, .blocked)
    | (.fail .interrupted, w) => ({ s with world := w }, .again)
    | (.fail _, w) =>
      (({ s with world := w, outbox := rest }.countSendError.countDropped 1).release b, .givenUp)
    | (.fatal, w) => ({ s with world := w, loopDied := true }, .died)

/-- Sends messages as datagrams, oldest first, until one cannot be sent for now. `fuel` bounds the
calls. -/
def sendDatagrams (net : Net σ) : (fuel : Nat) → LinkState σ → LinkState σ
  | 0, s => s
  | fuel + 1, s =>
    match s.outbox with
    | [] => s
    | b :: rest =>
      match s.sendOldest net b rest with
      | (s, .blocked) => s
      | (s, .died) => s
      | (s, _) => sendDatagrams net fuel s

def handOn (net : Net σ) (s : LinkState σ) : LinkState σ :=
  match s.carrier with
  | .streams t => s.handOnStreams net t
  | .datagrams => sendDatagrams net (s.outbox.length + net.patience s.world) s

end LinkState

end ArmStream
