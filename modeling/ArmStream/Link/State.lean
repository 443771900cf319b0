import ArmStream.Link.Config
import ArmStream.Link.Metrics
import ArmStream.Link.Peer
import ArmStream.Message.Builder

/-!
# The state of a link

A link has two sides. Callers build messages and submit them to a bounded queue; the loop takes
them from there into its outbox and hands them to peers, or sends them as datagrams. `LinkState`
holds what both sides own and share, together with the world outside.

## Main definitions

- `Streams`: the listener's peers and the stream to the remote side.
- `LinkState`: the whole link.
- `LinkState.acquire`, `LinkState.release`: builders from and to the pool.
-/

namespace ArmStream

structure Streams where
  remote : SocketAddress
  /-- The stream to the remote side while it is not connected. -/
  connecting : Option Conn := none
  /-- When to connect again. -/
  reopenAt : Option Nat := none
  /-- The connected streams in ascending order of their tokens. -/
  peers : List (Token × Peer) := []
  nextToken : Token := Token.firstInbound
  /-- Who got the last message. -/
  lastServed : Option Token := none
  deriving DecidableEq, Repr, Inhabited

namespace Streams

def peer? (t : Streams) (token : Token) : Option Peer := t.peers.lookup token

/-- Puts a peer under a token, in its place in the order. -/
def insertPeer (token : Token) (p : Peer) : List (Token × Peer) → List (Token × Peer)
  | [] => [(token, p)]
  | (other, q) :: rest =>
    if token < other then (token, p) :: (other, q) :: rest
    else if token = other then (token, p) :: rest
    else (other, q) :: insertPeer token p rest

def setPeer (t : Streams) (token : Token) (p : Peer) : Streams :=
  { t with peers := insertPeer token p t.peers }

def erasePeer (t : Streams) (token : Token) : Streams :=
  { t with peers := t.peers.filter fun (other, _) => other != token }

end Streams

inductive Carrier where
  | streams (t : Streams)
  | datagrams
  deriving DecidableEq, Repr, Inhabited

structure LinkState (σ : Type) where
  world : σ
  config : LinkConfig
  boundAddress : SocketAddress
  carrier : Carrier
  metrics : LinkMetrics := {}
  /-- Builders for reuse, the last released first. -/
  pool : List Builder := []
  /-- Messages submitted and not yet taken by the loop, oldest first. -/
  queue : List Builder := []
  /-- The loop, run or not, is still there to take messages. -/
  receiving : Bool := true
  /-- Messages that the loop took and has not handed on, oldest first. -/
  outbox : List Builder := []
  stopped : Bool := false
  /-- Guards that keep the loop from ending when it is idle. -/
  guards : Nat := 0
  /-- The thread of the loop ended inside a call. -/
  loopDied : Bool := false
  /-- The thread of a caller ended inside a call. -/
  callerDied : Bool := false
  deriving Inhabited

namespace LinkState

variable {σ : Type}

/-- Takes a builder from the pool, or a new one. -/
def acquire (s : LinkState σ) : Builder × LinkState σ :=
  match s.pool with
  | [] => (Builder.empty, s)
  | b :: rest => (b, { s with pool := rest })

/-- Gives a builder back; a full pool forgets it. -/
def release (s : LinkState σ) (b : Builder) : LinkState σ :=
  if s.pool.length < s.config.maxPooledBuilders then { s with pool := b.reset :: s.pool } else s

def countDropped (s : LinkState σ) (n : Nat) : LinkState σ :=
  { s with metrics.dropped := s.metrics.dropped + n }

def countSendError (s : LinkState σ) : LinkState σ :=
  { s with metrics.sendErrors := s.metrics.sendErrors + 1 }

def countSent (s : LinkState σ) (messages bytes : Nat) : LinkState σ :=
  { s with
    metrics.sent := s.metrics.sent + messages
    metrics.bytesSent := s.metrics.bytesSent + bytes }

def countReceived (s : LinkState σ) (bytes : Nat) : LinkState σ :=
  { s with metrics.bytesReceived := s.metrics.bytesReceived + bytes }

end LinkState

end ArmStream
