import ArmStream.Endpoint
import ArmStream.Link.Round

/-!
# Opening a link

A channel is the local socket together with the way to the remote side. Both addresses are read
and resolved before anything is opened. A local address that cannot be bound is an error at once;
a stream that cannot be opened is opened again later by the loop. From a channel and its settings
comes a link whose loop does not run yet.

## Main definitions

- `Channel.open`: the channel between two endpoints.
- `LinkState.ofChannel`: the link on a channel.
-/

namespace ArmStream

/-- The sockets of a link before its loop exists. -/
structure Channel where
  near : Endpoint
  far : Endpoint
  /-- The address of the remote side. -/
  remote : SocketAddress
  /-- The stream that is being opened to it. -/
  outbound : Option Conn
  deriving DecidableEq, Repr, Inhabited

inductive Opened (α : Type) where
  | done (value : α)
  | refused (cause : LinkError)
  | died
  deriving Repr, Inhabited

/-- The addresses of both sides. A difference of schemes comes before a host without address, and
the near side before the far side. -/
def resolveBoth (names : NameService) (near far : Endpoint) :
    Except LinkError (SocketAddress × SocketAddress) :=
  if near.scheme ≠ far.scheme then .error (.schemeMismatch near.scheme far.scheme)
  else
    match near.resolve names with
    | .error e => .error e
    | .ok a =>
      match far.resolve names with
      | .error e => .error e
      | .ok b => .ok (a, b)

def parseBoth (near far : String) : Except LinkError (Endpoint × Endpoint) :=
  match Endpoint.parse near with
  | .error e => .error e
  | .ok a =>
    match Endpoint.parse far with
    | .error e => .error e
    | .ok b => .ok (a, b)

namespace Channel

variable {σ : Type}

def connect (net : Net σ) (near far : Endpoint) (a b : SocketAddress) (w : σ) :
    Opened Channel × σ :=
  match net.bind near.scheme a w with
  | (.fatal, w) => (.died, w)
  | (.fail e, w) => (.refused (.bind a e), w)
  | (.ok _, w) =>
    match near.scheme with
    | .tcp =>
      match net.connect b w with
      | (.fatal, w) => (.died, net.closeAll w)
      | (.fail _, w) => (.done ⟨near, far, b, none⟩, w)
      | (.ok conn, w) => (.done ⟨near, far, b, some conn⟩, w)
    | .udp =>
      match net.aim b w with
      | (.fatal, w) => (.died, net.closeAll w)
      | (.fail e, w) => (.refused (.connect b e), net.closeAll w)
      | (.ok _, w) => (.done ⟨near, far, b, none⟩, w)

def openBetween (net : Net σ) (near far : String) (w : σ) : Opened Channel × σ :=
  match parseBoth near far with
  | .error e => (.refused e, w)
  | .ok (near, far) =>
    match resolveBoth (net.names w) near far with
    | .error e => (.refused e, w)
    | .ok (a, b) => connect net near far a b w

end Channel

namespace LinkState

variable {σ : Type}

def watch (net : Net σ) (channel : Channel) (w : σ) : Reply Unit × σ :=
  match channel.near.scheme with
  | .udp => net.register .datagrams Token.outbound w
  | .tcp =>
    Reply.chain (net.register .listener Token.listener w) fun _ w =>
      match channel.outbound with
      | some conn => registerStream net conn Token.outbound w
      | none => (.ok (), w)

/-- Prepares what the loop needs: the poll, its waker, the bound address and the watched
sockets, in this order. -/
def prepare (net : Net σ) (channel : Channel) (w : σ) : Reply SocketAddress × σ :=
  Reply.chain (net.newPoll w) fun _ w =>
  Reply.chain (net.newWaker w) fun _ w =>
  Reply.chain (net.boundAddress w) fun near w =>
  Reply.chain (watch net channel w) fun _ w => (.ok near, w)

/-- The carrier of a channel at a given time. A stream that could not be opened is due at
once. -/
def carrierOf (channel : Channel) (now : Nat) : Carrier :=
  match channel.near.scheme with
  | .udp => .datagrams
  | .tcp =>
    .streams {
      remote := channel.remote
      connecting := channel.outbound
      reopenAt := if channel.outbound.isSome then none else some now }

/-- The link on a channel; its loop does not run yet. -/
def ofChannel (net : Net σ) (channel : Channel) (config : LinkConfig) (w : σ) :
    Opened (LinkState σ) × σ :=
  match prepare net channel w with
  | (.fatal, w) => (.died, net.closeAll w)
  | (.fail e, w) => (.refused (.io e), net.closeAll w)
  | (.ok near, w) =>
    (.done {
      world := w
      config := config
      boundAddress := near
      carrier := carrierOf channel (net.now w) }, w)

end LinkState

end ArmStream
