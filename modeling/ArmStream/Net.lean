import ArmStream.Endpoint

/-!
# The network as a link sees it

A link talks to the operating system through a fixed set of calls. `Net σ` says what each call
answers in a state `σ` of everything outside, and which state it leaves behind. Nothing is
assumed of the answers, so a statement about a link on every `Net` covers every order of
successes and failures.

## Main definitions

- `Reply`: a call succeeds, fails, or ends the thread that made it.
- `Net`: the calls.
- `Event`: what the system reports about a socket.
-/

namespace ArmStream

inductive Reply (α : Type) where
  | ok (value : α)
  | fail (cause : IoError)
  /-- The calling thread ends inside the call. -/
  | fatal
  deriving DecidableEq, Repr, Inhabited

/-- Goes on after a call that succeeded; any other answer ends the sequence. -/
def Reply.chain {α β σ : Type} (r : Reply α × σ) (rest : α → σ → Reply β × σ) : Reply β × σ :=
  match r with
  | (.ok a, w) => rest a w
  | (.fail e, w) => (.fail e, w)
  | (.fatal, w) => (.fatal, w)

abbrev Conn := Nat

abbrev Token := Nat

namespace Token

/-- The waker, by which a caller ends the wait of the loop. -/
def waker : Token := 0

def listener : Token := 1

/-- The stream that was opened to the remote side, or the datagram socket. -/
def outbound : Token := 2

def firstInbound : Token := 3

end Token

inductive Socket where
  | listener
  | datagrams
  | stream (conn : Conn)
  deriving DecidableEq, Repr, Inhabited

structure Event where
  token : Token
  readable : Bool := false
  writable : Bool := false
  error : Bool := false
  readClosed : Bool := false
  deriving DecidableEq, Repr, Inhabited

/-- The calls that a link makes, on any state `σ` of the world. -/
structure Net (σ : Type) where
  /-- The clock, in milliseconds. -/
  now : σ → Nat
  /-- How often a stage of the loop repeats a call before it acts as if nothing more could be
  done. -/
  patience : σ → Nat
  names : σ → NameService
  /-- Opens the listener or the datagram socket. -/
  bind : Scheme → SocketAddress → σ → Reply Unit × σ
  /-- Opens a stream to an address; it may be connected later. -/
  connect : SocketAddress → σ → Reply Conn × σ
  /-- Sets where datagrams go. -/
  aim : SocketAddress → σ → Reply Unit × σ
  /-- The address that was bound. -/
  boundAddress : σ → Reply SocketAddress × σ
  newPoll : σ → Reply Unit × σ
  newWaker : σ → Reply Unit × σ
  startThread : σ → Reply Unit × σ
  register : Socket → Token → σ → Reply Unit × σ
  deregister : Conn → σ → Reply Unit × σ
  wake : σ → Reply Unit × σ
  accept : σ → Reply Conn × σ
  /-- The failure of a stream that could not be connected. -/
  takeError : Conn → σ → Reply (Option IoError) × σ
  /-- Succeeds on a connected stream. -/
  peerAddress : Conn → σ → Reply Unit × σ
  setNodelay : Conn → σ → Reply Unit × σ
  /-- Reads at most so many bytes; none at the end of the input. -/
  read : Conn → Nat → σ → Reply Bytes × σ
  /-- Offers the bytes of a buffer from an offset on; answers how many were taken. -/
  write : Conn → Bytes → Nat → σ → Reply Nat × σ
  send : Bytes → σ → Reply Nat × σ
  receive : Nat → σ → Reply Bytes × σ
  close : Conn → σ → σ
  /-- Closes all sockets of the link. -/
  closeAll : σ → σ

end ArmStream
