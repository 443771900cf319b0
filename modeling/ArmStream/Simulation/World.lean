import ArmStream.Net

/-!
# A world in memory

A simulated network for trying out a link. Streams, datagrams and waiting connections are plain
data; events are queued as the data changes, one entry for each watched socket. A list of faults
for each kind of call says which of the next calls fail, and how.

## Main definitions

- `World`: the sockets, the queued events and the faults to come.
- `World.net`: the calls of a link in such a world.
- `World.poll`: waiting for events.
-/

namespace ArmStream.Simulation

inductive Call where
  | bind
  | connect
  | localAddr
  | pollNew
  | wakerNew
  | register
  | deregister
  | poll
  | wake
  | accept
  | takeError
  | peerAddr
  | setNodelay
  | read
  | write
  deriving DecidableEq, Repr, Inhabited

inductive Fault where
  /-- It does what it always does. -/
  | none
  | fail (cause : IoError)
  /-- The calling thread ends. -/
  | fatal
  /-- It moves at most so many bytes. -/
  | limit (bytes : Nat)
  deriving DecidableEq, Repr, Inhabited

inductive Phase where
  | pending
  | connected
  | refused
  deriving DecidableEq, Repr, Inhabited

inductive Reach where
  /-- The stream starts in this phase. -/
  | to (phase : Phase)
  /-- Every interface is down: no remote address can be reached. -/
  | nowhere
  deriving DecidableEq, Repr, Inhabited

structure Stream where
  phase : Phase
  /-- What was sent to the link. -/
  input : Bytes := #[]
  /-- The bytes of the input that the link read. -/
  consumed : Nat := 0
  inputClosed : Bool := false
  broken : Bool := false
  /-- The bytes that the stream still takes; without a limit if there is none. -/
  window : Option Nat := none
  token : Option Token := none
  /-- What the link wrote. -/
  output : Bytes := #[]
  nodelay : Bool := false
  isOpen : Bool := true
  deriving Repr, Inhabited

namespace Stream

def unread (s : Stream) : Nat := s.input.size - s.consumed

/-- An event of the stream, with what its state adds to each of its events. -/
def event (s : Stream) (e : Event) : Event :=
  if s.broken || s.phase = .refused then
    { e with readable := true, writable := true, error := true, readClosed := true }
  else if s.inputClosed then { e with readClosed := true }
  else e

end Stream

structure World where
  reach : Reach := .to .pending
  streams : Array Stream := #[]
  /-- Addresses that others have bound. -/
  occupied : List (Scheme × SocketAddress) := []
  bound : Option SocketAddress := none
  listener : Option Token := none
  /-- Streams that wait to be accepted, oldest first. -/
  backlog : List Conn := []
  datagrams : Option Token := none
  /-- Datagrams that wait to be received, oldest first. -/
  inbox : List Bytes := []
  /-- Datagrams that the link sent, oldest first. -/
  sent : List Bytes := []
  events : List Event := []
  /-- A wait of the loop ends although nothing happened. -/
  ticked : Bool := false
  faults : List (Call × Fault) := []
  clock : Nat := 0
  /-- Streams that the link gave up, oldest first. -/
  closed : List Conn := []
  /-- Attempts to open a stream. -/
  attempts : Nat := 0
  deriving Repr, Inhabited

namespace World

def takeFault (w : World) (call : Call) : Fault × World :=
  match w.faults.find? fun (c, _) => c = call with
  | none => (.none, w)
  | some (_, fault) => (fault, { w with faults := w.faults.eraseP fun (c, _) => c = call })

/-- A call that its fault may end. -/
def attempt {α : Type} (call : Call) (w : World) (act : World → Reply α × World) :
    Reply α × World :=
  match w.takeFault call with
  | (.fail e, w) => (.fail e, w)
  | (.fatal, w) => (.fatal, w)
  | (_, w) => act w

/-- The same for a call that moves bytes, of which a fault may limit the number. -/
def attemptMove {α : Type} (call : Call) (w : World) (act : Option Nat → World → Reply α × World) :
    Reply α × World :=
  match w.takeFault call with
  | (.fail e, w) => (.fail e, w)
  | (.fatal, w) => (.fatal, w)
  | (.limit n, w) => act (some n) w
  | (.none, w) => act none w

def merge (old new : Event) : Event :=
  { old with
    readable := old.readable || new.readable
    writable := old.writable || new.writable
    error := old.error || new.error
    readClosed := old.readClosed || new.readClosed }

/-- Queues an event; a token has one entry. -/
def enqueue (e : Event) : List Event → List Event
  | [] => [e]
  | old :: rest => if old.token = e.token then merge old e :: rest else old :: enqueue e rest

def raise (w : World) (e : Event) : World := { w with events := enqueue e w.events }

def silence (w : World) (token : Option Token) : World :=
  { w with events := w.events.filter fun e => some e.token != token }

def stream? (w : World) (conn : Conn) : Option Stream := w.streams[conn]?

def adjust (w : World) (conn : Conn) (f : Stream → Stream) : World :=
  { w with streams := w.streams.modify conn f }

/-- Queues an event of a watched stream. -/
def signal (w : World) (conn : Conn) (readable writable : Bool) : World :=
  match w.stream? conn with
  | none => w
  | some s =>
    match s.token with
    | none => w
    | some token => w.raise (s.event { token := token, readable := readable, writable := writable })

def addStream (w : World) (phase : Phase) : Conn × World :=
  (w.streams.size, { w with streams := w.streams.push { phase := phase } })

def unreachable : IoError := .other "Network is unreachable (os error 101)"

def wrongFamily : IoError := .other "Address family not supported by protocol (os error 97)"

def addressTaken : IoError := .other "Address already in use (os error 98)"

/-- Binds the address asked for; any free port is 40000. -/
def bind (scheme : Scheme) (address : SocketAddress) (w : World) : Reply Unit × World :=
  w.attempt .bind fun w =>
    if w.occupied.contains (scheme, address) then (.fail addressTaken, w)
    else
      let port := if address.port = 0 then 40000 else address.port
      (.ok (), { w with bound := some { address with port := port } })

def connect (_ : SocketAddress) (w : World) : Reply Conn × World :=
  { w with attempts := w.attempts + 1 }.attempt .connect fun w =>
    match w.reach with
    | .nowhere => (.fail unreachable, w)
    | .to phase =>
      let (conn, w) := w.addStream phase
      (.ok conn, w)

def aim (address : SocketAddress) (w : World) : Reply Unit × World :=
  w.attempt .connect fun w =>
    match w.reach with
    | .to _ => (.ok (), w)
    | .nowhere =>
      match w.bound, address.ip with
      | some ⟨.v4 .., _⟩, .v6 _ => (.fail wrongFamily, w)
      | _, _ => (.fail unreachable, w)

def boundAddress (w : World) : Reply SocketAddress × World :=
  w.attempt .localAddr fun w => (.ok (w.bound.getD ⟨.any, 0⟩), w)

/-- Watches a socket. What is possible on it already is queued at once. -/
def register (socket : Socket) (token : Token) (w : World) : Reply Unit × World :=
  w.attempt .register fun w =>
    match socket with
    | .listener =>
      let w := { w with listener := some token }
      (.ok (), if w.backlog.isEmpty then w else w.raise { token := token, readable := true })
    | .datagrams =>
      let w := { w with datagrams := some token }
      (.ok (), w.raise { token := token, readable := !w.inbox.isEmpty, writable := true })
    | .stream conn =>
      let w := w.adjust conn fun s => { s with token := some token }
      match w.stream? conn with
      | none => (.ok (), w)
      | some s =>
        let readable := s.unread != 0 || s.inputClosed
        let writable := s.phase != .pending
        (.ok (), if readable || writable then w.signal conn readable writable else w)

def unwatch (w : World) (conn : Conn) : World :=
  match w.stream? conn with
  | none => w
  | some s => (w.silence s.token).adjust conn fun s => { s with token := none }

def deregister (conn : Conn) (w : World) : Reply Unit × World :=
  w.attempt .deregister fun w => (.ok (), w.unwatch conn)

def wake (w : World) : Reply Unit × World :=
  w.attempt .wake fun w => (.ok (), w.raise { token := Token.waker, readable := true })

def accept (w : World) : Reply Conn × World :=
  w.attempt .accept fun w =>
    match w.backlog with
    | [] => (.fail .wouldBlock, w)
    | conn :: rest => (.ok conn, { w with backlog := rest })

def takeError (conn : Conn) (w : World) : Reply (Option IoError) × World :=
  w.attempt .takeError fun w =>
    match w.stream? conn with
    | some s => (.ok (if s.phase = .refused then some .connectionRefused else none), w)
    | none => (.ok none, w)

def peerAddress (conn : Conn) (w : World) : Reply Unit × World :=
  w.attempt .peerAddr fun w =>
    match w.stream? conn with
    | some s => (if s.phase = .connected then .ok () else .fail .notConnected, w)
    | none => (.fail .notConnected, w)

def setNodelay (conn : Conn) (w : World) : Reply Unit × World :=
  w.attempt .setNodelay fun w => (.ok (), w.adjust conn fun s => { s with nodelay := true })

/-- Reads what waits. A broken stream fails only once all was read. -/
def read (conn : Conn) (most : Nat) (w : World) : Reply Bytes × World :=
  w.attemptMove .read fun limit w =>
    match w.stream? conn with
    | none => (.fail .wouldBlock, w)
    | some s =>
      let count := min (min s.unread most) (limit.getD most)
      if count ≠ 0 then
        (.ok (s.input.extract s.consumed (s.consumed + count)),
          w.adjust conn fun s => { s with consumed := s.consumed + count })
      else if s.broken then (.fail .connectionReset, w)
      else if s.inputClosed then (.ok #[], w)
      else (.fail .wouldBlock, w)

/-- Takes what the window lets through. -/
def write (conn : Conn) (data : Bytes) (start : Nat) (w : World) : Reply Nat × World :=
  w.attemptMove .write fun limit w =>
    match w.stream? conn with
    | none => (.fail .wouldBlock, w)
    | some s =>
      let offered := data.size - start
      let count := min (min offered (limit.getD offered)) (s.window.getD offered)
      if s.broken then (.fail .brokenPipe, w)
      else if limit = some 0 then (.ok 0, w)
      else if count = 0 then (.fail .wouldBlock, w)
      else
        (.ok count, w.adjust conn fun s =>
          { s with
            output := s.output ++ data.extract start (start + count)
            window := s.window.map (· - count) })

def send (data : Bytes) (w : World) : Reply Nat × World :=
  w.attemptMove .write fun limit w =>
    let count := min data.size (limit.getD data.size)
    (.ok count, { w with sent := w.sent ++ [data.extract 0 count] })

/-- Receives the oldest datagram, cut to the room for it. -/
def receive (most : Nat) (w : World) : Reply Bytes × World :=
  w.attemptMove .read fun _ w =>
    match w.inbox with
    | [] => (.fail .wouldBlock, w)
    | data :: rest => (.ok (data.extract 0 most), { w with inbox := rest })

def close (conn : Conn) (w : World) : World :=
  { (w.unwatch conn).adjust conn fun s => { s with isOpen := false } with
    closed := w.closed ++ [conn] }

/-- Gives up all streams that do not wait to be accepted, and the bound socket. -/
def closeAll (w : World) : World :=
  let given := (List.range w.streams.size).filter fun conn =>
    (w.stream? conn).any (·.isOpen) && !w.backlog.contains conn
  let w := given.foldl (fun w conn => w.close conn) w
  { (w.silence w.listener).silence w.datagrams with
    bound := none, listener := none, datagrams := none }

/-- A bound for the calls of one stage: each either uses up something that is there now, or is the
last. -/
def patience (w : World) : Nat :=
  w.faults.length + w.backlog.length + w.inbox.length + 2
    + (w.streams.foldl (fun n s => n + s.unread) 0) / 4096 + w.streams.size

def net : Net World where
  now w := w.clock
  patience := patience
  names _ := .unknown
  bind := bind
  connect := connect
  aim := aim
  boundAddress := boundAddress
  newPoll w := w.attempt .pollNew fun w => (.ok (), w)
  newWaker w := w.attempt .wakerNew fun w => (.ok (), w)
  startThread w := (.ok (), w)
  register := register
  deregister := deregister
  wake := wake
  accept := accept
  takeError := takeError
  peerAddress := peerAddress
  setNodelay := setNodelay
  read := read
  write := write
  send := send
  receive := receive
  close := close
  closeAll := closeAll

def maxEvents : Nat := 128

/-- The first fault of a wait that ends it, and the world without the faults up to it. -/
def pollFault : (fuel : Nat) → World → Option (Reply (List Event)) × World
  | 0, w => (none, w)
  | fuel + 1, w =>
    if w.faults.any fun (c, _) => c = .poll then
      match w.takeFault .poll with
      | (.fail e, w) => (some (.fail e), w)
      | (.fatal, w) => (some .fatal, w)
      | (_, w) => pollFault fuel w
    else (none, w)

/-- The end of a wait, or `none` while it goes on. -/
def poll (w : World) : Option (Reply (List Event)) × World :=
  match pollFault w.faults.length w with
  | (some r, w) => (some r, w)
  | (none, w) =>
    if w.ticked || !w.events.isEmpty then
      (some (.ok (w.events.take maxEvents)),
        { w with events := w.events.drop maxEvents, ticked := false })
    else (none, w)

end World

end ArmStream.Simulation
