import ArmStream.Message.Error
import ArmStream.Address.Ip

/-!
# What can go wrong on a link

`IoError` is what the operating system reports, `LinkError` what a link reports to its caller.
-/

namespace ArmStream

inductive IoError where
  | wouldBlock
  | interrupted
  | brokenPipe
  | connectionReset
  | connectionRefused
  | notConnected
  | timedOut
  | addressInUse
  | addressNotAvailable
  | permissionDenied
  | outOfMemory
  | writeZero
  /-- A failure that is told apart by its wording alone. -/
  | other (text : String)
  deriving DecidableEq, Repr, Inhabited

def IoError.message : IoError → String
  | .wouldBlock => "operation would block"
  | .interrupted => "operation interrupted"
  | .brokenPipe => "broken pipe"
  | .connectionReset => "connection reset"
  | .connectionRefused => "connection refused"
  | .notConnected => "not connected"
  | .timedOut => "timed out"
  | .addressInUse => "address in use"
  | .addressNotAvailable => "address not available"
  | .permissionDenied => "permission denied"
  | .outOfMemory => "out of memory"
  | .writeZero => "write zero"
  | .other text => text

/-- How bytes travel: as frames on streams, or as datagrams. -/
inductive Scheme where
  | tcp
  | udp
  deriving DecidableEq, Repr, Inhabited

def Scheme.name : Scheme → String
  | .tcp => "tcp"
  | .udp => "udp"

inductive LinkError where
  | io (cause : IoError)
  | invalidEndpoint (endpoint reason : String)
  | schemeMismatch (near far : Scheme)
  | bind (address : SocketAddress) (cause : IoError)
  | connect (address : SocketAddress) (cause : IoError)
  | badMessage (cause : MessageError)
  | frameTooLarge (len : Nat)
  | queueFull (capacity : Nat)
  | loopStopped
  deriving DecidableEq, Repr, Inhabited

def LinkError.message : LinkError → String
  | .io cause => "IO Error: " ++ cause.message
  | .invalidEndpoint endpoint reason =>
    "Invalid endpoint " ++ Text.quote endpoint ++ ": " ++ reason
  | .schemeMismatch near far =>
    s!"Endpoint scheme mismatch: local {near.name}, remote {far.name}"
  | .bind address cause => s!"Failed to bind {address.text}: {cause.message}"
  | .connect address cause => s!"Failed to connect {address.text}: {cause.message}"
  | .badMessage cause => "Protocol error: " ++ cause.message
  | .frameTooLarge len => s!"Frame too large: {len} bytes"
  | .queueFull capacity => s!"Submit queue full (capacity: {capacity})"
  | .loopStopped => "Event loop stopped"

def LinkError.chain (e : LinkError) : List String :=
  e.message ::
    match e with
    | .io cause => [cause.message]
    | .bind _ cause => [cause.message]
    | .connect _ cause => [cause.message]
    | .badMessage cause => [cause.message]
    | _ => []

end ArmStream
