import ArmStream.Link.Error

/-!
# Endpoints

An endpoint is a scheme, a host and a port, written `scheme://host:port`. The scheme ends at the
first `://` and the port starts after the last colon, so the host may hold either. A host between
brackets loses them. The host `*` stands for all interfaces. A host that is no address is looked up
by a name service, of which nothing is assumed.

## Main definitions

- `Endpoint.parse`: reading an endpoint, with the first defect as the error.
- `Endpoint.text`: the written form.
- `Endpoint.resolve`: the socket address of an endpoint, by a given name service.
-/

namespace ArmStream

/-- What is known of host names: the addresses of a host, the preferred one first, or why there
are none. -/
abbrev NameService := String → Except String (List Ip)

def NameService.unknown : NameService := fun _ =>
  .error "failed to lookup address information: Name or service not known"

structure Endpoint where
  scheme : Scheme
  host : String
  port : Nat
  deriving DecidableEq, Repr, Inhabited

namespace Endpoint

open Text Number

inductive Defect where
  | missingScheme
  | unsupportedScheme
  | missingPort
  | missingHost
  | invalidPort
  deriving DecidableEq, Repr, Inhabited

def Defect.reason : Defect → String
  | .missingScheme => "missing scheme"
  | .unsupportedScheme => "unsupported scheme (expected tcp or udp)"
  | .missingPort => "missing port"
  | .missingHost => "missing host"
  | .invalidPort => "invalid port"

def readScheme? (s : List Char) : Option Scheme :=
  let folded := s.map Char.toLower
  if folded = ['t', 'c', 'p'] then some .tcp
  else if folded = ['u', 'd', 'p'] then some .udp
  else none

def unbracket (host : List Char) : List Char :=
  match host with
  | '[' :: rest => if rest.getLast? = some ']' then rest.dropLast else host
  | _ => host

/-- Reads an endpoint. Of several defects the first in the order of `Defect` is found. -/
def read (s : List Char) : Except Defect Endpoint :=
  match cutFirst? [':', '/', '/'] s with
  | none => .error .missingScheme
  | some (scheme, rest) =>
    match readScheme? scheme with
    | none => .error .unsupportedScheme
    | some scheme =>
      match cutLast? ':' rest with
      | none => .error .missingPort
      | some (host, port) =>
        let host := unbracket host
        if host = [] then .error .missingHost
        else
          match readBelow? 65536 port with
          | none => .error .invalidPort
          | some port => .ok ⟨scheme, String.ofList host, port⟩

/-- Reads an endpoint; the error repeats the text. -/
def parse (s : String) : Except LinkError Endpoint :=
  match read s.toList with
  | .ok e => .ok e
  | .error defect => .error (.invalidEndpoint s defect.reason)

/-- The written form of an endpoint. A host with a colon stands in brackets. -/
def text (e : Endpoint) : String :=
  let host := if e.host.toList.contains ':' then "[" ++ e.host ++ "]" else e.host
  e.scheme.name ++ "://" ++ host ++ ":" ++ toString e.port

/-- The addresses of a host. Only a host that is no address is looked up, and no name holds a
NUL. -/
def addresses (host : String) (names : NameService) : Except String (List Ip) :=
  match Ip.read? host.toList with
  | some ip => .ok [ip]
  | none =>
    if host.toList.contains (Char.ofNat 0) then
      .error "file name contained an unexpected NUL byte"
    else names host

/-- The socket address of an endpoint: the first of its host. -/
def resolve (e : Endpoint) (names : NameService := .unknown) : Except LinkError SocketAddress :=
  match addresses (if e.host = "*" then "0.0.0.0" else e.host) names with
  | .error reason => .error (.invalidEndpoint e.text reason)
  | .ok [] => .error (.invalidEndpoint e.text "host resolved to no address")
  | .ok (ip :: _) => .ok ⟨ip, e.port⟩

end Endpoint

end ArmStream
