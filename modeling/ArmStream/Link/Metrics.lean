/-!
# Counters of a link

The counters only grow while a link is open. `inFlight` is what was submitted and neither sent
nor dropped; it stops at zero.
-/

namespace ArmStream

structure LinkMetrics where
  /-- Messages that the queue took. -/
  submitted : Nat := 0
  /-- Messages that a socket took completely. -/
  sent : Nat := 0
  /-- Bytes that sockets took, lengths of frames included. -/
  bytesSent : Nat := 0
  /-- Messages given up: refused by a full queue, above the high-water mark, or not sent
  completely before their peer left. -/
  dropped : Nat := 0
  /-- Writes that failed. -/
  sendErrors : Nat := 0
  /-- Attempts to connect again. -/
  reconnects : Nat := 0
  /-- Peers that connected to us. -/
  peersAccepted : Nat := 0
  /-- Bytes that arrived and were thrown away. -/
  bytesReceived : Nat := 0
  deriving DecidableEq, Repr, Inhabited

namespace LinkMetrics

def inFlight (m : LinkMetrics) : Nat := m.submitted - m.sent - m.dropped

def reset (_ : LinkMetrics) : LinkMetrics := {}

/-- The names of the counters with their values, `in_flight` last. -/
def entries (m : LinkMetrics) : List (String × Nat) :=
  [("messages_submitted", m.submitted), ("messages_sent", m.sent), ("bytes_sent", m.bytesSent),
    ("messages_dropped", m.dropped), ("send_errors", m.sendErrors), ("reconnects", m.reconnects),
    ("peers_accepted", m.peersAccepted), ("bytes_received", m.bytesReceived),
    ("in_flight", m.inFlight)]

end LinkMetrics

end ArmStream
