/-!
# Settings of a link

Limits of the queues and buffers of a link and its two intervals in milliseconds.
-/

namespace ArmStream

structure LinkConfig where
  /-- Messages that wait between the caller and the loop. -/
  queueCapacity : Nat := 1000
  /-- Messages that the loop keeps while it waits for a peer. -/
  pendingHighWaterMark : Nat := 1000
  /-- The time between two attempts to connect. -/
  reconnectIntervalMs : Nat := 100
  /-- The longest wait for events. -/
  pollTimeoutMs : Nat := 50
  /-- Builders kept for reuse. -/
  maxPooledBuilders : Nat := 16
  /-- Unsent bytes of one peer above which it gets no further message. -/
  maxPeerBufferBytes : Nat := 1048576
  deriving DecidableEq, Repr, Inhabited

def secondsAndNanos (ms : Nat) : Nat × Nat := (ms / 1000, ms % 1000 * 1000000)

end ArmStream
