import ArmStream.Bytes
import ArmStream.Number.Tenths

/-!
# Health counters of the driver

Each call that hands a command to the transport is an attempt, and either a success or a
failure. Failures in a row are counted apart.
-/

namespace ArmStream

structure DriverMetrics where
  attempted : Nat := 0
  succeeded : Nat := 0
  failed : Nat := 0
  consecutiveFailures : Nat := 0
  deriving DecidableEq, Repr, Inhabited

namespace DriverMetrics

def attempt (m : DriverMetrics) : DriverMetrics :=
  { m with attempted := m.attempted + 1 }

/-- One more success, which ends a row of failures. -/
def succeed (m : DriverMetrics) : DriverMetrics :=
  { m with succeeded := m.succeeded + 1, consecutiveFailures := 0 }

def fail (m : DriverMetrics) : DriverMetrics :=
  { m with failed := m.failed + 1, consecutiveFailures := m.consecutiveFailures + 1 }

def reset (_ : DriverMetrics) : DriverMetrics := {}

/-- The share of successes in percent, zero without an attempt. -/
def successRate (m : DriverMetrics) : Pattern :=
  if m.attempted = 0 then 0
  else (Float.ofNat m.succeeded / Float.ofNat m.attempted * 100.0).toBits

def successPercent (m : DriverMetrics) : String :=
  Number.tenths m.successRate ++ "%"

end DriverMetrics

end ArmStream
