import ArmStream.Bytes

/-!
# The state of the arm

The last vector written to each quantity. A write replaces the whole vector, whatever its length,
and leaves all others alone.

## Main definitions

- `ArmState.command`, `ArmState.measure`, `ArmState.limit`: the writes.
- `ArmState.same`: equality of the values as numbers.
-/

namespace ArmStream

inductive CommandKind where
  /-- Angles of the joints in radians. -/
  | jointAngle
  /-- Torques of the joints in newton metres. -/
  | jointTorque
  /-- Forces and torques at the tool, six components. -/
  | cartesianWrench
  deriving DecidableEq, Repr, Inhabited

/-- The last vector written to each quantity. -/
structure ArmState where
  commandedPosition : List Pattern := []
  commandedTorque : List Pattern := []
  commandedCartesianWrench : List Pattern := []
  /-- The measured torques. -/
  torque : List Pattern := []
  lowerPositionLimit : List Pattern := []
  upperPositionLimit : List Pattern := []
  /-- One pose for each joint, three rows of four. -/
  jointMatrices : List (List Pattern) := []
  deriving DecidableEq, Repr, Inhabited

namespace ArmState

def command (s : ArmState) (kind : CommandKind) (values : List Pattern) : ArmState :=
  match kind with
  | .jointAngle => { s with commandedPosition := values }
  | .jointTorque => { s with commandedTorque := values }
  | .cartesianWrench => { s with commandedCartesianWrench := values }

def measure (s : ArmState) (values : List Pattern) : ArmState := { s with torque := values }

def limit (s : ArmState) (lower upper : List Pattern) : ArmState :=
  { s with lowerPositionLimit := lower, upperPositionLimit := upper }

def lengths (s : ArmState) : List Nat :=
  [s.commandedPosition.length, s.commandedTorque.length, s.commandedCartesianWrench.length,
    s.torque.length, s.lowerPositionLimit.length, s.upperPositionLimit.length,
    s.jointMatrices.length]

def isNaN (p : Pattern) : Bool := 0x7ff0000000000000 < (p &&& 0x7fffffffffffffff)

/-- The patterns are equal as numbers: no NaN equals anything, and both zeros are equal. -/
def sameNumber (p q : Pattern) : Bool :=
  !isNaN p && !isNaN q && (p = q || ((p ||| q) &&& 0x7fffffffffffffff) = 0)

def sameVector : List Pattern → List Pattern → Bool
  | [], [] => true
  | p :: ps, q :: qs => sameNumber p q && sameVector ps qs
  | _, _ => false

def same (s t : ArmState) : Bool :=
  sameVector s.commandedPosition t.commandedPosition
    && sameVector s.commandedTorque t.commandedTorque
    && sameVector s.commandedCartesianWrench t.commandedCartesianWrench
    && sameVector s.torque t.torque
    && sameVector s.lowerPositionLimit t.lowerPositionLimit
    && sameVector s.upperPositionLimit t.upperPositionLimit
    && s.jointMatrices.length == t.jointMatrices.length
    && sameVector s.jointMatrices.flatten t.jointMatrices.flatten

end ArmState

end ArmStream
