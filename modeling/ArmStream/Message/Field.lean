import ArmStream.Bytes

/-!
# Message kinds and fields

A message is a header followed by fields. Each field names the quantity it carries and holds a
vector of floating-point patterns.

## Main definitions

- `MessageKind`, `FieldId`: the kinds of message and of field, with their wire codes.
- `Field`: a field with its values.
-/

namespace ArmStream

inductive MessageKind where
  /-- Position, velocity and acceleration of the joints. -/
  | jointState
  deriving DecidableEq, Repr, Inhabited

namespace MessageKind

def code : MessageKind → UInt8
  | .jointState => 1

def ofCode? (value : UInt8) : Option MessageKind :=
  if value = 1 then some .jointState else none

def name : MessageKind → String
  | .jointState => "JointState"

end MessageKind

inductive FieldId where
  /-- Joint angles in radians. -/
  | position
  /-- Joint velocities. The link has none to report, so the field is sent empty. -/
  | velocity
  /-- The slot that carries joint torques. -/
  | acceleration
  deriving DecidableEq, Repr, Inhabited

namespace FieldId

def code : FieldId → UInt8
  | .position => 0
  | .velocity => 1
  | .acceleration => 2

def ofCode? (value : UInt8) : Option FieldId :=
  if value = 0 then some .position
  else if value = 1 then some .velocity
  else if value = 2 then some .acceleration
  else none

def name : FieldId → String
  | .position => "Position"
  | .velocity => "Velocity"
  | .acceleration => "Acceleration"

def jointStateOrder : List FieldId := [.position, .velocity, .acceleration]

@[simp] theorem ofCode?_code (id : FieldId) : ofCode? id.code = some id := by
  cases id <;> decide

end FieldId

@[simp] theorem MessageKind.ofCode?_code (kind : MessageKind) : ofCode? kind.code = some kind := by
  cases kind; decide

/-- A quantity and its values, one per joint. -/
structure Field where
  id : FieldId
  values : List Pattern
  deriving DecidableEq, Repr, Inhabited

end ArmStream
