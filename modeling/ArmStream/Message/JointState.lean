import ArmStream.Message.Decode

/-!
# Joint states

A joint state is the message with exactly the fields position, velocity and acceleration, in
this order. Their lengths are independent of each other.
-/

namespace ArmStream

structure JointState where
  position : List Pattern := []
  velocity : List Pattern := []
  acceleration : List Pattern := []
  deriving DecidableEq, Repr, Inhabited

namespace JointState

def fields (s : JointState) : List Field :=
  [⟨.position, s.position⟩, ⟨.velocity, s.velocity⟩, ⟨.acceleration, s.acceleration⟩]

/-- The joint state with given fields. A wrong number of fields is reported before a field out
of order. -/
def ofFields : List Field → Except MessageError JointState
  | [p, v, a] =>
    if p.id ≠ .position then .error (.unexpectedField .position p.id)
    else if v.id ≠ .velocity then .error (.unexpectedField .velocity v.id)
    else if a.id ≠ .acceleration then .error (.unexpectedField .acceleration a.id)
    else .ok ⟨p.values, v.values, a.values⟩
  | fields => .error (.fieldCount 3 fields.length)

def decode (data : List UInt8) : Except MessageError JointState :=
  match decodeFields data with
  | .error e => .error e
  | .ok (_, fields) => ofFields fields

/-- Writes a joint state into a builder and finishes it. After a refusal the builder keeps the
fields pushed before. -/
def encodeInto (s : JointState) (b : Builder) : Builder × Option MessageError :=
  match b.pushAll s.fields with
  | (b, some e) => (b, some e)
  | (b, none) =>
    match b.finish .jointState with
    | .ok b' => (b', none)
    | .error e => (b, some e)

end JointState

end ArmStream
