import ArmStream.Bytes

/-!
# Frames

On a stream each message travels as a frame: its length in four bytes, then the message. A
datagram is a message by itself and has no frame.

## Main definitions

- `Frame.encode`: the frame of a payload, or `none` if the payload is too long.
- `Frame.append`: the same at the end of a buffer.
-/

namespace ArmStream.Frame

def headerLength : Nat := 4

/-- The longest payload: sixteen mebibytes. A longer length is taken for damage. -/
def maxLength : Nat := 16777216

def header? (len : Nat) : Option (List UInt8) :=
  if len ≤ maxLength then some (LittleEndian.encode headerLength len) else none

def encode (payload : List UInt8) : List UInt8 :=
  LittleEndian.encode headerLength payload.length ++ payload

/-- `buffer` followed by the frame of `payload`; `none` if the payload is too long. -/
def append? (buffer payload : Bytes) : Option Bytes :=
  match header? payload.size with
  | none => none
  | some header =>
    let framed : Bytes := buffer ++ header
    some (framed ++ payload)

end ArmStream.Frame
