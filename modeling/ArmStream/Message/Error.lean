import ArmStream.Message.Field

/-!
# What can be wrong with a message

Each constructor of `MessageError` is a cause; `MessageError.message` is its wording.
-/

namespace ArmStream

inductive MessageError where
  | tooShort (expected actual : Nat)
  | badMagic (first second : UInt8)
  | unsupportedVersion (version : UInt8)
  | badValue (subject : String) (value : UInt8)
  | unexpectedField (expected actual : FieldId)
  | unexpectedKind (expected actual : MessageKind)
  | fieldCount (expected actual : Nat)
  | vectorTooLong (len : Nat)
  | tooManyFields
  | alreadyFinished
  | notFinished
  deriving DecidableEq, Repr, Inhabited

/-- A byte as two upper-case hexadecimal digits. -/
def hexByte (b : UInt8) : String :=
  let digit (n : Nat) : Char := if n < 10 then Char.ofNat (48 + n) else Char.ofNat (55 + n)
  String.ofList [digit (b.toNat / 16), digit (b.toNat % 16)]

def MessageError.message : MessageError → String
  | .tooShort expected actual =>
    s!"Invalid message length: expected at least {expected}, got {actual}"
  | .badMagic first second => s!"Invalid magic: [{hexByte first}, {hexByte second}]"
  | .unsupportedVersion version => s!"Unsupported wire version: {version}"
  | .badValue subject value => s!"Invalid value for field {subject}: {value}"
  | .unexpectedField expected actual =>
    s!"Unexpected field: expected {expected.name}, got {actual.name}"
  | .unexpectedKind expected actual =>
    s!"Unexpected message type: expected {expected.name}, got {actual.name}"
  | .fieldCount expected actual =>
    s!"Field count mismatch: expected {expected}, got {actual}"
  | .vectorTooLong len => s!"Vector too long for wire format: {len} elements"
  | .tooManyFields => "Too many fields in one message"
  | .alreadyFinished => "Message already finished"
  | .notFinished => "Message not finished"

end ArmStream
