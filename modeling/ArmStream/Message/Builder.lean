import ArmStream.Message.Error

/-!
# Building messages

A builder holds the bytes of a message under construction. The first eight bytes are kept free
for the header, which is written when the message is finished. A finished message accepts no
further field; `reset` starts over.

| offset | bytes | content                          |
|--------|-------|----------------------------------|
| 0      | 2     | `J`, `S`                         |
| 2      | 1     | wire version                     |
| 3      | 1     | code of the message kind         |
| 4      | 2     | number of fields, little-endian  |
| 6      | 2     | zero                             |

A field is its code, three zero bytes, the number of its values in four bytes and the values in
eight bytes each.

## Main definitions

- `Builder.push`, `Builder.finish`, `Builder.reset`, `Builder.bytes`
- `Field.encode`: the wire form of one field.
- `Header.encode`: the wire form of the header.
-/

namespace ArmStream

/-- The length of a message header and of a field header. -/
def headerLength : Nat := 8

def wireVersion : UInt8 := 1

/-- The first two bytes of each message, the letters `J` and `S`. -/
def magic : UInt8 × UInt8 := (0x4a, 0x53)

/-- The most fields that a header can count. -/
def maxFields : Nat := 65535

/-- The number of values that a field header cannot count any more. -/
def valueLimit : Nat := 0x100000000

structure Header where
  kind : MessageKind
  fieldCount : Nat
  deriving DecidableEq, Repr, Inhabited

def Header.encode (header : Header) : List UInt8 :=
  [magic.1, magic.2, wireVersion, header.kind.code]
    ++ LittleEndian.encode 2 header.fieldCount ++ [0, 0]

def FieldId.encode (id : FieldId) (count : Nat) : List UInt8 :=
  [id.code, 0, 0, 0] ++ LittleEndian.encode 4 count

def Field.encode (field : Field) : List UInt8 :=
  field.id.encode field.values.length
    ++ field.values.flatMap fun v => LittleEndian.encode 8 v.toNat

structure Builder where
  buffer : Bytes := Array.replicate headerLength 0
  fieldCount : Nat := 0
  finished : Bool := false
  deriving DecidableEq, Repr, Inhabited

namespace Builder

def empty : Builder := {}

/-- The room set aside for a new builder: what was asked for, but at least a header, and 256
bytes unless asked. -/
def initialCapacity : Option Nat → Nat
  | none => 256
  | some requested => max requested headerLength

/-- Whatever the builder held, it is a new one. -/
def reset (_ : Builder) : Builder := empty

def size (b : Builder) : Nat := b.buffer.size

def isEmpty (b : Builder) : Bool := b.fieldCount == 0

def appendField (buffer : Bytes) (field : Field) : Bytes :=
  field.values.foldl (fun out v => out ++ LittleEndian.encode 8 v.toNat)
    (buffer ++ field.id.encode field.values.length)

/-- Why a field is refused. A finished message comes first, then a field too many, then a
vector whose length does not fit its header. -/
def refusal? (b : Builder) (field : Field) : Option MessageError :=
  if b.finished then some .alreadyFinished
  else if b.fieldCount = maxFields then some .tooManyFields
  else if valueLimit ≤ field.values.length then some (.vectorTooLong field.values.length)
  else none

/-- The builder with one field more, whether or not there is room for it. -/
def add (b : Builder) (field : Field) : Builder :=
  { b with buffer := appendField b.buffer field, fieldCount := b.fieldCount + 1 }

def push (b : Builder) (field : Field) : Except MessageError Builder :=
  match b.refusal? field with
  | some e => .error e
  | none => .ok (b.add field)

/-- Writes the header into the room kept for it. -/
def finish (b : Builder) (kind : MessageKind) : Except MessageError Builder :=
  if b.finished then .error .alreadyFinished
  else
    let header := Header.encode ⟨kind, b.fieldCount⟩
    .ok { b with
      buffer := header.toArray ++ b.buffer.extract headerLength b.buffer.size
      finished := true }

def bytes (b : Builder) : Except MessageError Bytes :=
  if b.finished then .ok b.buffer else .error .notFinished

/-- Pushes fields up to the first that is refused. The fields before it stay. -/
def pushAll (b : Builder) : List Field → Builder × Option MessageError
  | [] => (b, none)
  | field :: rest =>
    match b.refusal? field with
    | none => (b.add field).pushAll rest
    | some e => (b, some e)

/-- Pushes one field `times` times, or up to the first refusal; counts the pushes made. -/
def pushRepeatedly (b : Builder) (field : Field) : (times : Nat) → (done : Nat) →
    Builder × Nat × Option MessageError
  | 0, done => (b, done, none)
  | times + 1, done =>
    match b.refusal? field with
    | none => (b.add field).pushRepeatedly field times (done + 1)
    | some e => (b, done, some e)

end Builder

theorem Builder.toList_appendField (buffer : Bytes) (field : Field) :
    (appendField buffer field).toList = buffer.toList ++ field.encode := by
  have fold (out : Bytes) (vs : List Pattern) :
      (vs.foldl (fun (out : Bytes) v => out ++ LittleEndian.encode 8 v.toNat) out).toList
        = out.toList ++ vs.flatMap fun v => LittleEndian.encode 8 v.toNat := by
    induction vs generalizing out with
    | nil => simp
    | cons v vs ih => simp [ih]
  simp [appendField, fold, Field.encode]

end ArmStream
