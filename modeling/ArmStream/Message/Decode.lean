import ArmStream.Message.Builder
import ArmStream.Message.Cursor

/-!
# Reading messages

`decodeHeader` reads the header alone, `decodeFields` all fields that it announces. What follows
the last field is ignored, and so are the reserved bytes. Each length is compared with what is
left before anything is taken, so the readers never overrun.

## Main definitions

- `readHeader`, `readField`, `readFields`: the readers.
- `decodeHeader`, `decodeFields`: reading whole inputs.
-/

namespace ArmStream

/-- Reads the header. A short input is reported first, then the magic, the version and the
kind. -/
def readHeader (c : Cursor) : Read Header :=
  if c.left < headerLength then .refused (.tooShort headerLength c.left)
  else
    c.takeByte.andThen fun first c =>
    c.takeByte.andThen fun second c =>
    if (first, second) ≠ magic then .refused (.badMagic first second)
    else
      c.takeByte.andThen fun version c =>
      if version ≠ wireVersion then .refused (.unsupportedVersion version)
      else
        c.takeByte.andThen fun kind c =>
        match MessageKind.ofCode? kind with
        | none => .refused (.badValue "MessageType" kind)
        | some kind => c.takeHalf.andThen fun count c => .value ⟨kind, count⟩ c

/-- The largest number of bytes that a length can be compared with. -/
def addressLimit : Nat := 0xffffffffffffffff

/-- The bytes that `count` values need, or the largest number if they need more. -/
def bytesNeeded (count : Nat) : Nat := min (8 * count) addressLimit

def readField (c : Cursor) : Read Field :=
  if c.left < headerLength then .refused (.tooShort headerLength c.left)
  else
    c.takeByte.andThen fun code c =>
    match FieldId.ofCode? code with
    | none => .refused (.badValue "FieldId" code)
    | some id =>
      (c.skip 3).andThen fun _ c =>
      c.takeWord.andThen fun count c =>
      if c.left < bytesNeeded count then .refused (.tooShort (bytesNeeded count) c.left)
      else (c.takePatterns count []).andThen fun values c => .value ⟨id, values⟩ c

/-- Reads `count` fields; `acc` holds those read before, last first. -/
def readFields (count : Nat) (c : Cursor) (acc : List Field) : Read (List Field) :=
  match count with
  | 0 => .value acc.reverse c
  | count + 1 => (readField c).andThen fun field c => readFields count c (field :: acc)

/-- Reads the header and all fields that it announces. The fields begin behind the bytes of the
header, of which the last two are not looked at. -/
def readMessage (c : Cursor) : Read (Header × List Field) :=
  (readHeader c).andThen fun header _ =>
  (c.skip headerLength).andThen fun _ c =>
  (readFields header.fieldCount c []).andThen fun fields c => .value (header, fields) c

theorem bytesNeeded_takeWord {c rest : Cursor} {count : Nat} (h : c.takeWord = .value count rest) :
    bytesNeeded count = 8 * count := by
  obtain ⟨bytes, left, rfl⟩ := c
  match bytes, h with
  | b0 :: b1 :: b2 :: b3 :: _, h =>
    have hcount : LittleEndian.decode [b0, b1, b2, b3] = count := by
      simp only [Cursor.takeWord, Read.value.injEq] at h
      exact h.1
    have hlt := LittleEndian.decode_lt [b0, b1, b2, b3]
    simp only [bytesNeeded, addressLimit, ← hcount]
    have hpow : Nat.pow 256 [b0, b1, b2, b3].length = 0x100000000 := by simp
    rw [hpow] at hlt
    omega

theorem readHeader_ne_overrun (c : Cursor) : readHeader c ≠ .overrun := by
  unfold readHeader
  split
  · simp
  next h =>
    simp only [headerLength, Nat.not_lt] at h
    obtain ⟨b0, c0, h0, l0, _⟩ := c.exists_takeByte (by omega)
    obtain ⟨b1, c1, h1, l1, _⟩ := c0.exists_takeByte (by omega)
    obtain ⟨b2, c2, h2, l2, _⟩ := c1.exists_takeByte (by omega)
    obtain ⟨b3, c3, h3, l3, _⟩ := c2.exists_takeByte (by omega)
    obtain ⟨n, c4, h4, _⟩ := c3.exists_takeHalf (by omega)
    simp only [h0, h1, h2, h3, Read.andThen_value]
    repeat' split
    all_goals simp [h4]

theorem readField_ne_overrun (c : Cursor) : readField c ≠ .overrun := by
  unfold readField
  split
  · simp
  next h =>
    simp only [headerLength, Nat.not_lt] at h
    obtain ⟨b0, c0, h0, l0, _⟩ := c.exists_takeByte (by omega)
    obtain ⟨c1, h1, l1, _⟩ := c0.exists_skip 3 (by omega)
    obtain ⟨count, c2, h2, _⟩ := c1.exists_takeWord (by omega)
    simp only [h0, h1, h2, Read.andThen_value]
    split
    · simp
    · split
      · simp
      next hleft =>
        rw [bytesNeeded_takeWord h2] at hleft
        obtain ⟨vs, c3, h3, _⟩ := c2.exists_takePatterns count [] (by omega)
        simp [h3]

theorem readFields_ne_overrun (count : Nat) (c : Cursor) (acc : List Field) :
    readFields count c acc ≠ .overrun := by
  induction count generalizing c acc with
  | zero => simp [readFields]
  | succ count ih =>
    unfold readFields
    cases h : readField c with
    | value field rest => simpa using ih rest (field :: acc)
    | refused e => simp
    | overrun => exact absurd h (readField_ne_overrun c)

theorem headerLength_le_of_readHeader {c rest : Cursor} {header : Header}
    (h : readHeader c = .value header rest) : headerLength ≤ c.left := by
  unfold readHeader at h
  split at h
  · simp at h
  · omega

theorem readMessage_ne_overrun (c : Cursor) : readMessage c ≠ .overrun := by
  unfold readMessage
  cases h : readHeader c with
  | value header rest =>
    obtain ⟨c0, h0, _⟩ := c.exists_skip headerLength (headerLength_le_of_readHeader h)
    simp only [Read.andThen_value, h0]
    cases hf : readFields header.fieldCount c0 [] with
    | value fields rest => simp
    | refused e => simp
    | overrun => exact absurd hf (readFields_ne_overrun _ _ _)
  | refused e => simp
  | overrun => exact absurd h (readHeader_ne_overrun c)

def decodeHeader (data : List UInt8) : Except MessageError Header :=
  (readHeader (Cursor.ofBytes data)).toExcept (readHeader_ne_overrun _)

def decodeFields (data : List UInt8) : Except MessageError (Header × List Field) :=
  (readMessage (Cursor.ofBytes data)).toExcept (readMessage_ne_overrun _)

end ArmStream
