import Mathlib
import ArmStream.Proofs.Reading

/-!
# Readers stay within their data

A read overruns its data exactly if it asks for more bytes than are left. Readers look at the number
that is left first, so on no data any of their reads overruns. A field says in 32 bits how many
values it has; they are taken only if all their bytes are there, and the product that is compared
with the data is exact. What is read is as long as the bytes that it was read from, so nobody can
make a reader produce more than was received.

## Main definitions

- `messageLength`: the bytes that a message with given fields takes.

## Main statements

- `Cursor.takeByte_eq_overrun_iff` and its kind: when a read overruns.
- `readField_of_short`, `exists_readField`: a field, by the bytes behind its header.
- `left_of_readMessage`: how many bytes a message was read from.
- `decoding_stays_within_data`: what holds for any data.
-/

namespace ArmStream

/-! ## When a read overruns -/

/-- A read that asks for `width` bytes, succeeds if they are there, and is never refused, overruns
exactly if they are not there. -/
theorem Read.eq_overrun_iff {α : Type} {r : Read α} {left width : Nat}
    (hthere : width ≤ left → ∃ a rest, r = .value a rest)
    (hread : ∀ a rest, r = .value a rest → width ≤ left) (hrefused : ∀ e, r ≠ .refused e) :
    r = .overrun ↔ left < width := by
  constructor
  · intro hover
    by_contra hleft
    obtain ⟨a, rest, hvalue⟩ := hthere (Nat.not_lt.1 hleft)
    rw [hover] at hvalue
    cases hvalue
  · intro hleft
    cases hr : r with
    | value a rest => exact absurd hleft (Nat.not_lt.2 (hread a rest hr))
    | refused e => exact absurd hr (hrefused e)
    | overrun => rfl

namespace Cursor

variable (c : Cursor)

theorem takeByte_eq_overrun_iff : c.takeByte = .overrun ↔ c.left < 1 := by
  refine Read.eq_overrun_iff (fun h => ?_) (fun b rest h => ?_) (fun e => ?_)
  · obtain ⟨b, rest, h, -⟩ := c.exists_takeByte h
    exact ⟨b, rest, h⟩
  · simp [c.left_eq, bytes_of_takeByte h]
  · unfold takeByte
    split <;> simp

theorem takeHalf_eq_overrun_iff : c.takeHalf = .overrun ↔ c.left < 2 := by
  refine Read.eq_overrun_iff (fun h => ?_) (fun n rest h => ?_) (fun e => ?_)
  · obtain ⟨n, rest, h, -⟩ := c.exists_takeHalf h
    exact ⟨n, rest, h⟩
  · simp [c.left_eq, (bytes_of_takeHalf h).1]
  · unfold takeHalf
    split <;> simp

theorem takeWord_eq_overrun_iff : c.takeWord = .overrun ↔ c.left < 4 := by
  refine Read.eq_overrun_iff (fun h => ?_) (fun n rest h => ?_) (fun e => ?_)
  · obtain ⟨n, rest, h, -⟩ := c.exists_takeWord h
    exact ⟨n, rest, h⟩
  · simp [c.left_eq, (bytes_of_takeWord h).1]
  · unfold takeWord
    split <;> simp

theorem takePattern_eq_overrun_iff : c.takePattern = .overrun ↔ c.left < 8 := by
  refine Read.eq_overrun_iff (fun h => ?_) (fun v rest h => ?_) (fun e => ?_)
  · obtain ⟨v, rest, h, -⟩ := c.exists_takePattern h
    exact ⟨v, rest, h⟩
  · simp [c.left_eq, bytes_of_takePattern h]
  · unfold takePattern
    split <;> simp

theorem skip_eq_overrun_iff (n : Nat) : c.skip n = .overrun ↔ c.left < n := by
  unfold skip
  split
  next h => simpa using h
  next h => simpa using h

end Cursor

/-! ## A field by the bytes behind its header -/

section Announced

variable (id : FieldId) (padding : UInt8 × UInt8 × UInt8) {count : Nat} {rest : List UInt8}

/-- Values that are not all there are not read, however many are announced. -/
theorem readField_of_short (h : count < valueLimit) (hshort : rest.length < 8 * count) :
    readField (.ofBytes (id.encodePadded count padding ++ rest)) =
      .refused (.tooShort (8 * count) rest.length) := by
  rw [readField_announced id padding h, if_pos hshort]

/-- Of the bytes behind the header those of the announced values are taken, and no more. -/
theorem exists_readField (h : count < valueLimit) (hthere : 8 * count ≤ rest.length) :
    ∃ values, values.length = count ∧
      readField (.ofBytes (id.encodePadded count padding ++ rest)) =
        .value ⟨id, values⟩ (.ofBytes (rest.drop (8 * count))) := by
  obtain ⟨values, c, hread, -, hlength, hrest⟩ :=
    (Cursor.ofBytes rest).exists_takePatterns count [] hthere
  refine ⟨values, hlength, ?_⟩
  rw [readField_announced id padding h, if_neg (Nat.not_lt.2 hthere), hread, Read.andThen_value,
    Cursor.eq_ofBytes hrest]
  rfl

end Announced

/-! ## The length of a message -/

/-- The bytes that a message with these fields takes: a header, and for each field a header and
eight bytes a value. -/
def messageLength (fields : List Field) : Nat :=
  headerLength + (fields.map fun f => headerLength + 8 * f.values.length).sum

theorem Field.length_encodePadded (field : Field) (padding : UInt8 × UInt8 × UInt8) :
    (field.encodePadded padding).length = headerLength + 8 * field.values.length := by
  rw [field.encodePadded_eq, List.length_append, FieldId.length_encodePadded,
    length_flatMap_encode]

theorem length_flatten_encodePadded {fields : List Field}
    {paddings : List (UInt8 × UInt8 × UInt8)} (hlength : paddings.length = fields.length) :
    (List.zipWith Field.encodePadded fields paddings).flatten.length =
      (fields.map fun f => headerLength + 8 * f.values.length).sum := by
  induction fields generalizing paddings with
  | nil => rfl
  | cons f fields ih =>
    obtain ⟨padding, paddings, rfl⟩ := List.exists_cons_of_length_eq_add_one hlength
    rw [List.zipWith_cons_cons, List.flatten_cons, List.length_append, f.length_encodePadded,
      ih (by simpa using hlength), List.map_cons, List.sum_cons]

/-- A message is read from as many bytes as it takes. -/
theorem left_of_readMessage {c rest : Cursor} {header : Header} {fields : List Field}
    (h : readMessage c = .value (header, fields) rest) :
    c.left = messageLength fields + rest.left := by
  obtain ⟨-, -, -, padding, paddings, hlength, hbytes⟩ := bytes_of_readMessage h
  rw [c.left_eq, hbytes, List.length_append, List.length_append, header.length_encodePadded,
    length_flatten_encodePadded hlength, ← rest.left_eq, messageLength, Nat.add_assoc]

theorem messageLength_le_of_decodeFields {data : List UInt8} {header : Header}
    {fields : List Field} (h : decodeFields data = .ok (header, fields)) :
    messageLength fields ≤ data.length := by
  obtain ⟨rest, hread⟩ := Read.exists_of_toExcept h
  have hleft := left_of_readMessage hread
  rw [Cursor.ofBytes_left] at hleft
  omega

/-! ## Any data -/

/-- A read overruns exactly if it asks for more bytes than are left, and no reader ever does,
wherever it stands in whatever data. The values of a field are taken if and only if all bytes
that they need are there, for each number of values that its header can announce. A message that
is read takes no more bytes than were received, and so does a joint state. -/
theorem decoding_stays_within_data (data : List UInt8) :
    (∀ c : Cursor, (c.takeByte = .overrun ↔ c.left < 1) ∧ (c.takeHalf = .overrun ↔ c.left < 2) ∧
      (c.takeWord = .overrun ↔ c.left < 4) ∧ (c.takePattern = .overrun ↔ c.left < 8) ∧
      ∀ n, c.skip n = .overrun ↔ c.left < n) ∧
    (∀ c : Cursor, readHeader c ≠ .overrun ∧ readMessage c ≠ .overrun ∧
      ∀ count taken, readFields count c taken ≠ .overrun) ∧
    (∀ id padding count rest, count < 0x100000000 →
      (rest.length < 8 * count →
        readField (.ofBytes (FieldId.encodePadded id count padding ++ rest)) =
          .refused (.tooShort (8 * count) rest.length)) ∧
      (8 * count ≤ rest.length → ∃ values, values.length = count ∧
        readField (.ofBytes (FieldId.encodePadded id count padding ++ rest)) =
          .value ⟨id, values⟩ (.ofBytes (rest.drop (8 * count))))) ∧
    (∀ header fields, decodeFields data = .ok (header, fields) →
      8 + (fields.map fun f => 8 + 8 * f.values.length).sum ≤ data.length) ∧
    ∀ s, JointState.decode data = .ok s →
      32 + 8 * (s.position.length + s.velocity.length + s.acceleration.length) ≤ data.length := by
  refine ⟨fun c => ⟨c.takeByte_eq_overrun_iff, c.takeHalf_eq_overrun_iff, c.takeWord_eq_overrun_iff,
      c.takePattern_eq_overrun_iff, c.skip_eq_overrun_iff⟩,
    fun c => ⟨readHeader_ne_overrun c, readMessage_ne_overrun c, fun count =>
      readFields_ne_overrun count c⟩, ?_, ?_, ?_⟩
  · intro id padding count rest hcount
    exact ⟨readField_of_short id padding hcount, exists_readField id padding hcount⟩
  · intro header fields h
    exact messageLength_le_of_decodeFields h
  · intro s h
    unfold JointState.decode at h
    split at h
    next => cases h
    next header fields hread =>
      obtain rfl := JointState.fields_of_ofFields h
      have hle := messageLength_le_of_decodeFields hread
      simp only [messageLength, headerLength, JointState.fields, List.map_cons, List.map_nil,
        List.sum_cons, List.sum_nil] at hle
      omega

/-- A field that announces as many values as it can and has three bytes; and a joint state with one
velocity, with marks in the bytes that are passed over, and three bytes behind it. -/
theorem decoding_stays_within_data_of_tail :
    readField (.ofBytes (FieldId.encodePadded .velocity 0xffffffff (4, 5, 6) ++ [1, 2, 3])) =
      .refused (.tooShort 34359738360 3) ∧
    ∃ data : List UInt8, data = JointState.encodePadded ⟨[], [7], []⟩
        ⟨(7, 8), (1, 2, 3), (4, 5, 6), (0, 0, 9), [0xa, 0xb, 0xc]⟩ ∧
      JointState.decode data = .ok ⟨[], [7], []⟩ ∧ 32 + 8 * (0 + 1 + 0) ≤ data.length ∧
      decodeFields data = .ok (⟨.jointState, 3⟩, [⟨.position, []⟩, ⟨.velocity, [7]⟩,
        ⟨.acceleration, []⟩]) ∧ 8 + ((8 + 8 * 0) + ((8 + 8 * 1) + ((8 + 8 * 0) + 0))) ≤
          data.length := by
  obtain ⟨data, hdata⟩ : ∃ data : List UInt8, data = JointState.encodePadded ⟨[], [7], []⟩
    ⟨(7, 8), (1, 2, 3), (4, 5, 6), (0, 0, 9), [0xa, 0xb, 0xc]⟩ := ⟨_, rfl⟩
  obtain ⟨-, -, hannounced, hfields, hstate⟩ := decoding_stays_within_data data
  have hread : decodeFields data = .ok (⟨.jointState, 3⟩, [⟨.position, []⟩, ⟨.velocity, [7]⟩,
      ⟨.acceleration, []⟩]) := by
    rw [hdata]
    rfl
  have hdecode : JointState.decode data = .ok ⟨[], [7], []⟩ := by
    rw [hdata]
    rfl
  exact ⟨(hannounced .velocity (4, 5, 6) 0xffffffff [1, 2, 3] (by decide)).1 (by decide), data,
    hdata, hdecode, hstate _ hdecode, hread, hfields _ _ hread⟩

end ArmStream
