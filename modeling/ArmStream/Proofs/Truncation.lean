import Mathlib
import ArmStream.Proofs.Calls

/-!
# Messages cut short

A message says itself where it ends. Cut anywhere before, it is refused as too short, whether the
cut falls into its header, into the header of a field or into a value: the fields before the cut are
read, and the reader then asks for bytes that were cut off. Whatever follows the message makes no
difference. This holds of all data that read as a message, and so of what builders write.

## Main definitions

- `Read.Wants`: a read that was refused for want of bytes.

## Main statements

- `wants_readField`, `wants_readFields`, `wants_readMessage`: readers on data that were cut.
- `exists_decodeFields_take`, `decodeFields_append`: data that read as a message.
- `Builder.message_self_delimiting`: what builders write.
-/

namespace ArmStream

/-- The read was refused as too short. It asked for more bytes than there were, but for no more than
there would have been without the `cut` bytes that were cut off. -/
def Read.Wants {α : Type} (r : Read α) (cut : Nat) : Prop :=
  ∃ expected actual, r = .refused (.tooShort expected actual) ∧ actual < expected ∧
    expected ≤ actual + cut

namespace Read.Wants

variable {α β : Type} {r : Read α} {cut cut' : Nat}

theorem mono (h : r.Wants cut) (hcut : cut ≤ cut') : r.Wants cut' := by
  obtain ⟨expected, actual, hr, hless, hle⟩ := h
  exact ⟨expected, actual, hr, hless, by omega⟩

theorem andThen (h : r.Wants cut) (next : α → Cursor → Read β) : (r.andThen next).Wants cut := by
  obtain ⟨expected, actual, rfl, hless, hle⟩ := h
  exact ⟨expected, actual, rfl, hless, hle⟩

end Read.Wants

/-- Data cut behind their front are the front and the rest cut. -/
theorem take_append_of_length_le {front rest : List UInt8} {k : Nat} (h : front.length ≤ k) :
    (front ++ rest).take k = front ++ rest.take (k - front.length) := by
  rw [List.take_append, List.take_of_length_le h]

/-! ## Fields -/

theorem wants_readField_of_lt {data : List UInt8} (h : data.length < headerLength) {cut : Nat}
    (hcut : headerLength ≤ data.length + cut) : (readField (.ofBytes data)).Wants cut := by
  refine ⟨headerLength, data.length, ?_, h, hcut⟩
  unfold readField
  rw [Cursor.ofBytes_left, if_pos h]

/-- A field that is cut in its header or in its values. -/
theorem wants_readField {field : Field} (h : field.values.length < valueLimit)
    (padding : UInt8 × UInt8 × UInt8) {k : Nat} (hk : k < (field.encodePadded padding).length) :
    (readField (.ofBytes ((field.encodePadded padding).take k))).Wants
      ((field.encodePadded padding).length - k) := by
  have hlength := field.length_encodePadded padding
  rcases Nat.lt_or_ge k headerLength with hheader | hheader
  · have htake : ((field.encodePadded padding).take k).length = k :=
      List.length_take_of_le (Nat.le_of_lt hk)
    exact wants_readField_of_lt (by omega) (by omega)
  · have hvalues := length_flatMap_encode field.values
    have hrest : ((field.values.flatMap fun v => LittleEndian.encode 8 v.toNat).take
        (k - headerLength)).length = k - headerLength :=
      List.length_take_of_le (by omega)
    have hread := readField_of_short field.id padding h (hrest.trans_lt (by omega))
    have hcut : (field.encodePadded padding).take k =
        field.id.encodePadded field.values.length padding ++
        (field.values.flatMap fun v => LittleEndian.encode 8 v.toNat).take (k - headerLength) := by
      rw [field.encodePadded_eq, take_append_of_length_le (by simpa using hheader),
        FieldId.length_encodePadded]
    rw [hcut]
    exact ⟨_, _, hread, by omega, by omega⟩

/-- The fields before the cut are read. -/
theorem wants_readFields {fields : List Field} {paddings : List (UInt8 × UInt8 × UInt8)}
    (hlength : paddings.length = fields.length) (h : ∀ f ∈ fields, f.values.length < valueLimit)
    (taken : List Field) {k : Nat}
    (hk : k < (List.zipWith Field.encodePadded fields paddings).flatten.length) :
    (readFields fields.length
      (.ofBytes ((List.zipWith Field.encodePadded fields paddings).flatten.take k)) taken).Wants
        ((List.zipWith Field.encodePadded fields paddings).flatten.length - k) := by
  induction fields generalizing taken paddings k with
  | nil => simp at hk
  | cons f fields ih =>
    obtain ⟨padding, paddings, rfl⟩ := List.exists_cons_of_length_eq_add_one hlength
    have hf := h f (by simp)
    rw [List.zipWith_cons_cons, List.flatten_cons, List.length_append] at hk
    rw [List.zipWith_cons_cons, List.flatten_cons, List.length_append, List.length_cons, readFields]
    rcases Nat.lt_or_ge k (f.encodePadded padding).length with hcut | hcut
    · rw [List.take_append_of_le_length (Nat.le_of_lt hcut)]
      have hfirst := wants_readField hf padding hcut
      exact (hfirst.mono (by omega)).andThen _
    · rw [take_append_of_length_le hcut, readField_encodePadded hf, Read.andThen_value]
      have hlater := ih (by simpa using hlength) (fun g hg => h g (List.mem_cons_of_mem f hg))
        (f :: taken) (k := k - (f.encodePadded padding).length) (by omega)
      exact hlater.mono (by omega)

/-! ## Messages -/

theorem wants_readMessage_of_lt {data : List UInt8} (h : data.length < headerLength) {cut : Nat}
    (hcut : headerLength ≤ data.length + cut) : (readMessage (.ofBytes data)).Wants cut := by
  have hheader : (readHeader (.ofBytes data)).Wants cut := by
    refine ⟨headerLength, data.length, ?_, h, hcut⟩
    unfold readHeader
    rw [Cursor.ofBytes_left, if_pos h]
  exact hheader.andThen _

/-- A message that is cut before its end. -/
theorem wants_readMessage {c rest : Cursor} {header : Header} {fields : List Field}
    (h : readMessage c = .value (header, fields) rest) {k : Nat} (hk : k < messageLength fields) :
    (readMessage (.ofBytes (c.bytes.take k))).Wants (messageLength fields - k) := by
  obtain ⟨hcount, hmost, hvalues, padding, paddings, hlength, hbytes⟩ := bytes_of_readMessage h
  have hheader := header.length_encodePadded padding
  have hbody := length_flatten_encodePadded hlength
  have hall : messageLength fields = headerLength +
      (List.zipWith Field.encodePadded fields paddings).flatten.length := by
    rw [hbody, messageLength]
  rw [hbytes]
  rcases Nat.lt_or_ge k headerLength with hcut | hcut
  · have htake : ((header.encodePadded padding ++
        ((List.zipWith Field.encodePadded fields paddings).flatten ++ rest.bytes)).take k).length =
        k :=
      List.length_take_of_le (by rw [List.length_append]; omega)
    exact wants_readMessage_of_lt (by omega) (by omega)
  · have hfields := wants_readFields hlength hvalues [] (k := k - headerLength) (by omega)
    rw [take_append_of_length_le (by omega), hheader, List.take_append_of_le_length (by omega),
      readMessage, readHeader_encodePadded header (hcount ▸ hmost), Read.andThen_value,
      Cursor.skip_append hheader, Read.andThen_value, hcount]
    exact (hfields.andThen _).mono (by omega)

theorem exists_readMessage {data : List UInt8} {header : Header} {fields : List Field}
    (h : decodeFields data = .ok (header, fields)) :
    ∃ rest, readMessage (.ofBytes data) = .value (header, fields) rest :=
  Read.exists_of_toExcept h

/-- Data that read as a message do not do so when they are cut within it. -/
theorem exists_decodeFields_take {data : List UInt8} {header : Header} {fields : List Field}
    (h : decodeFields data = .ok (header, fields)) {k : Nat} (hk : k < messageLength fields) :
    ∃ expected actual, decodeFields (data.take k) = .error (.tooShort expected actual) ∧
      actual < expected ∧ expected ≤ actual + (messageLength fields - k) := by
  obtain ⟨rest, hread⟩ := exists_readMessage h
  obtain ⟨expected, actual, hcut, hless, hle⟩ := wants_readMessage hread hk
  refine ⟨expected, actual, ?_, hless, hle⟩
  simp only [Cursor.ofBytes] at hcut
  simp only [decodeFields, Cursor.ofBytes, hcut, Read.toExcept_refused]

/-- Data that read as a message do so with anything behind them. -/
theorem decodeFields_append {data : List UInt8} {header : Header} {fields : List Field}
    (h : decodeFields data = .ok (header, fields)) (tail : List UInt8) :
    decodeFields (data ++ tail) = .ok (header, fields) := by
  obtain ⟨rest, hread⟩ := exists_readMessage h
  obtain ⟨hcount, hmost, hvalues, padding, paddings, hlength, hbytes⟩ := bytes_of_readMessage hread
  obtain ⟨kind, count⟩ := header
  obtain rfl : count = fields.length := hcount
  have hlonger := readMessage_encodePadded kind hmost hlength hvalues padding (rest.bytes ++ tail)
  have hdata : data ++ tail = Header.encodePadded ⟨kind, fields.length⟩ padding ++
      ((List.zipWith Field.encodePadded fields paddings).flatten ++ (rest.bytes ++ tail)) := by
    simp only [Cursor.ofBytes] at hbytes
    simp [hbytes]
  simp only [decodeFields, hdata, hlonger, Read.toExcept_value]

/-! ## What builders write -/

namespace Builder

/-- A message that a builder wrote, whatever calls led to it, reads as the fields that the builder
took. Cut anywhere before its end it is refused as too short: the reader asks for more bytes than
there are, and for no more than the whole message has. Whatever follows it makes no difference. -/
theorem message_self_delimiting {calls : List Call} {m : Bytes}
    (h : (empty.perform calls).1.bytes = .ok m) :
    (∃ fields, fields = (Draft.ofLog (empty.perform calls).2).fields ∧
      decodeFields m.toList = .ok (⟨.jointState, fields.length⟩, fields)) ∧
    (∀ k < m.size, ∃ expected actual,
      decodeFields (m.toList.take k) = .error (.tooShort expected actual) ∧ actual < expected ∧
        expected ≤ actual + (m.size - k)) ∧
    ∀ tail, decodeFields (m.toList ++ tail) = decodeFields m.toList := by
  obtain ⟨hbuilt, hdrafted⟩ := drafted_perform calls
  obtain ⟨hfinished, rfl⟩ := bytes_eq_ok_iff.1 h
  have hread := hbuilt.decodeFields_eq hfinished []
  rw [List.append_nil] at hread
  have hsize : (empty.perform calls).1.buffer.size =
      messageLength (Draft.ofLog (empty.perform calls).2).fields :=
    (drafted_perform calls).shows.size
  refine ⟨⟨_, rfl, hread⟩, fun k hk => ?_, fun tail => ?_⟩
  · rw [hsize] at hk ⊢
    exact exists_decodeFields_take hread hk
  · rw [decodeFields_append hread tail, hread]

/-- A message with two positions and no velocity, cut within the second position, and with three
bytes behind it. -/
theorem message_self_delimiting_of_cut :
    ∃ m : Bytes, (empty.perform [.push ⟨.position, [1, 2]⟩, .push ⟨.velocity, []⟩,
        .finish .jointState]).1.bytes = .ok m ∧ m.size = 40 ∧
      (∃ expected actual, decodeFields (m.toList.take 25) = .error (.tooShort expected actual) ∧
        actual < expected ∧ expected ≤ actual + 15) ∧
      decodeFields (m.toList ++ [1, 2, 3]) = decodeFields m.toList := by
  obtain ⟨m, hm, hsize⟩ : ∃ m : Bytes, (empty.perform [.push ⟨.position, [1, 2]⟩,
      .push ⟨.velocity, []⟩, .finish .jointState]).1.bytes = .ok m ∧ m.size = 40 :=
    ⟨_, rfl, rfl⟩
  obtain ⟨-, hcut, htail⟩ := message_self_delimiting hm
  have hshort := hcut 25 (by omega)
  rw [hsize] at hshort
  exact ⟨m, hm, hsize, hshort, htail [1, 2, 3]⟩

end Builder

end ArmStream
