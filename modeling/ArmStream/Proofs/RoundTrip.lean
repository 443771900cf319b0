import ArmStream.Message.Decode

/-!
# Messages survive their encoding

A reader that finds the encoding of a value at the front of its data gives the value back and leaves
what follows. From the words up to a message each reader undoes the encoding of its own kind of
value. A builder holds the encodings of the fields that it took since it was last empty, so its
message reads as these fields.

## Main definitions

- `Builder.Built`: how a builder comes about, with the fields that it took.

## Main statements

- `readField_encodePadded`, `readMessage_encodePadded`: readers undo encodings, whatever stands in
  the bytes that they pass over.
- `Builder.Built.holds`: what a builder holds.
- `Builder.Built.decodeFields_eq`: a finished message reads as its fields.
-/

namespace ArmStream

namespace Cursor

theorem eq_ofBytes {c : Cursor} {bytes : List UInt8} (h : c.bytes = bytes) : c = ofBytes bytes := by
  obtain ⟨_, _, rfl⟩ := c
  subst h
  rfl

@[simp] theorem ofBytes_left (bytes : List UInt8) : (ofBytes bytes).left = bytes.length := rfl

/-! ## Words -/

@[simp] theorem takeByte_cons (b : UInt8) (rest : List UInt8) :
    (ofBytes (b :: rest)).takeByte = .value b (ofBytes rest) := rfl

theorem takeHalf_encode {n : Nat} (hn : n ≤ maxFields) (rest : List UInt8) :
    (ofBytes (LittleEndian.encode 2 n ++ rest)).takeHalf = .value n (ofBytes rest) := by
  obtain ⟨m, c, hread, -, rfl, hrest⟩ :=
    (ofBytes (LittleEndian.encode 2 n ++ rest)).exists_takeHalf (by simp)
  have hc : c = ofBytes rest := eq_ofBytes (hrest.trans (List.drop_left' (by simp)))
  have hword : (LittleEndian.encode 2 n ++ rest).take 2 = LittleEndian.encode 2 n :=
    List.take_left' (by simp)
  have hmod : n % Nat.pow 256 2 = n := Nat.mod_eq_of_lt (Nat.lt_succ_of_le hn)
  rw [hread, hc, ofBytes, hword, LittleEndian.decode_encode, hmod]

theorem takeWord_encode {n : Nat} (hn : n < valueLimit) (rest : List UInt8) :
    (ofBytes (LittleEndian.encode 4 n ++ rest)).takeWord = .value n (ofBytes rest) := by
  obtain ⟨m, c, hread, -, rfl, hrest⟩ :=
    (ofBytes (LittleEndian.encode 4 n ++ rest)).exists_takeWord (by simp)
  have hc : c = ofBytes rest := eq_ofBytes (hrest.trans (List.drop_left' (by simp)))
  have hword : (LittleEndian.encode 4 n ++ rest).take 4 = LittleEndian.encode 4 n :=
    List.take_left' (by simp)
  have hmod : n % Nat.pow 256 4 = n := Nat.mod_eq_of_lt hn
  rw [hread, hc, ofBytes, hword, LittleEndian.decode_encode, hmod]

theorem takePattern_encode (v : Pattern) (rest : List UInt8) :
    (ofBytes (LittleEndian.encode 8 v.toNat ++ rest)).takePattern = .value v (ofBytes rest) := by
  obtain ⟨m, c, hread, -, rfl, hrest⟩ :=
    (ofBytes (LittleEndian.encode 8 v.toNat ++ rest)).exists_takePattern (by simp)
  have hc : c = ofBytes rest := eq_ofBytes (hrest.trans (List.drop_left' (by simp)))
  have hword : (LittleEndian.encode 8 v.toNat ++ rest).take 8 = LittleEndian.encode 8 v.toNat :=
    List.take_left' (by simp)
  have hmod : v.toNat % Nat.pow 256 8 = v.toNat := Nat.mod_eq_of_lt v.toNat_lt
  rw [hread, hc, ofBytes, hword, LittleEndian.decode_encode, hmod, UInt64.ofNat_toNat]

theorem skip_append {front : List UInt8} {n : Nat} (h : front.length = n) (rest : List UInt8) :
    (ofBytes (front ++ rest)).skip n = .value () (ofBytes rest) := by
  obtain ⟨c, hread, -, hrest⟩ := exists_skip n (ofBytes (front ++ rest)) (by simp [h])
  rw [hread, eq_ofBytes (hrest.trans (List.drop_left' h))]

theorem takePatterns_encode (values acc : List Pattern) (rest : List UInt8) :
    (ofBytes ((values.flatMap fun v => LittleEndian.encode 8 v.toNat) ++ rest)).takePatterns
      values.length acc = .value (acc.reverse ++ values) (ofBytes rest) := by
  induction values generalizing acc with
  | nil => simp [takePatterns]
  | cons v values ih =>
    simp [takePatterns, List.append_assoc, takePattern_encode, ih]

end Cursor

/-! ## Fields and messages -/

/-- The wire form of the header of a field with any three bytes in the place of the zeros. -/
def FieldId.encodePadded (id : FieldId) (count : Nat) (padding : UInt8 × UInt8 × UInt8) :
    List UInt8 :=
  [id.code, padding.1, padding.2.1, padding.2.2] ++ LittleEndian.encode 4 count

def Field.encodePadded (field : Field) (padding : UInt8 × UInt8 × UInt8) : List UInt8 :=
  [field.id.code, padding.1, padding.2.1, padding.2.2]
    ++ LittleEndian.encode 4 field.values.length
    ++ field.values.flatMap fun v => LittleEndian.encode 8 v.toNat

theorem Field.encodePadded_zero (field : Field) : field.encodePadded (0, 0, 0) = field.encode := rfl

theorem Field.encodePadded_eq (field : Field) (padding : UInt8 × UInt8 × UInt8) :
    field.encodePadded padding = field.id.encodePadded field.values.length padding ++
      field.values.flatMap fun v => LittleEndian.encode 8 v.toNat := rfl

@[simp] theorem FieldId.length_encodePadded (id : FieldId) (count : Nat)
    (padding : UInt8 × UInt8 × UInt8) : (id.encodePadded count padding).length = headerLength := by
  simp [encodePadded, headerLength]

theorem length_flatMap_encode (values : List Pattern) :
    (values.flatMap fun v => LittleEndian.encode 8 v.toNat).length = 8 * values.length := by
  simp [List.length_flatMap, List.map_const', Nat.mul_comm]

/-- A field is read if all values that its header announces stand behind it, and is refused for
want of their bytes otherwise. The three bytes behind its code are not looked at. -/
theorem readField_announced (id : FieldId) (padding : UInt8 × UInt8 × UInt8) {count : Nat}
    (h : count < valueLimit) (rest : List UInt8) :
    readField (.ofBytes (id.encodePadded count padding ++ rest)) =
      if rest.length < 8 * count then .refused (.tooShort (8 * count) rest.length)
      else ((Cursor.ofBytes rest).takePatterns count []).andThen fun values c =>
        .value ⟨id, values⟩ c := by
  have hbytes : id.encodePadded count padding ++ rest = id.code ::
      ([padding.1, padding.2.1, padding.2.2] ++ (LittleEndian.encode 4 count ++ rest)) := by
    simp [FieldId.encodePadded]
  have hneeded : bytesNeeded count = 8 * count := by
    simp only [bytesNeeded, addressLimit, valueLimit] at h ⊢
    omega
  unfold readField
  rw [hbytes, if_neg (by simp [headerLength]), Cursor.takeByte_cons, Read.andThen_value]
  simp only [FieldId.ofCode?_code]
  rw [Cursor.skip_append (by rfl), Read.andThen_value, Cursor.takeWord_encode h, Read.andThen_value,
    hneeded, Cursor.ofBytes_left]

theorem readField_encodePadded {field : Field} (h : field.values.length < valueLimit)
    (padding : UInt8 × UInt8 × UInt8) (rest : List UInt8) :
    readField (.ofBytes (field.encodePadded padding ++ rest)) = .value field (.ofBytes rest) := by
  have hvalues : ¬ ((field.values.flatMap fun v => LittleEndian.encode 8 v.toNat) ++ rest).length <
      8 * field.values.length := by
    rw [List.length_append, length_flatMap_encode]
    omega
  rw [field.encodePadded_eq, List.append_assoc, readField_announced field.id padding h,
    if_neg hvalues, Cursor.takePatterns_encode]
  rfl

/-- Each field is followed by the next; the list has the bytes of each that are not looked at. -/
theorem readFields_encodePadded {fields : List Field} {paddings : List (UInt8 × UInt8 × UInt8)}
    (hlength : paddings.length = fields.length) (h : ∀ f ∈ fields, f.values.length < valueLimit)
    (acc : List Field) (rest : List UInt8) :
    readFields fields.length
        (.ofBytes ((List.zipWith Field.encodePadded fields paddings).flatten ++ rest)) acc =
      .value (acc.reverse ++ fields) (.ofBytes rest) := by
  induction fields generalizing acc paddings with
  | nil => simp [readFields]
  | cons f fields ih =>
    obtain ⟨padding, paddings, rfl⟩ := List.exists_cons_of_length_eq_add_one hlength
    have hfirst := readField_encodePadded (h f (by simp)) padding
      ((List.zipWith Field.encodePadded fields paddings).flatten ++ rest)
    have hlater := ih (by simpa using hlength) (fun g hg => h g (List.mem_cons_of_mem f hg))
      (f :: acc)
    simp [readFields, List.append_assoc, hfirst, hlater]

/-- The wire form of a header with any two bytes in the place of the zeros. -/
def Header.encodePadded (header : Header) (padding : UInt8 × UInt8) : List UInt8 :=
  [magic.1, magic.2, wireVersion, header.kind.code]
    ++ LittleEndian.encode 2 header.fieldCount ++ [padding.1, padding.2]

theorem Header.length_encodePadded (header : Header) (padding : UInt8 × UInt8) :
    (header.encodePadded padding).length = headerLength := by
  simp [Header.encodePadded, headerLength]

/-- The last two bytes of a header are not looked at. -/
theorem readHeader_encodePadded (header : Header) (h : header.fieldCount ≤ maxFields)
    (padding : UInt8 × UInt8) (rest : List UInt8) :
    readHeader (.ofBytes (header.encodePadded padding ++ rest)) =
      .value header (.ofBytes ([padding.1, padding.2] ++ rest)) := by
  have hbytes : header.encodePadded padding ++ rest =
      magic.1 :: magic.2 :: wireVersion :: header.kind.code ::
        (LittleEndian.encode 2 header.fieldCount ++ ([padding.1, padding.2] ++ rest)) := by
    simp [Header.encodePadded]
  unfold readHeader
  rw [hbytes, if_neg (by simp [headerLength]; omega)]
  simp only [Cursor.takeByte_cons, Read.andThen_value, ne_eq, not_true_eq_false, if_false,
    MessageKind.ofCode?_code, Cursor.takeHalf_encode h]

theorem readMessage_encodePadded (kind : MessageKind) {fields : List Field}
    {paddings : List (UInt8 × UInt8 × UInt8)} (hcount : fields.length ≤ maxFields)
    (hlength : paddings.length = fields.length) (h : ∀ f ∈ fields, f.values.length < valueLimit)
    (padding : UInt8 × UInt8) (rest : List UInt8) :
    readMessage (.ofBytes (Header.encodePadded ⟨kind, fields.length⟩ padding ++
      ((List.zipWith Field.encodePadded fields paddings).flatten ++ rest))) =
      .value (⟨kind, fields.length⟩, fields) (.ofBytes rest) := by
  have hheader := readHeader_encodePadded ⟨kind, fields.length⟩ hcount padding
    ((List.zipWith Field.encodePadded fields paddings).flatten ++ rest)
  have hskip := Cursor.skip_append (Header.length_encodePadded ⟨kind, fields.length⟩ padding)
    ((List.zipWith Field.encodePadded fields paddings).flatten ++ rest)
  simp only [readMessage, hheader, Read.andThen_value, hskip,
    readFields_encodePadded hlength h []]
  simp

/-- With zeros in these places it is the wire form that builders write. -/
theorem Header.encodePadded_zero (header : Header) : header.encodePadded (0, 0) = header.encode :=
  rfl

theorem flatten_encodePadded_zero (fields : List Field) :
    (List.zipWith Field.encodePadded fields (List.replicate fields.length (0, 0, 0))).flatten =
      fields.flatMap Field.encode := by
  induction fields with
  | nil => rfl
  | cons f fields ih =>
    rw [List.length_cons, List.replicate_succ, List.zipWith_cons_cons, List.flatten_cons, ih,
      f.encodePadded_zero, List.flatMap_cons]

theorem readMessage_encode (kind : MessageKind) {fields : List Field}
    (hcount : fields.length ≤ maxFields) (h : ∀ f ∈ fields, f.values.length < valueLimit)
    (rest : List UInt8) :
    readMessage (.ofBytes (Header.encode ⟨kind, fields.length⟩ ++
      (fields.flatMap Field.encode ++ rest))) =
      .value (⟨kind, fields.length⟩, fields) (.ofBytes rest) := by
  rw [← Header.encodePadded_zero, ← flatten_encodePadded_zero]
  exact readMessage_encodePadded kind hcount (by simp) h (0, 0) rest

/-! ## Builders -/

namespace Builder

structure Holds (b : Builder) (fields : List Field) : Prop where
  count : b.fieldCount = fields.length
  count_le : fields.length ≤ maxFields
  values_lt : ∀ f ∈ fields, f.values.length < valueLimit
  /-- The room for the header. -/
  header_le : headerLength ≤ b.buffer.size
  header : b.finished = true →
    b.buffer.toList.take headerLength = Header.encode ⟨.jointState, fields.length⟩
  body : b.buffer.toList.drop headerLength = fields.flatMap Field.encode

theorem holds_empty : empty.Holds [] where
  count := rfl
  count_le := Nat.zero_le _
  values_lt := by simp
  header_le := by simp [empty]
  header := by simp [empty]
  body := by simp [empty]

/-- Only a finished builder gives its bytes. -/
theorem bytes_eq_ok_iff {b : Builder} {m : Bytes} :
    b.bytes = .ok m ↔ b.finished = true ∧ b.buffer = m := by
  unfold bytes
  split
  next hfinished => simp [hfinished]
  next hopen => simp [hopen]

theorem push_eq_ok {b b' : Builder} {field : Field} (h : b.push field = .ok b') :
    b.finished = false ∧ b.fieldCount ≠ maxFields ∧ field.values.length < valueLimit ∧
      b' = b.add field := by
  unfold push at h
  split at h
  next => simp at h
  next hrefusal =>
    obtain rfl := Except.ok.inj h
    unfold refusal? at hrefusal
    grind

theorem finish_eq_ok {b b' : Builder} {kind : MessageKind} (h : b.finish kind = .ok b') :
    b' = { b with
      buffer := (Header.encode ⟨kind, b.fieldCount⟩).toArray ++
        b.buffer.extract headerLength b.buffer.size
      finished := true } := by
  unfold finish at h
  split at h
  next => simp at h
  next => exact (Except.ok.inj h).symm

namespace Holds

variable {b b' : Builder} {fields : List Field}

theorem push (h : b.Holds fields) {field : Field} (hpush : b.push field = .ok b') :
    b'.Holds (fields ++ [field]) := by
  obtain ⟨hopen, hroom, hvalues, rfl⟩ := push_eq_ok hpush
  have hbuffer := toList_appendField b.buffer field
  have hheader : headerLength ≤ b.buffer.toList.length := by simpa using h.header_le
  constructor
  · simp [add, h.count]
  · have hcount := h.count
    have hle := h.count_le
    simp only [List.length_append, List.length_singleton]
    omega
  · intro f hf
    rcases List.mem_append.1 hf with hf | hf
    · exact h.values_lt f hf
    · exact List.mem_singleton.1 hf ▸ hvalues
  · have hsize := congrArg List.length hbuffer
    simp only [Array.length_toList, List.length_append] at hsize
    exact hsize ▸ Nat.le_add_right_of_le h.header_le
  · simp [add, hopen]
  · simp only [add, hbuffer, List.drop_append_of_le_length hheader, h.body, List.flatMap_append,
      List.flatMap_singleton]

theorem finish (h : b.Holds fields) {kind : MessageKind} (hfinish : b.finish kind = .ok b') :
    b'.Holds fields := by
  obtain rfl := finish_eq_ok hfinish
  have hlength : (Header.encode ⟨kind, b.fieldCount⟩).length = headerLength := by
    simp [Header.encode, headerLength]
  have hbody : (b.buffer.extract headerLength b.buffer.size).toList =
      fields.flatMap Field.encode := by
    rw [← h.body, Array.toList_extract]
    exact List.take_of_length_le (by simp)
  have hbuffer : ((Header.encode ⟨kind, b.fieldCount⟩).toArray ++
      b.buffer.extract headerLength b.buffer.size).toList =
      Header.encode ⟨kind, b.fieldCount⟩ ++ fields.flatMap Field.encode := by
    rw [Array.toList_append, hbody]
  refine ⟨h.count, h.count_le, h.values_lt, ?_, fun _ => ?_, ?_⟩
  · simp [hlength]
  · rw [hbuffer, List.take_left' hlength, h.count]
  · rw [hbuffer, List.drop_left' hlength]

end Holds

/-- How a builder comes about, with the fields that it took since it was last empty. -/
inductive Built : Builder → List Field → Prop where
  | empty : Built Builder.empty []
  | reset {b : Builder} {fields : List Field} : Built b fields → Built b.reset []
  | push {b b' : Builder} {fields : List Field} {field : Field} :
      Built b fields → b.push field = .ok b' → Built b' (fields ++ [field])
  | finish {b b' : Builder} {fields : List Field} {kind : MessageKind} :
      Built b fields → b.finish kind = .ok b' → Built b' fields

variable {b : Builder} {fields : List Field}

theorem Built.holds (h : b.Built fields) : b.Holds fields := by
  induction h with
  | empty => exact holds_empty
  | reset => exact holds_empty
  | push _ hpush ih => exact ih.push hpush
  | finish _ hfinish ih => exact ih.finish hfinish

/-- A finished message is its header and its fields, one behind the other. -/
theorem Built.toList_buffer (h : b.Built fields) (hfinished : b.finished = true) :
    b.buffer.toList =
      Header.encode ⟨.jointState, fields.length⟩ ++ fields.flatMap Field.encode := by
  rw [← h.holds.header hfinished, ← h.holds.body, List.take_append_drop]

/-- A finished message reads as the fields that its builder took, whatever follows it. -/
theorem Built.decodeFields_eq (h : b.Built fields) (hfinished : b.finished = true)
    (rest : List UInt8) :
    decodeFields (b.buffer.toList ++ rest) = .ok (⟨.jointState, fields.length⟩, fields) := by
  have hbuffer := h.toList_buffer hfinished
  have hread := readMessage_encode .jointState h.holds.count_le h.holds.values_lt rest
  simp only [decodeFields, hbuffer, List.append_assoc, hread, Read.toExcept_value]

end Builder

end ArmStream
