import Mathlib
import ArmStream.Proofs.Building

/-!
# What reading accepts

A reader gives a value back only if its data begins with an encoding of this value, apart from the
bytes that it passes over: two in the header of a message, three in the header of each field, and
all that follows the last field. So the bytes that read as a joint state are known exactly. Written
again, the joint state has zeros in these places and nothing behind it.

## Main definitions

- `JointState.Padding`: the bytes of a message that are passed over.
- `JointState.encodePadded`: the wire form with these bytes given.

## Main statements

- `bytes_of_readField`, `bytes_of_readMessage`: what the readers accept.
- `JointState.decode_eq_ok_iff`: the bytes that read as a joint state.
- `JointState.decode_iff_and_canonical`: the same, and what writing again gives.
-/

namespace ArmStream

theorem Read.exists_of_toExcept {α : Type} {r : Read α} {h : r ≠ .overrun} {a : α}
    (hr : r.toExcept h = .ok a) : ∃ rest, r = .value a rest := by
  cases r with
  | value a' c =>
    cases hr
    exact ⟨c, rfl⟩
  | refused e => cases hr
  | overrun => exact absurd rfl h

theorem Read.andThen_eq_value {α β : Type} {r : Read α} {next : α → Cursor → Read β} {b : β}
    {rest : Cursor} (h : r.andThen next = .value b rest) :
    ∃ a c, r = .value a c ∧ next a c = .value b rest := by
  cases r with
  | value a c => exact ⟨a, c, rfl, h⟩
  | refused e => cases h
  | overrun => cases h

/-! ## Words -/

namespace Cursor

variable {c rest : Cursor}

theorem bytes_of_takeByte {b : UInt8} (h : c.takeByte = .value b rest) :
    c.bytes = b :: rest.bytes := by
  obtain ⟨bytes, left, rfl⟩ := c
  cases bytes with
  | nil => cases h
  | cons b' bytes =>
    cases h
    rfl

theorem bytes_of_takeHalf {n : Nat} (h : c.takeHalf = .value n rest) :
    c.bytes = LittleEndian.encode 2 n ++ rest.bytes ∧ n ≤ maxFields := by
  obtain ⟨bytes, left, rfl⟩ := c
  match bytes, h with
  | [], h => cases h
  | [_], h => cases h
  | b0 :: b1 :: _, h =>
    cases h
    have hlt := LittleEndian.decode_lt [b0, b1]
    exact ⟨congrArg (· ++ _) (LittleEndian.encode_decode [b0, b1]).symm,
      Nat.le_of_lt_succ (by simpa [maxFields] using hlt)⟩

theorem bytes_of_takeWord {n : Nat} (h : c.takeWord = .value n rest) :
    c.bytes = LittleEndian.encode 4 n ++ rest.bytes ∧ n < valueLimit := by
  obtain ⟨bytes, left, rfl⟩ := c
  match bytes, h with
  | [], h => cases h
  | [_], h => cases h
  | [_, _], h => cases h
  | [_, _, _], h => cases h
  | b0 :: b1 :: b2 :: b3 :: _, h =>
    cases h
    have hlt := LittleEndian.decode_lt [b0, b1, b2, b3]
    exact ⟨congrArg (· ++ _) (LittleEndian.encode_decode [b0, b1, b2, b3]).symm,
      by simpa [valueLimit] using hlt⟩

theorem bytes_of_takePattern {v : Pattern} (h : c.takePattern = .value v rest) :
    c.bytes = LittleEndian.encode 8 v.toNat ++ rest.bytes := by
  obtain ⟨bytes, left, rfl⟩ := c
  match bytes, h with
  | [], h => cases h
  | [_], h => cases h
  | [_, _], h => cases h
  | [_, _, _], h => cases h
  | [_, _, _, _], h => cases h
  | [_, _, _, _, _], h => cases h
  | [_, _, _, _, _, _], h => cases h
  | [_, _, _, _, _, _, _], h => cases h
  | b0 :: b1 :: b2 :: b3 :: b4 :: b5 :: b6 :: b7 :: _, h =>
    cases h
    have hlt := LittleEndian.decode_lt [b0, b1, b2, b3, b4, b5, b6, b7]
    rw [UInt64.toNat_ofNat', Nat.mod_eq_of_lt (by simpa using hlt)]
    exact congrArg (· ++ _) (LittleEndian.encode_decode [b0, b1, b2, b3, b4, b5, b6, b7]).symm

theorem bytes_of_skip {n : Nat} (h : c.skip n = .value () rest) :
    ∃ front, front.length = n ∧ c.bytes = front ++ rest.bytes := by
  unfold skip at h
  split at h
  next hle =>
    cases h
    refine ⟨c.bytes.take n, ?_, (List.take_append_drop n c.bytes).symm⟩
    rw [List.length_take, ← c.left_eq, Nat.min_eq_left hle]
  next => cases h

theorem bytes_of_takePatterns {count : Nat} {acc values : List Pattern}
    (h : c.takePatterns count acc = .value values rest) :
    ∃ vs, values = acc.reverse ++ vs ∧ vs.length = count ∧
      c.bytes = (vs.flatMap fun v => LittleEndian.encode 8 v.toNat) ++ rest.bytes := by
  induction count generalizing c acc with
  | zero =>
    cases h
    exact ⟨[], by simp, rfl, rfl⟩
  | succ count ih =>
    obtain ⟨v, mid, hv, hlater⟩ := Read.andThen_eq_value h
    obtain ⟨vs, hvalues, hlength, hbytes⟩ := ih hlater
    refine ⟨v :: vs, by simpa using hvalues, by simp [hlength], ?_⟩
    rw [bytes_of_takePattern hv, hbytes]
    simp

end Cursor

/-! ## Fields and messages -/

theorem FieldId.eq_code_of_ofCode? {code : UInt8} {id : FieldId} (h : ofCode? code = some id) :
    code = id.code := by
  unfold ofCode? at h
  grind [FieldId.code]

theorem MessageKind.eq_code_of_ofCode? {code : UInt8} {kind : MessageKind}
    (h : ofCode? code = some kind) : code = kind.code := by
  unfold ofCode? at h
  grind [MessageKind.code]

/-- A field is read only from an encoding of it. -/
theorem bytes_of_readField {c rest : Cursor} {field : Field} (h : readField c = .value field rest) :
    field.values.length < valueLimit ∧
      ∃ padding, c.bytes = field.encodePadded padding ++ rest.bytes := by
  unfold readField at h
  split at h
  next => cases h
  next =>
    obtain ⟨code, c₁, hcode, h⟩ := Read.andThen_eq_value h
    split at h
    next => cases h
    next id hid =>
      obtain ⟨⟨⟩, c₂, hskip, h⟩ := Read.andThen_eq_value h
      obtain ⟨count, c₃, hcount, h⟩ := Read.andThen_eq_value h
      split at h
      next => cases h
      next =>
        obtain ⟨values, c₄, hvalues, h⟩ := Read.andThen_eq_value h
        cases h
        obtain ⟨front, hfront, hskipped⟩ := Cursor.bytes_of_skip hskip
        obtain ⟨p₀, p₁, p₂, rfl⟩ := List.length_eq_three.1 hfront
        obtain ⟨hword, hlt⟩ := Cursor.bytes_of_takeWord hcount
        obtain ⟨vs, hvs, hlength, hpatterns⟩ := Cursor.bytes_of_takePatterns hvalues
        obtain rfl : values = vs := hvs
        refine ⟨hlength.trans_lt hlt, (p₀, p₁, p₂), ?_⟩
        rw [Cursor.bytes_of_takeByte hcode, hskipped, hword, hpatterns,
          FieldId.eq_code_of_ofCode? hid, Field.encodePadded]
        simp [hlength]

/-- The fields that are read stand one behind the other, each with bytes of its own that are passed
over. -/
theorem bytes_of_readFields {count : Nat} {c rest : Cursor} {acc fields : List Field}
    (h : readFields count c acc = .value fields rest) :
    ∃ new paddings, fields = acc.reverse ++ new ∧ new.length = count ∧ paddings.length = count ∧
      (∀ f ∈ new, f.values.length < valueLimit) ∧
      c.bytes = (List.zipWith Field.encodePadded new paddings).flatten ++ rest.bytes := by
  induction count generalizing c acc with
  | zero =>
    cases h
    exact ⟨[], [], by simp, rfl, rfl, by simp, rfl⟩
  | succ count ih =>
    obtain ⟨f, mid, hf, hlater⟩ := Read.andThen_eq_value h
    obtain ⟨hfits, padding, hbytes⟩ := bytes_of_readField hf
    obtain ⟨new, paddings, hfields, hnew, hpaddings, hvalues, hrest⟩ := ih hlater
    refine ⟨f :: new, padding :: paddings, by simpa using hfields, by simp [hnew],
      by simp [hpaddings], ?_, by rw [hbytes, hrest]; simp⟩
    intro g hg
    rcases List.mem_cons.1 hg with rfl | hg
    · exact hfits
    · exact hvalues g hg

theorem bytes_of_readHeader {c rest : Cursor} {header : Header}
    (h : readHeader c = .value header rest) :
    c.bytes = [magic.1, magic.2, wireVersion, header.kind.code]
      ++ LittleEndian.encode 2 header.fieldCount ++ rest.bytes ∧ header.fieldCount ≤ maxFields := by
  unfold readHeader at h
  split at h
  next => cases h
  next =>
    obtain ⟨first, c₁, hfirst, h⟩ := Read.andThen_eq_value h
    obtain ⟨second, c₂, hsecond, h⟩ := Read.andThen_eq_value h
    split at h
    next => cases h
    next hmagic =>
      obtain ⟨version, c₃, hversion, h⟩ := Read.andThen_eq_value h
      split at h
      next => cases h
      next hcurrent =>
        obtain ⟨code, c₄, hcode, h⟩ := Read.andThen_eq_value h
        split at h
        next => cases h
        next kind hkind =>
          obtain ⟨count, c₅, hcount, h⟩ := Read.andThen_eq_value h
          cases h
          have hletters : (first, second) = magic := not_not.1 hmagic
          obtain ⟨hhalf, hmost⟩ := Cursor.bytes_of_takeHalf hcount
          refine ⟨?_, hmost⟩
          rw [Cursor.bytes_of_takeByte hfirst, Cursor.bytes_of_takeByte hsecond,
            Cursor.bytes_of_takeByte hversion, Cursor.bytes_of_takeByte hcode, hhalf,
            MessageKind.eq_code_of_ofCode? hkind, ← hletters, not_not.1 hcurrent]
          simp

/-- A message is read only from its header and its fields. -/
theorem bytes_of_readMessage {c rest : Cursor} {header : Header} {fields : List Field}
    (h : readMessage c = .value (header, fields) rest) :
    header.fieldCount = fields.length ∧ fields.length ≤ maxFields ∧
      (∀ f ∈ fields, f.values.length < valueLimit) ∧
      ∃ padding paddings, paddings.length = fields.length ∧
        c.bytes = header.encodePadded padding ++
          ((List.zipWith Field.encodePadded fields paddings).flatten ++ rest.bytes) := by
  unfold readMessage at h
  obtain ⟨header', c₁, hheader, h⟩ := Read.andThen_eq_value h
  obtain ⟨⟨⟩, c₂, hskip, h⟩ := Read.andThen_eq_value h
  obtain ⟨fields', c₃, hfields, h⟩ := Read.andThen_eq_value h
  cases h
  obtain ⟨new, paddings, rfl, hnew, hpaddings, hvalues, hbytes⟩ := bytes_of_readFields hfields
  obtain ⟨front, hfront, hskipped⟩ := Cursor.bytes_of_skip hskip
  obtain ⟨hstart, hmost⟩ := bytes_of_readHeader hheader
  -- the header is read from the first six bytes, and eight are passed over
  have htwo : (front.drop 6).length = 2 := by simp [hfront, headerLength]
  obtain ⟨p₀, p₁, hlast⟩ := List.length_eq_two.1 htwo
  have hfirst : front.take 6 = [magic.1, magic.2, wireVersion, header.kind.code]
      ++ LittleEndian.encode 2 header.fieldCount := by
    have hboth := congrArg (List.take 6) (hskipped.symm.trans hstart)
    rwa [List.take_append_of_le_length (by simp [hfront, headerLength]),
      List.take_left' (by simp)] at hboth
  refine ⟨hnew.symm, hnew.trans_le hmost, hvalues, (p₀, p₁), paddings, hpaddings.trans hnew.symm,
    ?_⟩
  rw [hskipped, hbytes, Header.encodePadded, ← hfirst, ← hlast, List.take_append_drop]

/-! ## Joint states -/

namespace JointState

/-- The bytes of a joint-state message that are passed over: two in its header, three in the header
of each field, and all that follows the last field. -/
structure Padding where
  header : UInt8 × UInt8 := (0, 0)
  position : UInt8 × UInt8 × UInt8 := (0, 0, 0)
  velocity : UInt8 × UInt8 × UInt8 := (0, 0, 0)
  acceleration : UInt8 × UInt8 × UInt8 := (0, 0, 0)
  tail : List UInt8 := []
  deriving DecidableEq, Repr, Inhabited

/-- The wire form of a joint state with these bytes given. Its header has the letters `J` and `S`,
the version 1, the kind 1 and the number 3 in two bytes. -/
def encodePadded (s : JointState) (p : Padding) : List UInt8 :=
  [0x4a, 0x53, 1, 1, 3, 0, p.header.1, p.header.2]
    ++ Field.encodePadded ⟨.position, s.position⟩ p.position
    ++ Field.encodePadded ⟨.velocity, s.velocity⟩ p.velocity
    ++ Field.encodePadded ⟨.acceleration, s.acceleration⟩ p.acceleration
    ++ p.tail

theorem encodePadded_eq (s : JointState) (p : Padding) :
    s.encodePadded p = Header.encodePadded ⟨.jointState, s.fields.length⟩ p.header ++
      ((List.zipWith Field.encodePadded s.fields [p.position, p.velocity, p.acceleration]).flatten
        ++ p.tail) := by
  simp [encodePadded, Header.encodePadded, fields, magic, wireVersion, MessageKind.code,
    LittleEndian.encode]

/-- The bytes that are passed over can be told from the message. -/
theorem encodePadded_injective (s : JointState) : Function.Injective s.encodePadded := by
  intro p q h
  simp only [encodePadded, Field.encodePadded, List.append_assoc, List.cons_append,
    List.nil_append, List.cons.injEq, List.append_cancel_left_eq, true_and] at h
  obtain ⟨h₀, h₁, h₂, h₃, h₄, h₅, h₆, h₇, h₈, h₉, h₁₀, htail⟩ := h
  cases p
  cases q
  simp_all [Prod.ext_iff]

theorem fields_of_ofFields {fs : List Field} {s : JointState} (h : ofFields fs = .ok s) :
    fs = s.fields := by
  unfold ofFields at h
  split at h
  next p v a =>
    split at h
    next => cases h
    next hp =>
      split at h
      next => cases h
      next hv =>
        split at h
        next => cases h
        next ha =>
          cases h
          simp only [fields, ← not_not.1 hp, ← not_not.1 hv, ← not_not.1 ha]
  next => cases h

/-- The bytes that read as a joint state are its wire forms, whatever stands in the bytes that are
passed over. -/
theorem decode_eq_ok_iff (data : List UInt8) (s : JointState) :
    decode data = .ok s ↔ s.Fits ∧ ∃ p, data = s.encodePadded p := by
  constructor
  · intro h
    unfold decode at h
    split at h
    next => cases h
    next header fs hread =>
      obtain rfl := fields_of_ofFields h
      obtain ⟨rest, hmessage⟩ := Read.exists_of_toExcept hread
      obtain ⟨hcount, -, hfits, padding, paddings, hlength, hbytes⟩ :=
        bytes_of_readMessage hmessage
      obtain ⟨p₀, p₁, p₂, rfl⟩ := List.length_eq_three.1 hlength
      refine ⟨hfits, ⟨padding, p₀, p₁, p₂, rest.bytes⟩, ?_⟩
      rw [encodePadded_eq, ← hcount]
      exact hbytes
  · rintro ⟨hfits, p, rfl⟩
    have hlength : [p.position, p.velocity, p.acceleration].length = s.fields.length := by
      simp [fields]
    have hread := readMessage_encodePadded .jointState (by simp [fields, maxFields]) hlength hfits
      p.header p.tail
    rw [← encodePadded_eq] at hread
    simp only [decode, decodeFields, hread, Read.toExcept_value, ofFields_fields]

/-- What builders write has zeros in the place of the bytes that are passed over. -/
theorem toList_buffer_of_built {b : Builder} {s : JointState} (h : b.Built s.fields)
    (hfinished : b.finished = true) : b.buffer.toList = s.encodePadded {} := by
  have hzero := flatten_encodePadded_zero s.fields
  rw [encodePadded_eq, h.toList_buffer hfinished, ← hzero, List.append_nil,
    Header.encodePadded_zero]
  rfl

/-- Exactly the wire forms of a joint state read as it. Written again, it has zeros in the bytes
that were passed over and nothing behind the last field; so what is written is what was read if and
only if it was so before. -/
theorem decode_iff_and_canonical (data : List UInt8) (s : JointState) :
    (decode data = .ok s ↔ s.Fits ∧ ∃ p, data = s.encodePadded p) ∧
    (decode data = .ok s →
      ∃ p m bytes, data = s.encodePadded p ∧ s.encodeInto .empty = (m, none) ∧
        m.bytes = .ok bytes ∧ bytes.toList = s.encodePadded {} ∧
        (bytes.toList = data ↔ p = {})) := by
  refine ⟨decode_eq_ok_iff data s, fun h => ?_⟩
  obtain ⟨hfits, p, rfl⟩ := (decode_eq_ok_iff data s).1 h
  obtain ⟨m, hencode, hm, hfinished⟩ := exists_encodeInto hfits
  have hbytes := toList_buffer_of_built hm hfinished
  refine ⟨p, m, m.buffer, rfl, hencode, Builder.bytes_of_finished hfinished, hbytes, ?_⟩
  rw [hbytes, s.encodePadded_injective.eq_iff, eq_comm]

/-- A message with marks in the bytes that are passed over, and two bytes behind it. -/
theorem decode_iff_and_canonical_of_tail :
    ∃ p m bytes,
      encodePadded ⟨[0x7ff4deadbeef0001], [], [1]⟩
          ⟨(7, 8), (1, 2, 3), (4, 5, 6), (0, 0, 9), [0xa, 0xb]⟩ =
        encodePadded ⟨[0x7ff4deadbeef0001], [], [1]⟩ p ∧
      encodeInto ⟨[0x7ff4deadbeef0001], [], [1]⟩ .empty = (m, none) ∧ m.bytes = .ok bytes ∧
      bytes.toList = encodePadded ⟨[0x7ff4deadbeef0001], [], [1]⟩ {} ∧
      bytes.toList ≠ encodePadded ⟨[0x7ff4deadbeef0001], [], [1]⟩
        ⟨(7, 8), (1, 2, 3), (4, 5, 6), (0, 0, 9), [0xa, 0xb]⟩ := by
  have hfits : Fits ⟨[0x7ff4deadbeef0001], [], [1]⟩ := by
    simp [fits_iff, valueLimit]
  have h := decode_iff_and_canonical (encodePadded ⟨[0x7ff4deadbeef0001], [], [1]⟩
    ⟨(7, 8), (1, 2, 3), (4, 5, 6), (0, 0, 9), [0xa, 0xb]⟩) ⟨[0x7ff4deadbeef0001], [], [1]⟩
  obtain ⟨p, m, bytes, hp, hencode, hbytes, hzero, hsame⟩ := h.2 (h.1.2 ⟨hfits, _, rfl⟩)
  refine ⟨p, m, bytes, hp, hencode, hbytes, hzero, fun heq => ?_⟩
  obtain rfl := hsame.1 heq
  exact absurd (encodePadded_injective _ hp) (by decide)

end JointState

end ArmStream
