import Mathlib
import ArmStream.Message.JointState
import ArmStream.Proofs.RoundTrip

/-!
# Messages built field by field

A builder that is open and has room takes every field whose length its header can count. So the
fields of a message can be pushed one after the other, and the finished message reads as these
fields. When a header can count no more fields, a further one is refused and leaves the builder as
it was. A joint state is a message of three fields.

## Main definitions

- `JointState.Fits`: a joint state whose vectors are short enough for the wire.

## Main statements

- `Builder.Built.exists_pushAll`: pushing several fields.
- `JointState.exists_encodeInto`: a joint state in a builder.
- `Builder.message_reads_back`: what is built reads as what was pushed.
-/

namespace ArmStream

/-- Each vector is short enough to be counted by the header of its field. -/
def JointState.Fits (s : JointState) : Prop := ∀ f ∈ s.fields, f.values.length < valueLimit

theorem JointState.fits_iff (s : JointState) :
    s.Fits ↔ s.position.length < valueLimit ∧ s.velocity.length < valueLimit ∧
      s.acceleration.length < valueLimit := by
  simp [Fits, fields]

namespace Builder

variable {b : Builder} {field : Field} {taken fields : List Field}

theorem refusal?_of_room (hopen : b.finished = false) (hroom : b.fieldCount ≠ maxFields)
    (hvalues : field.values.length < valueLimit) : b.refusal? field = none := by
  simp [refusal?, hopen, hroom, Nat.not_le.2 hvalues]

theorem refusal?_of_full (hopen : b.finished = false) (hfull : b.fieldCount = maxFields)
    (field : Field) : b.refusal? field = some .tooManyFields := by
  simp [refusal?, hopen, hfull]

theorem push_of_room (hopen : b.finished = false) (hroom : b.fieldCount ≠ maxFields)
    (hvalues : field.values.length < valueLimit) : b.push field = .ok (b.add field) := by
  simp [push, refusal?_of_room hopen hroom hvalues]

/-- Fields that the header can count are all taken. -/
theorem Built.exists_pushAll (h : b.Built taken) (hopen : b.finished = false)
    (hcount : taken.length + fields.length ≤ maxFields)
    (hvalues : ∀ f ∈ fields, f.values.length < valueLimit) :
    ∃ b', b.pushAll fields = (b', none) ∧ b'.Built (taken ++ fields) ∧ b'.finished = false := by
  induction fields generalizing b taken with
  | nil => exact ⟨b, rfl, by simpa using h, hopen⟩
  | cons f fields ih =>
    have htaken := h.holds.count
    rw [List.length_cons] at hcount
    have hroom : b.fieldCount ≠ maxFields := by omega
    have hf := hvalues f (by simp)
    have hadded : (b.add f).Built (taken ++ [f]) := h.push (push_of_room hopen hroom hf)
    obtain ⟨b', hpushed, hbuilt, hopen'⟩ := ih hadded hopen
      (by rw [List.length_append, List.length_singleton]; omega)
      (fun g hg => hvalues g (List.mem_cons_of_mem f hg))
    refine ⟨b', ?_, by simpa using hbuilt, hopen'⟩
    simp only [pushAll, refusal?_of_room hopen hroom hf, hpushed]

/-- Pushing goes on where it stopped. -/
theorem pushAll_append {b' : Builder} (h : b.pushAll fields = (b', none)) (later : List Field) :
    b.pushAll (fields ++ later) = b'.pushAll later := by
  induction fields generalizing b with
  | nil =>
    obtain rfl : b = b' := congrArg Prod.fst h
    rfl
  | cons f fields ih =>
    rw [List.cons_append]
    cases hrefusal : b.refusal? f with
    | none =>
      simp only [pushAll, hrefusal] at h ⊢
      exact ih h
    | some e => simp [pushAll, hrefusal] at h

theorem exists_finish (h : b.Built fields) (hopen : b.finished = false) :
    ∃ m, b.finish .jointState = .ok m ∧ m.Built fields ∧ m.finished = true := by
  have hfinish : b.finish .jointState = .ok { b with
      buffer := (Header.encode ⟨.jointState, b.fieldCount⟩).toArray ++
        b.buffer.extract headerLength b.buffer.size
      finished := true } := by
    simp [finish, hopen]
  exact ⟨_, hfinish, h.finish hfinish, rfl⟩

theorem bytes_of_finished (h : b.finished = true) : b.bytes = .ok b.buffer :=
  bytes_eq_ok_iff.2 ⟨h, rfl⟩

end Builder

namespace JointState

variable {b : Builder}

theorem ofFields_fields (s : JointState) : ofFields s.fields = .ok s := by
  simp [ofFields, fields]

/-- The message of a joint state reads as this joint state. -/
theorem decode_of_built {s : JointState} (h : b.Built s.fields) (hfinished : b.finished = true) :
    decode b.buffer.toList = .ok s := by
  have hread := h.decodeFields_eq hfinished []
  rw [List.append_nil] at hread
  simp only [decode, hread, ofFields_fields]

/-- A joint state whose vectors are short enough can be written into an empty builder. -/
theorem exists_encodeInto {s : JointState} (h : s.Fits) :
    ∃ m, s.encodeInto .empty = (m, none) ∧ m.Built s.fields ∧ m.finished = true := by
  obtain ⟨b, hpushed, hbuilt, hopen⟩ :=
    Builder.Built.empty.exists_pushAll rfl (by simp [fields, maxFields]) h
  obtain ⟨m, hfinish, hm, hfinished⟩ := Builder.exists_finish hbuilt hopen
  exact ⟨m, by simp only [encodeInto, hpushed, hfinish], hm, hfinished⟩

end JointState

namespace Builder

/-- Fields pushed into an empty builder make a message that reads as these fields. After as many
fields as a header can count, a further one is refused and the builder stays as it was. A joint
state written into an empty builder reads as this joint state. -/
theorem message_reads_back {b₀ : Builder} (h₀ : b₀ = .empty ∨ ∃ b : Builder, b₀ = b.reset) :
    (∀ fields : List Field, fields.length ≤ maxFields →
      (∀ f ∈ fields, f.values.length < valueLimit) →
      ∃ b m bytes, b₀.pushAll fields = (b, none) ∧ b.finish .jointState = .ok m ∧
        m.bytes = .ok bytes ∧
        decodeFields bytes.toList = .ok (⟨.jointState, fields.length⟩, fields) ∧
        (fields.length = maxFields → ∀ f : Field, b.push f = .error .tooManyFields ∧
          b₀.pushAll (fields ++ [f]) = (b, some .tooManyFields))) ∧
    ∀ s : JointState, s.Fits →
      ∃ m bytes, s.encodeInto b₀ = (m, none) ∧ m.bytes = .ok bytes ∧
        JointState.decode bytes.toList = .ok s := by
  obtain rfl : b₀ = .empty := by
    rcases h₀ with rfl | ⟨b, rfl⟩ <;> rfl
  constructor
  · intro fields hcount hvalues
    obtain ⟨b, hpushed, hbuilt, hopen⟩ :=
      Built.empty.exists_pushAll rfl (by simpa using hcount) hvalues
    rw [List.nil_append] at hbuilt
    obtain ⟨m, hfinish, hm, hfinished⟩ := exists_finish hbuilt hopen
    have hread := hm.decodeFields_eq hfinished []
    rw [List.append_nil] at hread
    refine ⟨b, m, m.buffer, hpushed, hfinish, bytes_of_finished hfinished, hread, ?_⟩
    intro hfull f
    have hrefusal := refusal?_of_full hopen (hbuilt.holds.count.trans hfull) f
    refine ⟨by simp only [push, hrefusal], ?_⟩
    rw [pushAll_append hpushed]
    simp only [pushAll, hrefusal]
  · intro s hs
    obtain ⟨m, hencode, hm, hfinished⟩ := JointState.exists_encodeInto hs
    exact ⟨m, m.buffer, hencode, bytes_of_finished hfinished,
      JointState.decode_of_built hm hfinished⟩

/-- In a builder used before: as many fields as a header can count, each with the same code and the
same NaN; and a joint state of vectors of three lengths. -/
theorem message_reads_back_of_reset :
    (∃ b m bytes,
      (add empty ⟨.position, [1]⟩).reset.pushAll
        (List.replicate maxFields ⟨.velocity, [0x7ff4deadbeef0001]⟩) = (b, none) ∧
      b.finish .jointState = .ok m ∧ m.bytes = .ok bytes ∧
      decodeFields bytes.toList = .ok (⟨.jointState, maxFields⟩,
        List.replicate maxFields ⟨.velocity, [0x7ff4deadbeef0001]⟩) ∧
      b.push ⟨.position, []⟩ = .error .tooManyFields) ∧
    ∃ m bytes,
      (JointState.mk [0x3ff0000000000000] [] [0x8000000000000000, 0x7ff8000000000000]).encodeInto
        (add empty ⟨.position, [1]⟩).reset = (m, none) ∧ m.bytes = .ok bytes ∧
      JointState.decode bytes.toList =
        .ok ⟨[0x3ff0000000000000], [], [0x8000000000000000, 0x7ff8000000000000]⟩ := by
  have h := message_reads_back (.inr ⟨add empty ⟨.position, [1]⟩, rfl⟩)
  constructor
  · obtain ⟨b, m, bytes, hpushed, hfinish, hbytes, hread, hfull⟩ :=
      h.1 (List.replicate maxFields ⟨.velocity, [0x7ff4deadbeef0001]⟩) (by simp)
        (by simp [valueLimit])
    rw [List.length_replicate] at hread
    exact ⟨b, m, bytes, hpushed, hfinish, hbytes, hread, (hfull (by simp) ⟨.position, []⟩).1⟩
  · exact h.2 _ ((JointState.fits_iff _).2 ⟨by simp [valueLimit], by simp [valueLimit],
      by simp [valueLimit]⟩)

end Builder

end ArmStream
