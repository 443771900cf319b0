import Mathlib
import ArmStream.Proofs.Building
import ArmStream.Proofs.Extent

/-!
# Any calls of a builder

Fields are pushed, the message is finished and the builder is reset in any order, and some of these
calls are refused. The calls that were not refused tell what the builder should hold: the fields
pushed since it was last reset, and whether it was finished since. The builder shows exactly that,
and what it shows decides which calls it refuses. A refused call changes nothing, and after a reset
nothing of what was before can be seen.

## Main definitions

- `Builder.Call`, `Builder.perform`: calls, and what becomes of them.
- `Builder.Draft`: what the outcomes of calls tell.
- `Builder.Shows`: a builder that holds a draft.

## Main statements

- `Builder.Drafted.call`: one call keeps a builder and its draft together.
- `Builder.drafted_perform`: so do any calls.
- `Builder.history_shown`: what can be seen of a builder after any calls.
-/

namespace ArmStream.Builder

/-! ## Calls -/

inductive Call where
  | push (field : Field)
  | finish (kind : MessageKind)
  | reset
  deriving DecidableEq, Repr, Inhabited

/-- The builder after a call that gave another one back or was refused, and why it was refused. -/
def settle (b : Builder) : Except MessageError Builder → Builder × Option MessageError
  | .ok b' => (b', none)
  | .error e => (b, some e)

def call (b : Builder) : Call → Builder × Option MessageError
  | .push field => b.settle (b.push field)
  | .finish kind => b.settle (b.finish kind)
  | .reset => (b.reset, none)

def perform (b : Builder) : List Call → Builder × List (Call × Option MessageError)
  | [] => (b, [])
  | c :: rest =>
    let (b', refusal) := b.call c
    let (last, log) := b'.perform rest
    (last, (c, refusal) :: log)

theorem perform_append (b : Builder) (calls later : List Call) :
    b.perform (calls ++ later) = (((b.perform calls).1.perform later).1,
      (b.perform calls).2 ++ ((b.perform calls).1.perform later).2) := by
  induction calls generalizing b with
  | nil => rfl
  | cons c rest ih => simp [perform, ih]

/-! ## Drafts -/

/-- What the outcomes of calls tell of a builder: the fields that it took since it was last reset,
and whether it was finished since. -/
structure Draft where
  fields : List Field := []
  finished : Bool := false
  deriving DecidableEq, Repr, Inhabited

namespace Draft

def note (d : Draft) : Call × Option MessageError → Draft
  | (.reset, _) => {}
  | (.push field, none) => { d with fields := d.fields ++ [field] }
  | (.finish _, none) => { d with finished := true }
  | (_, some _) => d

def ofLog (log : List (Call × Option MessageError)) : Draft := log.foldl note {}

@[simp] theorem ofLog_concat (log : List (Call × Option MessageError))
    (entry : Call × Option MessageError) : ofLog (log ++ [entry]) = (ofLog log).note entry := by
  simp [ofLog]

def refusal? (d : Draft) : Call → Option MessageError
  | .push field =>
    if d.finished then some .alreadyFinished
    else if d.fields.length = 65535 then some .tooManyFields
    else if 0x100000000 ≤ field.values.length then some (.vectorTooLong field.values.length)
    else none
  | .finish _ => if d.finished then some .alreadyFinished else none
  | .reset => none

end Draft

/-- What can be seen of a builder that holds a draft. -/
structure Shows (b : Builder) (d : Draft) : Prop where
  count : b.fieldCount = d.fields.length
  count_le : d.fields.length ≤ 65535
  size : b.size = 8 + (d.fields.map fun f => 8 + 8 * f.values.length).sum
  body : b.buffer.toList.drop 8 = d.fields.flatMap Field.encode
  /-- The bytes are there exactly if the builder was finished. -/
  bytes : b.bytes = if d.finished then .ok b.buffer else .error .notFinished
  /-- Then the header stands at their front. -/
  header : d.finished = true → b.buffer.toList.take 8 =
    [0x4a, 0x53, 1, 1] ++ LittleEndian.encode 2 d.fields.length ++ [0, 0]

/-- The builder came about by taking the fields of the draft, and was finished if the draft is. -/
structure Drafted (b : Builder) (d : Draft) : Prop where
  built : b.Built d.fields
  finished : b.finished = d.finished

/-! ## One call -/

namespace Drafted

variable {b : Builder} {d : Draft}

theorem refusal?_eq (h : b.Drafted d) (field : Field) :
    b.refusal? field = d.refusal? (.push field) := by
  rw [refusal?, Draft.refusal?, h.finished, h.built.holds.count]
  rfl

/-- What a call of this builder comes to. -/
theorem call_eq (h : b.Drafted d) (c : Call) :
    (∃ e, d.refusal? c = some e ∧ b.call c = (b, some e)) ∨
      ∃ b', d.refusal? c = none ∧ b.call c = (b', none) ∧ b'.Drafted (d.note (c, none)) := by
  cases c with
  | push field =>
    have hrefusal := h.refusal?_eq field
    cases hd : d.refusal? (.push field) with
    | some e =>
      left
      exact ⟨e, rfl, by simp [call, push, hrefusal, hd, settle]⟩
    | none =>
      right
      have hpush : b.push field = .ok (b.add field) := by simp [push, hrefusal, hd]
      exact ⟨b.add field, rfl, by simp [call, hpush, settle], h.built.push hpush, h.finished⟩
  | finish kind =>
    cases hd : d.finished with
    | true =>
      left
      have hfinished : b.finished = true := h.finished.trans hd
      exact ⟨.alreadyFinished, by simp [Draft.refusal?, hd],
        by simp [call, finish, hfinished, settle]⟩
    | false =>
      right
      have hopen : b.finished = false := h.finished.trans hd
      obtain ⟨m, hfinish, hbuilt, hfinished⟩ := exists_finish h.built hopen
      exact ⟨m, by simp [Draft.refusal?, hd], by cases kind; simp [call, hfinish, settle],
        hbuilt, hfinished⟩
  | reset => exact .inr ⟨b.reset, rfl, rfl, h.built.reset, rfl⟩

/-- One call keeps a builder and its draft together. -/
theorem call (h : b.Drafted d) (c : Call) :
    (b.call c).1.Drafted (d.note (c, (b.call c).2)) := by
  rcases h.call_eq c with ⟨e, hrefusal, hcall⟩ | ⟨b', -, hcall, hdrafted⟩
  · cases c with
    | reset => cases hrefusal
    | push | finish => simpa [hcall, Draft.note] using h
  · simpa [hcall] using hdrafted

/-- A call is refused for what the draft says, and then it changes nothing. -/
theorem refused (h : b.Drafted d) (c : Call) :
    (b.call c).2 = d.refusal? c ∧ ((b.call c).2 = none ∨ (b.call c).1 = b) := by
  rcases h.call_eq c with ⟨e, hrefusal, hcall⟩ | ⟨b', hrefusal, hcall, -⟩
  · simp [hcall, hrefusal]
  · simp [hcall, hrefusal]

theorem shows (h : b.Drafted d) : b.Shows d := by
  have hholds := h.built.holds
  have hfinished := h.finished
  have hbody : b.size = headerLength + (d.fields.flatMap Field.encode).length := by
    have hdrop := congrArg List.length hholds.body
    rw [List.length_drop, Array.length_toList] at hdrop
    have hheader := hholds.header_le
    simp only [size]
    omega
  refine ⟨hholds.count, hholds.count_le, ?_, hholds.body, ?_, fun hd => ?_⟩
  · rw [hbody, ← flatten_encodePadded_zero, length_flatten_encodePadded (by simp)]
    rfl
  · simp [bytes, hfinished]
  · exact hholds.header (hfinished.trans hd)

end Drafted

/-! ## Any calls -/

theorem drafted_empty : empty.Drafted {} := ⟨.empty, rfl⟩

/-- Any calls keep a builder and its draft together; `before` are the calls made so far. -/
theorem Drafted.perform {b : Builder} {before : List (Call × Option MessageError)}
    (h : b.Drafted (.ofLog before)) (calls : List Call) :
    (b.perform calls).1.Drafted (.ofLog (before ++ (b.perform calls).2)) := by
  induction calls generalizing b before with
  | nil => simpa [Builder.perform] using h
  | cons c rest ih =>
    have hnext : (b.call c).1.Drafted (.ofLog (before ++ [(c, (b.call c).2)])) := by
      rw [Draft.ofLog_concat]
      exact h.call c
    simpa [Builder.perform] using ih hnext

/-- A new builder after any calls. -/
theorem drafted_perform (calls : List Call) :
    (empty.perform calls).1.Drafted (.ofLog (empty.perform calls).2) := by
  have hnew : empty.Drafted (.ofLog []) := drafted_empty
  simpa using hnew.perform calls

/-- After any calls a builder shows the fields that it took since it was last reset, and whether it
was finished since. What it shows decides how the next call ends, and a refused call leaves the
builder as it was. Whatever was before a reset, the calls after it end as those of a new builder do,
and lead to the same builder. -/
theorem history_shown (calls : List Call) :
    (empty.perform calls).1.Shows (.ofLog (empty.perform calls).2) ∧
    (∀ c, ((empty.perform calls).1.call c).2 = (Draft.ofLog (empty.perform calls).2).refusal? c ∧
      (((empty.perform calls).1.call c).2 = none ∨
        ((empty.perform calls).1.call c).1 = (empty.perform calls).1)) ∧
    ∀ later, empty.perform (calls ++ .reset :: later) = ((empty.perform later).1,
      (empty.perform calls).2 ++ (.reset, none) :: (empty.perform later).2) := by
  have hdrafted := drafted_perform calls
  refine ⟨hdrafted.shows, hdrafted.refused, fun later => ?_⟩
  rw [perform_append]
  rfl

end ArmStream.Builder
