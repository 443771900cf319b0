import Mathlib
import ArmStream.Proofs.Pool
import ArmStream.Proofs.RaceAccounting
import ArmStream.Proofs.Reading
import ArmStream.Proofs.Waiting

/-!
# Builders that go round

A caller takes a builder, does with it what it likes, and submits it. From then on the builder waits
in the queue and in the outbox, or it is back in the pool at once. Only finished messages wait, so
whoever looks for the bytes of a message in the loop finds them. Whoever takes a builder finds a new
one, whatever callers did to the builders that they had before.

This holds of runs, in which a call is done at once, and of races, in which the loop goes on between
the steps of a call: a message is looked at before the queue is tried, and it may wait only then.

## Main definitions

- `Race.Sealed`: the messages that wait in a race, and those about to, are finished.
- `LinkState.Arises`: a link that a run or a race leads to.

## Main statements

- `Race.waiting_proceed`, `Race.returns_proceed`: what a step of the loop does.
- `Race.Sealed.step`, `Race.tidy_step`: each action keeps what waits and the pool in order.
- `LinkState.Arises.finished_in_clean_out`: what waits, and what callers take.
-/

namespace ArmStream

variable {σ : Type} {net : Net σ}

/-! ## Races -/

namespace Race

/-! ### Calls -/

namespace Call

variable {s : LinkState σ} {b : Builder}

/-- Only a call that saw that the loop was not stopped adds its message. -/
theorem waiting_step (net : Net σ) (s : LinkState σ) (c : Call) :
    (c.step net s).1.waiting = s.waiting ∨
      ∃ b, c = .admitted b ∧ (c.step net s).1.waiting = s.waiting ++ [b] := by
  cases c with
  | begun b =>
    left
    simp only [step]
    split
    next => exact s.waiting_release b
    next =>
      split
      next => exact s.waiting_release b
      next => rfl
  | admitted b =>
    rcases s.enqueue_cases b with heq | heq | heq
    · exact .inl (by simp [step, heq])
    · exact .inl (by simp [step, heq])
    · exact .inr ⟨b, rfl, by simp [step, heq, LinkState.waiting]⟩
  | enqueued => exact .inl (s.countSubmitted.waiting_wake net)
  | overflowed b => exact .inl (s.waiting_release b)
  | returned r => exact .inl rfl

/-- A call that goes on has looked whether its message is finished. -/
theorem finished_of_step {c : Call} (h : (c.step net s).2 = .admitted b) : b.finished = true := by
  cases c with
  | begun b' =>
    cases hfinished : b'.finished with
    | false => simp [step, hfinished] at h
    | true =>
      cases hstopped : s.stopped with
      | false =>
        obtain rfl : b' = b := by simpa [step, hfinished, hstopped] using h
        exact hfinished
      | true => simp [step, hfinished, hstopped] at h
  | admitted b' =>
    rcases s.enqueue_cases b' with heq | heq | heq <;> simp [step, heq] at h
  | enqueued => cases h
  | overflowed b' => cases h
  | returned r => cases h

theorem tidy_step (h : s.Tidy) (net : Net σ) (c : Call) : (c.step net s).1.Tidy := by
  have hreleased := h.release
  cases c with
  | begun b =>
    simp only [step]
    split
    next => exact hreleased b
    next =>
      split
      next => exact hreleased b
      next => exact h
  | admitted b =>
    rcases s.enqueue_cases b with heq | heq | heq
    · simpa only [step, heq] using hreleased b
    · simpa only [step, heq] using h
    · have hqueued : LinkState.Tidy { s with queue := s.queue ++ [b] } := h.congr rfl rfl
      simpa only [step, heq] using hqueued
  | enqueued =>
    have hcounted : s.countSubmitted.Tidy := h.congr rfl rfl
    exact hcounted.wake net
  | overflowed b => exact (hreleased b).congr rfl rfl
  | returned r => exact h

end Call

/-! ### The loop -/

theorem waiting_stageStep (net : Net σ) (x : Race σ) (stage : Stage) :
    (x.stageStep net stage).link.waiting.Sublist x.link.waiting :=
  System.waiting_proceed net { link := x.link, stage := stage }

/-- The loop adds nothing to the messages that wait, also when callers go on meanwhile. -/
theorem waiting_proceed (net : Net σ) (x : Race σ) :
    (x.proceed net).link.waiting.Sublist x.link.waiting := by
  unfold proceed
  split
  next =>
    split
    next => exact .refl _
    next b rest hqueue =>
      have hline : x.link.waiting = x.link.outbox ++ b :: rest :=
        congrArg (x.link.outbox ++ ·) hqueue
      rw [hline]
      exact (x.link.withQueue rest).waiting_take b
  next => exact .refl _
  next => exact waiting_stageStep net x _
  next =>
    split
    next =>
      obtain ⟨pool, heq⟩ := LinkState.exists_foldl_release x.link.emptied x.link.outbox
      rw [heq]
      exact List.nil_sublist _
    next b rest hqueue => simp [LinkState.waiting, LinkState.withQueue, hqueue]
  next => exact x.link.waiting_vanish net
  next => exact .refl _
  next => exact .refl _

theorem waiting_answer (net : Net σ) (x : Race σ) (r : Reply (List Event)) :
    (x.answer net r).link.waiting.Sublist x.link.waiting := by
  unfold answer
  split
  next => exact LinkState.waiting_vanish net { x.link with loopDied := true }
  next => exact System.waiting_answer net { link := x.link, stage := .waiting } _

/-- Of what callers own the loop of a race changes no more than that of a run. -/
theorem returns_proceed (net : Net σ) (x : Race σ) : x.link.Returns (x.proceed net).link := by
  have hsame : x.link.Returns x.link := .refl
  unfold proceed
  split
  next =>
    split
    next => exact hsame
    next b rest _ =>
      have hshorter : x.link.Returns (x.link.withQueue rest) := hsame.aside rfl
      exact hshorter.take b
  next => exact hsame.stop
  next => exact System.returns_proceed net { link := x.link, stage := _ }
  next =>
    split
    next =>
      have hemptied : x.link.Returns x.link.emptied := hsame.aside rfl
      exact (hemptied.foldl_release x.link.outbox).aside rfl
    next b rest _ =>
      have hshorter : x.link.Returns (x.link.withQueue rest) := hsame.aside rfl
      exact hshorter.release b
  next => exact hsame.aside rfl
  next => exact hsame
  next => exact hsame

theorem returns_answer (net : Net σ) (x : Race σ) (r : Reply (List Event)) :
    x.link.Returns (x.answer net r).link := by
  unfold answer
  split
  next => exact LinkState.Returns.refl.aside rfl
  next => exact System.returns_answer net { link := x.link, stage := .waiting } _

theorem calls_proceed (net : Net σ) (x : Race σ) : (x.proceed net).calls = x.calls := by
  unfold proceed stageStep
  repeat' split
  all_goals rfl

theorem calls_answer (net : Net σ) (x : Race σ) (r : Reply (List Event)) :
    (x.answer net r).calls = x.calls := by
  cases r <;> rfl

/-! ### Actions -/

/-- Each action keeps the pool tidy. -/
theorem tidy_step {x : Race σ} (h : x.link.Tidy) (net : Net σ) (a : Action) :
    (x.step net a).link.Tidy := by
  cases a with
  | submit b => exact h
  | call i =>
    simp only [step, callStep]
    split
    next => exact h
    next c _ => exact c.tidy_step h net
  | acquire => exact h.acquire
  | guard => exact ⟨h.blank, h.bounded⟩
  | dropGuard => exact h.dropGuard net
  | stop => exact h.stop net
  | proceed => exact h.returns (x.returns_proceed net)
  | wake r =>
    simp only [step]
    split
    next => exact h.returns (x.returns_answer net r)
    next => exact h

/-- The messages that wait are finished, and so are those that may be put into the queue next. -/
structure Sealed (x : Race σ) : Prop where
  waiting : ∀ b ∈ x.link.waiting, b.finished = true
  admitted : ∀ b, .admitted b ∈ x.calls → b.finished = true

namespace Sealed

variable {x : Race σ}

/-- Nothing is added. -/
theorem sublist (h : x.Sealed) {y : Race σ} (hwaiting : y.link.waiting.Sublist x.link.waiting)
    (hcalls : y.calls = x.calls) : y.Sealed :=
  ⟨fun b hb => h.waiting b (hwaiting.mem hb), hcalls ▸ h.admitted⟩

theorem callStep (h : x.Sealed) (net : Net σ) (i : Nat) : (x.callStep net i).Sealed := by
  unfold Race.callStep
  split
  next => exact h
  next c hc =>
    have hcall : c ∈ x.calls := List.mem_of_getElem? hc
    constructor
    · intro b hb
      rcases c.waiting_step net x.link with hsame | ⟨b', rfl, hadded⟩
      · exact h.waiting b (hsame ▸ hb)
      · rw [hadded, List.mem_append, List.mem_singleton] at hb
        rcases hb with hb | rfl
        · exact h.waiting b hb
        · exact h.admitted b hcall
    · intro b hb
      rcases List.mem_or_eq_of_mem_set hb with hb | heq
      · exact h.admitted b hb
      · exact Call.finished_of_step heq.symm

theorem step (h : x.Sealed) (net : Net σ) (a : Action) : (x.step net a).Sealed := by
  cases a with
  | submit b => exact ⟨h.waiting, by simpa [Race.step] using h.admitted⟩
  | call i => exact h.callStep net i
  | acquire => exact h.sublist (by simp [Race.step]) rfl
  | guard => exact h.sublist (.refl _) rfl
  | dropGuard => exact h.sublist (by simp [Race.step]) rfl
  | stop => exact h.sublist (by simp [Race.step]) rfl
  | proceed => exact h.sublist (x.waiting_proceed net) (calls_proceed net x)
  | wake r =>
    simp only [Race.step]
    split
    next => exact h.sublist (x.waiting_answer net r) (calls_answer net x r)
    next => exact h

end Sealed

namespace Reachable

variable {w₀ : σ} {x : Race σ}

/-- In each race all messages that wait are finished. -/
theorem sealed (h : Reachable net w₀ x) : x.Sealed := by
  induction h with
  | opened hopened =>
    obtain ⟨s, hfresh, rfl⟩ := LinkState.exists_fresh hopened
    exact ⟨by simp [hfresh.waiting], by simp⟩
  | step a _ ih => exact ih.step net a

/-- In each race the pool is tidy. -/
theorem tidy (h : Reachable net w₀ x) : x.link.Tidy := by
  induction h with
  | opened hopened => exact (ArmStream.Reachable.opened hopened).tidy
  | step a _ ih => exact tidy_step ih net a

end Reachable

end Race

/-! ## Links -/

namespace LinkState

variable {s : LinkState σ} {w₀ : σ}

/-- A link that a run or a race leads to, from the opening in the world `w₀` on. -/
inductive Arises (net : Net σ) (w₀ : σ) : LinkState σ → Prop where
  | run {y : System σ} : Reachable net w₀ y → Arises net w₀ y.link
  | race {x : Race σ} : Race.Reachable net w₀ x → Arises net w₀ x.link

namespace Arises

theorem finished_waiting (h : s.Arises net w₀) : ∀ b ∈ s.waiting, b.finished = true := by
  cases h with
  | run hreach => exact hreach.finished_waiting
  | race hreach => exact hreach.sealed.waiting

theorem tidy (h : s.Arises net w₀) : s.Tidy := by
  cases h with
  | run hreach => exact hreach.tidy
  | race hreach => exact hreach.tidy

/-- When the loop has handed on some of the messages, the oldest one left has its bytes. -/
theorem bytes_oldest (h : s.Arises net w₀) {s' : LinkState σ}
    (hless : s'.waiting.Sublist s.waiting) {b : Builder} {rest : List Builder}
    (houtbox : s'.outbox = b :: rest) : b.bytes = .ok b.buffer := by
  have hwaits : b ∈ s'.waiting := by simp [waiting, houtbox]
  exact Builder.bytes_of_finished (h.finished_waiting b (hless.mem hwaits))

/-- Only finished messages wait in the queue and in the outbox, so that the loop finds the bytes of
each message that it gives to a stream or sends as a datagram. The builders in the pool are as new.
So whoever takes a builder gets a new one, and can write each joint state of short enough vectors
into it. -/
theorem finished_in_clean_out (h : s.Arises net w₀) :
    (∀ b ∈ s.queue ++ s.outbox, b.finished = true) ∧
    (∀ n t b rest, (handOverAll n s t).1.outbox = b :: rest → b.bytes = .ok b.buffer) ∧
    (∀ n b rest, (sendDatagrams net n s).outbox = b :: rest → b.bytes = .ok b.buffer) ∧
    (∀ b ∈ s.pool, b = Builder.empty ∧ b.isEmpty = true ∧ b.finished = false ∧
      b.size = headerLength) ∧
    s.acquire.1 = Builder.empty ∧
    ∀ j : JointState, j.Fits → ∃ m bytes, j.encodeInto s.acquire.1 = (m, none) ∧
      j.encodeInto Builder.empty = (m, none) ∧ m.bytes = .ok bytes ∧
      bytes.toList = j.encodePadded {} := by
  have hnew := h.tidy.acquire_eq_empty
  refine ⟨fun b hb => ?_, fun n t b rest houtbox => ?_, fun n b rest houtbox => ?_,
    fun b hb => ?_, hnew, fun j hj => ?_⟩
  · have hwaits : b ∈ s.waiting := List.mem_append.2 (List.mem_append.1 hb).symm
    exact h.finished_waiting b hwaits
  · exact h.bytes_oldest (s.waiting_handOverAll n t) houtbox
  · exact h.bytes_oldest (waiting_sendDatagrams net n s) houtbox
  · obtain ⟨used, rfl⟩ := h.tidy.blank b hb
    exact ⟨rfl, rfl, rfl, rfl⟩
  · obtain ⟨m, hencode, hbuilt, hfinished⟩ := JointState.exists_encodeInto hj
    exact ⟨m, m.buffer, hnew ▸ hencode, hencode, Builder.bytes_of_finished hfinished,
      JointState.toList_buffer_of_built hbuilt hfinished⟩

/-- A message that was begun and not finished is refused, and two finished ones wait, one in the
outbox and one in the queue. Then a caller takes the builder that was refused. -/
theorem finished_in_clean_out_of_run :
    ∃ s : LinkState (List (Reply Nat)), s.Arises Net.scripted [] ∧ s.pool.length = 1 ∧
      (∃ b, s.queue = [b] ∧ b.finished = true) ∧
      (∃ b, s.outbox = [b] ∧ b.bytes = .ok b.buffer) ∧
      ∃ m bytes, JointState.encodeInto ⟨[1, 2], [], [3]⟩ s.acquire.1 = (m, none) ∧
        m.bytes = .ok bytes ∧ bytes.toList = JointState.encodePadded ⟨[1, 2], [], [3]⟩ {} := by
  obtain ⟨y, hreach, hy⟩ := Reachable.exists_of_run Net.scripted []
    "tcp://127.0.0.1:0" "tcp://10.9.8.7:30010" {}
    [.acquire, .submit (Builder.empty.add ⟨.velocity, [7]⟩), .guard, .submit .bare, .proceed,
      .proceed, .submit .bare]
    (fun y => y.link.pool.length == 1 && y.link.queue.length == 1 && y.link.outbox.length == 1)
    (by cbv)
  simp only [Bool.and_eq_true, beq_iff_eq] at hy
  obtain ⟨⟨hpool, hqueue⟩, houtbox⟩ := hy
  obtain ⟨b, hqueue⟩ := List.length_eq_one_iff.1 hqueue
  obtain ⟨c, houtbox⟩ := List.length_eq_one_iff.1 houtbox
  have harises : y.link.Arises Net.scripted [] := .run hreach
  obtain ⟨hfinished, hstream, -, -, -, hencode⟩ := finished_in_clean_out harises
  have hfits : JointState.Fits ⟨[1, 2], [], [3]⟩ := by simp [JointState.fits_iff, valueLimit]
  obtain ⟨m, bytes, hm, -, hbytes, htold⟩ := hencode _ hfits
  exact ⟨y.link, harises, hpool, ⟨b, hqueue, hfinished b (by simp [hqueue])⟩,
    ⟨c, houtbox, hstream 0 default c [] houtbox⟩, m, bytes, hm, hbytes, htold⟩

end Arises

end LinkState

end ArmStream
