import ArmStream.Proofs.Buffers
import ArmStream.Proofs.Recording

/-!
# Any calls of a peer

A peer gets frames and offers what is unsent, in any order, whatever the payloads are and whatever
its stream answers. After a failed offer it may get frames and offer again. Through all calls the
buffer, the offset and the ends of frames fit together, and the link counts just the bytes that
the stream took.

## Main definitions

- `Peer.Call`, `Serving.call`, `Serving.run`: the calls.
- `Peer.WellFormed`: what holds between any two calls.
- `Peer.Swept`: what holds after an offer that did not fail.

## Main statements

- `Peer.Holds.call`, `Serving.exists_holds_run`: the buffer holds whole frames after each call.
- `Serving.call_recorded`: the bytes that a call counts.
- `Serving.call_of_run`: what each call of a run leaves behind.
-/

namespace ArmStream

/-! ## The calls -/

namespace Peer

inductive Call where
  /-- Gives it a frame more. -/
  | push (payload : Bytes)
  /-- Offers what is not taken yet. -/
  | flush

inductive Answer where
  | pushed
  /-- The payload is too long for a frame. -/
  | tooLong
  | offered (outcome : WriteEnd)

/-- The offset stands within the buffer. The ends of frames ascend, the last to the end of the
buffer. -/
structure WellFormed (p : Peer) : Prop where
  offset_le : p.offset ≤ p.buffer.size
  ascending : p.frameEnds.Pairwise (· < ·)
  last : p.frameEnds ≠ [] → p.frameEnds.getLast? = some p.buffer.size

/-- No frame that the stream took completely is listed, and a peer that listed no frame forgot
its bytes. -/
structure Swept (p : Peer) : Prop where
  unfinished : p.Unfinished
  unsent_eq_zero_iff : p.unsent = 0 ↔ p.frameEnds = []
  empty : p.frameEnds = [] → p.buffer = #[] ∧ p.offset = 0

end Peer

structure Serving (σ : Type) where
  peer : Peer
  link : LinkState σ

namespace Serving

variable {σ : Type}

def push (x : Serving σ) (payload : Bytes) : Serving σ × Peer.Answer :=
  match x.peer.push? payload with
  | none => (x, .tooLong)
  | some p => ({ x with peer := p }, .pushed)

def flush (net : Net σ) (x : Serving σ) : Serving σ × Peer.Answer :=
  let r := x.peer.flush net x.link.world
  (⟨r.peer, (x.link.noteWritten r).1⟩, .offered r.outcome)

def call (net : Net σ) (x : Serving σ) : Peer.Call → Serving σ × Peer.Answer
  | .push payload => x.push payload
  | .flush => x.flush net

def run (net : Net σ) (x : Serving σ) (calls : List Peer.Call) : Serving σ :=
  calls.foldl (fun x c => (x.call net c).1) x

end Serving

/-! ## What the buffer holds -/

namespace Peer

variable {p : Peer} {start : Nat} {frames : List (List UInt8)}

theorem push?_eq_none_iff {payload : Bytes} :
    p.push? payload = none ↔ Frame.maxLength < payload.size := by
  unfold push?
  cases happend : Frame.append? p.buffer payload with
  | none =>
    have hlong : ¬payload.size ≤ Frame.maxLength := fun hsize => by
      simp [Frame.append?_eq_some_iff.2 ⟨hsize, rfl⟩] at happend
    simpa using hlong
  | some buffer => simpa using (Frame.append?_eq_some_iff.1 happend).1

namespace Holds

theorem wellFormed (h : p.Holds start frames) : p.WellFormed where
  offset_le := h.offset_le
  ascending := h.ascending
  last hne := by
    have hframes : frames ≠ [] := by
      rintro rfl
      exact hne h.ends
    rw [h.ends, Frame.getLast?_ends hframes, h.size_eq]

theorem swept (h : p.Holds start frames) (hopen : p.Unfinished) : p.Swept where
  unfinished := hopen
  unsent_eq_zero_iff := h.unsent_eq_zero_iff hopen
  empty hnil := h.empty (List.length_eq_zero_iff.1 (by rw [← h.length_frameEnds, hnil]; rfl))

/-- A call leaves whole frames in the buffer, and after an offer that did not fail the stream lacks
bytes of each of them. -/
theorem call {σ : Type} {x : Serving σ} (h : x.peer.Holds start frames) (net : Net σ) (c : Call) :
    ∃ start' frames', (x.call net c).1.peer.Holds start' frames' ∧
      ((x.call net c).2 = .offered .settled → (x.call net c).1.peer.Unfinished) := by
  cases c with
  | push payload =>
    simp only [Serving.call, Serving.push]
    split
    next => exact ⟨start, frames, h, by simp⟩
    next p hpush => exact ⟨start, _, h.push hpush, by simp⟩
  | flush =>
    obtain ⟨start', frames', hholds, -, hopen⟩ := h.flush net x.link.world
    exact ⟨start', frames', hholds, fun hsettled => hopen (Answer.offered.inj hsettled)⟩

end Holds

end Peer

/-! ## Runs -/

@[simp] theorem LinkState.noteWritten_bytesSent {σ : Type} (s : LinkState σ) (r : Peer.Written σ) :
    (s.noteWritten r).1.metrics.bytesSent = s.metrics.bytesSent + r.bytes := by
  unfold noteWritten
  split <;> rfl

namespace Serving

variable {σ : Type}

theorem conn_call (net : Net σ) (x : Serving σ) (c : Peer.Call) :
    (x.call net c).1.peer.conn = x.peer.conn := by
  cases c with
  | push payload =>
    simp only [call, push]
    split
    next => rfl
    next p hpush =>
      obtain ⟨-, rfl⟩ := Peer.push?_eq hpush
      rfl
  | flush => exact x.peer.conn_flush net x.link.world

/-- Through all calls the buffer of a peer is made of whole frames from some place on. -/
theorem exists_holds_run (net : Net σ) {x : Serving σ} {start : Nat} {frames : List (List UInt8)}
    (h : x.peer.Holds start frames) (calls : List Peer.Call) :
    ∃ start' frames', (x.run net calls).peer.Holds start' frames' := by
  induction calls generalizing x start frames with
  | nil => exact ⟨start, frames, h⟩
  | cons c calls ih =>
    obtain ⟨_, _, hcall, -⟩ := h.call net c
    exact ih hcall

theorem conn_run (net : Net σ) (x : Serving σ) (calls : List Peer.Call) :
    (x.run net calls).peer.conn = x.peer.conn := by
  induction calls generalizing x with
  | nil => rfl
  | cons c calls ih => exact (ih _).trans (conn_call net x c)

/-- The answer tells whether a payload was too long, and then nothing happened. -/
theorem call_eq_tooLong_iff {net : Net σ} {x : Serving σ} {c : Peer.Call} :
    (x.call net c).2 = .tooLong ↔
      ∃ payload, c = .push payload ∧ Frame.maxLength < payload.size := by
  cases c with
  | push payload =>
    cases hpush : x.peer.push? payload with
    | none => simpa [call, push, hpush] using Peer.push?_eq_none_iff.1 hpush
    | some p => simpa [call, push, hpush] using (Peer.push?_eq hpush).1
  | flush => simp [call, flush]

theorem call_of_tooLong {net : Net σ} {x : Serving σ} {c : Peer.Call}
    (h : (x.call net c).2 = .tooLong) : (x.call net c).1 = x := by
  obtain ⟨payload, rfl, hlong⟩ := call_eq_tooLong_iff.1 h
  simp [call, push, Peer.push?_eq_none_iff.2 hlong]

/-- A call counts the bytes that the stream of the peer took in it, also if it failed. They come
next in the buffer. -/
theorem call_recorded (net : Net σ) (x : Serving (Recording σ)) (c : Peer.Call) :
    ∃ bytes, bytes <+: x.peer.buffer.toList.drop x.peer.offset ∧
      (x.call net.recorded c).1.link.world.taken = Function.update x.link.world.taken x.peer.conn
        (x.link.world.taken x.peer.conn ++ bytes) ∧
      (x.call net.recorded c).1.link.metrics.bytesSent =
        x.link.metrics.bytesSent + bytes.length := by
  cases c with
  | push payload =>
    refine ⟨[], List.nil_prefix, ?_⟩
    simp only [call, push]
    split <;> simp
  | flush =>
    obtain ⟨-, htaken⟩ := x.peer.flush_recorded net x.link.world
    have hbytes := (x.peer.flush_eq net.recorded x.link.world).1
    refine ⟨_, List.take_prefix (x.peer.flush net.recorded x.link.world).bytes _, ?_, ?_⟩
    · simpa [call, flush] using htaken
    · simp only [Peer.unsent] at hbytes
      simpa [call, flush] using hbytes

/-- Before and after each call of a run the peer is well-formed. An offer that does not fail leaves
it swept, a payload is refused exactly if it is too long, and that leaves everything as it was. The
link counts the bytes that the stream took, however the call ends. -/
theorem call_of_run (net : Net σ) (conn : Conn) (s : LinkState (Recording σ))
    (calls : List Peer.Call) (c : Peer.Call) :
    let x := run net.recorded ⟨{ conn := conn }, s⟩ calls
    let y := (x.call net.recorded c).1
    let answer := (x.call net.recorded c).2
    x.peer.WellFormed ∧ y.peer.WellFormed ∧
      (answer = .offered .settled → y.peer.Swept) ∧
      (answer = .tooLong ↔ ∃ payload, c = .push payload ∧ Frame.maxLength < payload.size) ∧
      (answer = .tooLong → y = x) ∧
      ∃ bytes, bytes <+: x.peer.buffer.toList.drop x.peer.offset ∧
        y.link.world.taken =
          Function.update x.link.world.taken conn (x.link.world.taken conn ++ bytes) ∧
        y.link.metrics.bytesSent = x.link.metrics.bytesSent + bytes.length := by
  intro x y answer
  obtain ⟨start, frames, hx⟩ := exists_holds_run net.recorded (x := ⟨{ conn := conn }, s⟩)
    (Peer.holds_new conn) calls
  obtain ⟨start', frames', hy, hopen⟩ := hx.call net.recorded c
  have hrecorded := call_recorded net x c
  rw [conn_run net.recorded ⟨{ conn := conn }, s⟩ calls] at hrecorded
  exact ⟨hx.wellFormed, hy.wellFormed, fun hsettled => hy.swept (hopen hsettled),
    call_eq_tooLong_iff, call_of_tooLong, hrecorded⟩

end Serving

end ArmStream
