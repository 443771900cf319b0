import Mathlib
import ArmStream.Proofs.Peers
import ArmStream.Proofs.Steps

/-!
# No message is lost uncounted

Each message that the queue took or refused is in one place: it was sent, or dropped, or it waits
in the queue, in the outbox or in the buffer of a peer. Each transition moves messages between
these places and counts them exactly once.

## Main definitions

- `LinkState.backlog`: the messages that wait.
- `System.Balanced`: the equation between the counters and the backlog.

## Main statements

- `Move.counted`, `Sends.counted`: what the loop does moves messages and loses none.
- `Reachable.messages_conserved`: the equation holds in each reachable system.
- `Reachable.inFlight_exact_iff`: what the counters report as in flight.
-/

namespace ArmStream

variable {σ : Type} {net : Net σ}

/-- The messages in the buffers of the peers that were not sent completely. -/
def Streams.unsentFrames (t : Streams) : Nat :=
  (t.peers.map fun (_, p) => p.frameEnds.length).sum

def Carrier.unsentFrames : Carrier → Nat
  | .streams t => t.unsentFrames
  | .datagrams => 0

namespace LinkState

theorem unsentFrames_eq (s : LinkState σ) : s.unsentFrames = s.carrier.unsentFrames := by
  unfold unsentFrames
  split
  next hcarrier =>
    rw [hcarrier, Carrier.unsentFrames, Streams.unsentFrames, List.sum_eq_foldr, List.foldr_map]
  next hcarrier => rw [hcarrier, Carrier.unsentFrames]

def backlog (s : LinkState σ) : Nat := s.queue.length + s.outbox.length + s.unsentFrames

end LinkState

/-! ## The loop -/

def Working.counted (x : Working σ) : Nat :=
  x.link.metrics.sent + x.link.metrics.dropped + x.link.outbox.length + x.streams.unsentFrames

namespace Move

variable {x y : Working σ} {log : List Deed}

/-- A move takes messages from one place to another. -/
theorem counted (h : Move net x log y) (hy : y.link.loopDied = false) : y.counted = x.counted := by
  cases h with
  | died hdied => simp [hdied] at hy
  | handedOver houtbox _ hpeers _ hpush =>
    obtain ⟨-, rfl⟩ := Peer.push?_eq hpush
    simp only [Working.counted, Streams.unsentFrames, LinkState.release_metrics,
      LinkState.release_outbox, houtbox, hpeers, List.map_append, List.map_cons, List.sum_append,
      List.sum_cons, List.length_append, List.length_cons, List.length_nil]
    omega
  | withheld houtbox _ _ =>
    simp only [Working.counted, Streams.unsentFrames, LinkState.countDropped,
      LinkState.release_metrics, LinkState.release_outbox, houtbox, List.length_cons]
    omega
  | @offered s t d k p pre post hpeers _ _ =>
    have hframes := p.length_flush net s.world
    simp only [Working.counted, Streams.unsentFrames, LinkState.noteWritten_sent,
      LinkState.noteWritten_dropped, LinkState.noteWritten_outbox, hpeers, List.map_append,
      List.map_cons, List.sum_append, List.sum_cons]
    omega
  | parted due hpeers =>
    simp only [Working.counted, Streams.unsentFrames, LinkState.countDropped, hpeers,
      List.map_append, List.map_cons, List.sum_append, List.sum_cons]
    omega
  | welcomed => simp [Working.counted, Streams.unsentFrames]
  | connected => simp [Working.counted, Streams.unsentFrames]
  | _ => rfl

end Move

theorem Moves.counted {x y : Working σ} {log : List Deed} (h : Moves net x log y)
    (hy : y.link.loopDied = false) : y.counted = x.counted := by
  induction h with
  | refl => rfl
  | step hmove hmoves ih => exact (ih hy).trans (hmove.counted (hmoves.alive hy))

/-- Each datagram that leaves the outbox is counted. -/
theorem Sends.counted {s s' : LinkState σ} {log : List Recipient} (h : Sends net s log s')
    (hlive : s'.loopDied = false) :
    s'.queue = s.queue ∧ s'.metrics.submitted = s.metrics.submitted ∧
      s'.metrics.sent + s'.metrics.dropped + s'.outbox.length =
        s.metrics.sent + s.metrics.dropped + s.outbox.length := by
  induction h with
  | refl => exact ⟨rfl, rfl, rfl⟩
  | died hdied => simp [hdied] at hlive
  | waited _ _ ih => exact ih hlive
  | sent houtbox _ _ _ ih =>
    obtain ⟨hqueue, hsubmitted, hcounted⟩ := ih hlive
    simp only [LinkState.countSent, LinkState.release_queue, LinkState.release_metrics,
      LinkState.release_outbox] at hqueue hsubmitted hcounted
    rw [houtbox, List.length_cons]
    exact ⟨hqueue, hsubmitted, by omega⟩
  | failed houtbox _ _ _ ih =>
    obtain ⟨hqueue, hsubmitted, hcounted⟩ := ih hlive
    simp only [LinkState.countDropped, LinkState.countSendError, LinkState.release_queue,
      LinkState.release_metrics, LinkState.release_outbox] at hqueue hsubmitted hcounted
    rw [houtbox, List.length_cons]
    exact ⟨hqueue, hsubmitted, by omega⟩
  | withheld houtbox _ _ ih =>
    obtain ⟨hqueue, hsubmitted, hcounted⟩ := ih hlive
    simp only [LinkState.countDropped, LinkState.release_queue, LinkState.release_metrics,
      LinkState.release_outbox] at hqueue hsubmitted hcounted
    rw [houtbox, List.length_cons]
    exact ⟨hqueue, hsubmitted, by omega⟩

/-! ## Systems -/

/-- Each message that was submitted or refused is in one place. -/
structure System.Balanced (y : System σ) : Prop where
  live : y.stage.isLive = true →
    y.link.metrics.submitted + y.history.refused =
      y.link.metrics.sent + y.link.metrics.dropped + y.link.backlog
  ended : y.stage = .ended →
    y.link.metrics.submitted + y.history.refused = y.link.metrics.sent + y.link.metrics.dropped

theorem History.refused_foldl_record (h : History) (log : List Deed) :
    (log.foldl record h).refused = h.refused := by
  induction log generalizing h with
  | nil => rfl
  | cons deed log ih =>
    rw [List.foldl_cons, ih]
    cases deed <;> rfl

namespace System.Balanced

variable {y y' : System σ}

/-- A stage of a loop that goes on has to keep the equation only. -/
theorem of_live {s : LinkState σ} {h : History} {next : Stage} (hnext : next.isLive = true)
    (heq : s.metrics.submitted + h.refused = s.metrics.sent + s.metrics.dropped + s.backlog) :
    System.Balanced { link := s, stage := next, history := h } where
  live _ := heq
  ended hend := by
    obtain rfl : next = .ended := hend
    simp [Stage.isLive] at hnext

theorem transition (hy : y.Sound) (hbalanced : y.Balanced) (h : Transition net y y') :
    y'.Balanced := by
  cases h with
  | passed hlive hnext => exact of_live hnext (hbalanced.live hlive)
  | aside => exact ⟨hbalanced.live, hbalanced.ended⟩
  | submitted _ hstopped =>
    -- a loop that gave up its messages was stopped, and then none is accepted
    refine ⟨fun hlive => ?_, fun hend => by simp [hy.stopped hend] at hstopped⟩
    have heq := hbalanced.live hlive
    simp only [LinkState.backlog, LinkState.unsentFrames_eq] at heq
    simp only [LinkState.backlog, LinkState.unsentFrames_eq, LinkState.queued,
      LinkState.countSubmitted, History.submit, List.length_append, List.length_singleton]
    omega
  | refused _ hstopped =>
    refine ⟨fun hlive => ?_, fun hend => by simp [hy.stopped hend] at hstopped⟩
    have heq := hbalanced.live hlive
    simp only [LinkState.backlog, LinkState.unsentFrames_eq] at heq
    simp only [LinkState.backlog, LinkState.unsentFrames_eq, LinkState.countDropped,
      History.submit]
    omega
  | took hlive hnext =>
    have heq := hbalanced.live hlive
    refine of_live hnext ?_
    simp only [LinkState.backlog, LinkState.unsentFrames_eq] at heq
    simp only [LinkState.backlog, LinkState.unsentFrames_eq, History.take, List.length_append,
      List.length_take, List.length_nil]
    omega
  | worked hlive hnext halive ht ht' hmoves =>
    have heq := hbalanced.live hlive
    obtain ⟨hqueue, hsubmitted⟩ := hmoves.queue halive
    have hcounted := hmoves.counted halive
    refine of_live hnext ?_
    simp only [Working.counted] at hqueue hsubmitted hcounted
    simp only [LinkState.backlog, LinkState.unsentFrames_eq, ht, Carrier.unsentFrames] at heq
    simp only [LinkState.backlog, LinkState.unsentFrames_eq, ht', Carrier.unsentFrames,
      History.refused_foldl_record, hqueue, hsubmitted]
    omega
  | sent hlive hnext halive hcarrier hsends =>
    have heq := hbalanced.live hlive
    obtain ⟨hqueue, hsubmitted, hcounted⟩ := hsends.counted halive
    refine of_live hnext ?_
    simp only [LinkState.backlog, LinkState.unsentFrames_eq] at heq
    simp only [LinkState.backlog, LinkState.unsentFrames_eq, hsends.carrier halive, hqueue,
      hsubmitted, History.depart]
    omega
  | heard n hlive hnext => exact of_live hnext (hbalanced.live hlive)
  | left hlive =>
    have heq := hbalanced.live hlive
    -- what waited is counted as dropped from here on
    obtain ⟨pool, hleave⟩ := y.link.leave_eq net
    refine ⟨by simp [Stage.isLive], fun _ => ?_⟩
    simp only [LinkState.backlog] at heq
    simp only [hleave, History.giveUp]
    omega
  | died => exact ⟨by simp [Stage.isLive], by simp⟩

end System.Balanced

namespace Reachable

variable {w₀ : σ} {y : System σ}

theorem balanced (h : Reachable net w₀ y) : y.Balanced := by
  refine induction ?_ ?_ h
  · intro s hfresh
    cases hfresh <;>
      exact .of_live rfl (by simp [LinkState.backlog, LinkState.unsentFrames])
  · intro y y' hy hbalanced hstep
    exact hbalanced.transition hy.sound hstep

/-- Every message that the queue took or refused was sent, was dropped, or waits in the queue, in
the outbox or with a peer. After the end of the loop none waits. -/
theorem messages_conserved (h : Reachable net w₀ y) :
    (y.stage.isLive = true →
      y.link.metrics.submitted + y.history.refused =
        y.link.metrics.sent + y.link.metrics.dropped + y.link.queue.length + y.link.outbox.length +
          y.link.unsentFrames) ∧
    (y.stage = .ended →
      y.link.metrics.submitted + y.history.refused =
        y.link.metrics.sent + y.link.metrics.dropped) := by
  refine ⟨fun hlive => ?_, h.balanced.ended⟩
  have heq := h.balanced.live hlive
  simp only [LinkState.backlog] at heq
  omega

/-- Of four messages one is refused, one is given up above the high-water mark and one is sent in
part. Another is submitted, and when the loop ends nothing is left. -/
theorem messages_conserved_of_run :
    (∃ y : System (List (Reply Nat)), Reachable Net.scripted [.ok 5] y ∧ y.stage.isLive = true ∧
      y.history.refused = 1 ∧ y.link.backlog = 3 ∧
      y.link.metrics.submitted + y.history.refused =
        y.link.metrics.sent + y.link.metrics.dropped + y.link.queue.length + y.link.outbox.length +
          y.link.unsentFrames) ∧
    ∃ y : System (List (Reply Nat)), Reachable Net.scripted [.ok 5] y ∧ y.stage = .ended ∧
      y.link.metrics.dropped = 5 ∧
      y.link.metrics.submitted + y.history.refused =
        y.link.metrics.sent + y.link.metrics.dropped := by
  constructor
  · obtain ⟨y, hreach, hy⟩ := exists_of_run Net.scripted [.ok 5]
      "tcp://127.0.0.1:0" "tcp://10.9.8.7:30010"
      { queueCapacity := 3, pendingHighWaterMark := 2, maxPeerBufferBytes := 0 }
      (Action.firstRound ++ List.replicate 4 (.submit .bare) ++ List.replicate 3 .proceed ++
        [.submit .bare])
      (fun y => y.stage.isLive && y.history.refused == 1 && y.link.backlog == 3) (by cbv)
    simp only [Bool.and_eq_true, beq_iff_eq] at hy
    obtain ⟨⟨hlive, hrefused⟩, hbacklog⟩ := hy
    exact ⟨y, hreach, hlive, hrefused, hbacklog, hreach.messages_conserved.1 hlive⟩
  · obtain ⟨y, hreach, hy⟩ := exists_of_run Net.scripted [.ok 5]
      "tcp://127.0.0.1:0" "tcp://10.9.8.7:30010"
      { queueCapacity := 3, pendingHighWaterMark := 2, maxPeerBufferBytes := 0 }
      (Action.firstRound ++ List.replicate 4 (.submit .bare) ++ List.replicate 3 .proceed ++
        [.submit .bare, .stop, .proceed, .wake (.ok []), .proceed, .proceed, .proceed, .proceed])
      (fun y => y.stage == .ended && y.link.metrics.dropped == 5) (by cbv)
    simp only [Bool.and_eq_true, beq_iff_eq] at hy
    exact ⟨y, hreach, hy.1, hy.2, hreach.messages_conserved.2 hy.1⟩

/-! ## Messages in flight -/

/-- Refused messages count as dropped, although they were never submitted. So the messages in
flight are those that wait, less those that were refused, and the two agree only if none was
refused or none waits. -/
theorem inFlight_exact_iff (h : Reachable net w₀ y) (hlive : y.stage.isLive = true) :
    y.link.metrics.inFlight = y.link.backlog - y.history.refused ∧
    (y.link.metrics.inFlight = y.link.backlog ↔ y.history.refused = 0 ∨ y.link.backlog = 0) := by
  have heq := h.balanced.live hlive
  simp only [LinkMetrics.inFlight]
  omega

/-- A message is in flight and none was refused. -/
theorem inFlight_exact_iff_of_run :
    ∃ y : System (List (Reply Nat)), Reachable Net.scripted [] y ∧ y.stage.isLive = true ∧
      y.history.refused = 0 ∧ y.link.backlog = 1 ∧ y.link.metrics.inFlight = y.link.backlog := by
  obtain ⟨y, hreach, hy⟩ := exists_of_run Net.scripted []
    "tcp://127.0.0.1:0" "tcp://10.9.8.7:30010" {} [.guard, .submit .bare]
    (fun y => y.stage.isLive && y.history.refused == 0 && y.link.backlog == 1) (by cbv)
  simp only [Bool.and_eq_true, beq_iff_eq] at hy
  obtain ⟨⟨hlive, hrefused⟩, hbacklog⟩ := hy
  exact ⟨y, hreach, hlive, hrefused, hbacklog,
    (hreach.inFlight_exact_iff hlive).2.2 (.inl hrefused)⟩

/-- One message waits in a queue with room for one and the next was refused. None is reported as
in flight. -/
theorem inFlight_zero_of_refused :
    ∃ y : System (List (Reply Nat)), Reachable Net.scripted [] y ∧ y.stage.isLive = true ∧
      y.link.backlog = 1 ∧ y.link.metrics.inFlight = 0 := by
  obtain ⟨y, hreach, hy⟩ := exists_of_run Net.scripted []
    "tcp://127.0.0.1:0" "tcp://10.9.8.7:30010" { queueCapacity := 1 }
    [.guard, .submit .bare, .submit .bare]
    (fun y => y.stage.isLive && y.link.backlog == 1 && y.link.metrics.inFlight == 0) (by cbv)
  simp only [Bool.and_eq_true, beq_iff_eq] at hy
  obtain ⟨⟨hlive, hbacklog⟩, hflight⟩ := hy
  exact ⟨y, hreach, hlive, hbacklog, hflight⟩

end Reachable

end ArmStream
