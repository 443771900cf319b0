import Mathlib.Logic.Relation
import ArmStream.Proofs.Run
import ArmStream.Proofs.Streams

/-!
# The moves of the loop

Whatever the loop of a stream link does in a stage, it does in moves of a few kinds. A move says
all that changes: the network was called, a message was handed over, a peer was offered its bytes,
a peer left, a stream was accepted, or the stream to the remote side got on. A property that each
move keeps is kept by every stage.

While the loop works, its streams are apart from the link, and some peers are doomed: their write
failed and the loop has not parted with them yet.

## Main definitions

- `Net.Quiet`: a call that takes no bytes from the link.
- `Working`, `Move`, `Moves`: the loop at work, one move, and a sequence of moves with the
  messages handed over and the offers made.

## Main statements

- `Move.alive`, `Move.sound`, `Move.queue`: what a move keeps.
- `Moves.sound`: moves keep the peers in order.
- `Moves.induction`: what each move keeps, a sequence keeps.
-/

namespace ArmStream

variable {σ : Type}

/-! ## Calls -/

/-- A call that takes no bytes: any call but a write or the sending of a datagram. -/
inductive Net.Quiet (net : Net σ) : σ → σ → Prop where
  | bind {scheme a w r w'} : net.bind scheme a w = (r, w') → Quiet net w w'
  | connect {a w r w'} : net.connect a w = (r, w') → Quiet net w w'
  | aim {a w r w'} : net.aim a w = (r, w') → Quiet net w w'
  | boundAddress {w r w'} : net.boundAddress w = (r, w') → Quiet net w w'
  | newPoll {w r w'} : net.newPoll w = (r, w') → Quiet net w w'
  | newWaker {w r w'} : net.newWaker w = (r, w') → Quiet net w w'
  | register {socket token w r w'} : net.register socket token w = (r, w') → Quiet net w w'
  | deregister {conn w r w'} : net.deregister conn w = (r, w') → Quiet net w w'
  | wake {w r w'} : net.wake w = (r, w') → Quiet net w w'
  | accept {w r w'} : net.accept w = (r, w') → Quiet net w w'
  | takeError {conn w r w'} : net.takeError conn w = (r, w') → Quiet net w w'
  | peerAddress {conn w r w'} : net.peerAddress conn w = (r, w') → Quiet net w w'
  | setNodelay {conn w r w'} : net.setNodelay conn w = (r, w') → Quiet net w w'
  | read {conn len w r w'} : net.read conn len w = (r, w') → Quiet net w w'
  | receive {len w r w'} : net.receive len w = (r, w') → Quiet net w w'
  | close {w} (conn : Conn) : Quiet net w (net.close conn w)
  | closeAll {w} : Quiet net w (net.closeAll w)

abbrev Net.Quiets (net : Net σ) : σ → σ → Prop := Relation.ReflTransGen net.Quiet

/-! ## Moves -/

structure Working (σ : Type) where
  link : LinkState σ
  streams : Streams
  /-- The peers whose write failed and that are still there. -/
  doomed : List Token

inductive Deed where
  | handed (message : Builder) (recipient : Recipient)
  | offered (offer : Offer)
  deriving DecidableEq, Repr, Inhabited

/-- One move of the loop, with what it does to messages and bytes. Nothing is said of a loop that
a call of the system ended. -/
inductive Move (net : Net σ) : Working σ → List Deed → Working σ → Prop where
  | died {x log y} : y.link.loopDied = true → Move net x log y
  | called {s t d w} : net.Quiet s.world w → Move net ⟨s, t, d⟩ [] ⟨{ s with world := w }, t, d⟩
  | received {s t d} (n : Nat) : Move net ⟨s, t, d⟩ [] ⟨s.countReceived n, t, d⟩
  /-- The streams are put back into the link. -/
  | settled {s t d} : Move net ⟨s, t, d⟩ [] ⟨{ s with carrier := .streams t }, t, d⟩
  | handedOver {s t d b rest k p bytes p' pre post} :
      s.outbox = b :: rest →
      t.turn? b.size s.config.maxPeerBufferBytes = some (k, p) →
      t.peers = pre ++ (k, p) :: post → b.bytes = .ok bytes → p.push? bytes = some p' →
      Move net ⟨s, t, d⟩ [.handed b (.peer k p.conn)]
        ⟨{ s with outbox := rest }.release b,
          { t with lastServed := some k, peers := pre ++ (k, p') :: post }, d⟩
  /-- A message too long for a frame is given up; it takes the peer's turn. -/
  | withheld {s t d b rest k p} :
      s.outbox = b :: rest →
      t.turn? b.size s.config.maxPeerBufferBytes = some (k, p) →
      (∀ bytes, b.bytes = .ok bytes → p.push? bytes = none) →
      Move net ⟨s, t, d⟩ [.handed b .nobody]
        ⟨({ s with outbox := rest }.countDropped 1).release b, { t with lastServed := some k }, d⟩
  | offered {s t d k p pre post} :
      t.peers = pre ++ (k, p) :: post → k ∉ d → (p.flush net s.world).outcome ≠ .died →
      Move net ⟨s, t, d⟩ [.offered (.made p (p.flush net s.world))]
        ⟨(s.noteWritten (p.flush net s.world)).1,
          { t with peers := pre ++ (k, (p.flush net s.world).peer) :: post },
          if (p.flush net s.world).outcome = .settled then d else d ++ [k]⟩
  | parted {s t d k p pre post} (due : Nat) :
      t.peers = pre ++ (k, p) :: post →
      Move net ⟨s, t, d⟩ []
        ⟨s.countDropped p.frameEnds.length,
          { t with
            peers := pre ++ post
            reopenAt := if k = Token.outbound then some due else t.reopenAt
            lastServed := if t.lastServed = some k then none else t.lastServed },
          d.filter (· ≠ k)⟩
  | welcomed {s t d conn w w'} :
      net.accept s.world = (.ok conn, w) → net.Quiets w w' →
      Move net ⟨s, t, d⟩ []
        ⟨{ s with world := w', metrics.peersAccepted := s.metrics.peersAccepted + 1 },
          { t with
            nextToken := t.nextToken + 1
            peers := t.peers ++ [(t.nextToken, { conn := conn })] }, d⟩
  | turnedAway {s t d} : Move net ⟨s, t, d⟩ [] ⟨s, { t with nextToken := t.nextToken + 1 }, d⟩
  | connected {s t d conn} :
      t.connecting = some conn →
      Move net ⟨s, t, d⟩ []
        ⟨s, { t with
          connecting := none, peers := (Token.outbound, { conn := conn }) :: t.peers }, d⟩
  | refused {s t d conn} (due : Nat) :
      t.connecting = some conn →
      Move net ⟨s, t, d⟩ [] ⟨s, { t with connecting := none, reopenAt := some due }, d⟩
  | reopened {s t d due conn w w'} :
      t.reopenAt = some due → net.connect t.remote s.world = (.ok conn, w) → net.Quiets w w' →
      Move net ⟨s, t, d⟩ []
        ⟨{ s with world := w', metrics.reconnects := s.metrics.reconnects + 1 },
          { t with reopenAt := none, connecting := some conn }, d⟩
  | postponed {s t d due w} (due' : Nat) :
      t.reopenAt = some due → net.Quiets s.world w →
      Move net ⟨s, t, d⟩ []
        ⟨{ s with world := w, metrics.reconnects := s.metrics.reconnects + 1 },
          { t with reopenAt := some due' }, d⟩

inductive Moves (net : Net σ) : Working σ → List Deed → Working σ → Prop where
  | refl (x : Working σ) : Moves net x [] x
  | step {x y z : Working σ} {log log' : List Deed} :
      Move net x log y → Moves net y log' z → Moves net x (log ++ log') z

namespace LinkState

@[simp] theorem release_loopDied (s : LinkState σ) (b : Builder) :
    (s.release b).loopDied = s.loopDied := by
  unfold release
  split <;> rfl

@[simp] theorem release_outbox (s : LinkState σ) (b : Builder) :
    (s.release b).outbox = s.outbox := by
  unfold release
  split <;> rfl

@[simp] theorem release_world (s : LinkState σ) (b : Builder) :
    (s.release b).world = s.world := by
  unfold release
  split <;> rfl

@[simp] theorem release_metrics (s : LinkState σ) (b : Builder) :
    (s.release b).metrics = s.metrics := by
  unfold release
  split <;> rfl

@[simp] theorem release_queue (s : LinkState σ) (b : Builder) :
    (s.release b).queue = s.queue := by
  unfold release
  split <;> rfl

@[simp] theorem release_carrier (s : LinkState σ) (b : Builder) :
    (s.release b).carrier = s.carrier := by
  unfold release
  split <;> rfl

@[simp] theorem noteWritten_submitted (s : LinkState σ) (r : Peer.Written σ) :
    (s.noteWritten r).1.metrics.submitted = s.metrics.submitted := by
  unfold noteWritten
  split <;> rfl

@[simp] theorem noteWritten_sent (s : LinkState σ) (r : Peer.Written σ) :
    (s.noteWritten r).1.metrics.sent = s.metrics.sent + r.frames := by
  unfold noteWritten
  split <;> rfl

@[simp] theorem noteWritten_dropped (s : LinkState σ) (r : Peer.Written σ) :
    (s.noteWritten r).1.metrics.dropped = s.metrics.dropped := by
  unfold noteWritten
  split <;> rfl

@[simp] theorem noteWritten_world (s : LinkState σ) (r : Peer.Written σ) :
    (s.noteWritten r).1.world = r.world := by
  unfold noteWritten
  split <;> rfl

@[simp] theorem noteWritten_queue (s : LinkState σ) (r : Peer.Written σ) :
    (s.noteWritten r).1.queue = s.queue := by
  unfold noteWritten
  split <;> rfl

@[simp] theorem noteWritten_outbox (s : LinkState σ) (r : Peer.Written σ) :
    (s.noteWritten r).1.outbox = s.outbox := by
  unfold noteWritten
  split <;> rfl

end LinkState

namespace Move

variable {net : Net σ} {x y : Working σ} {log : List Deed}

/-- A loop that is alive after a move was so before. -/
theorem alive (h : Move net x log y) (hy : y.link.loopDied = false) : x.link.loopDied = false := by
  cases h with
  | died hdied => simp [hdied] at hy
  | offered _ _ _ =>
    unfold LinkState.noteWritten at hy
    split at hy <;> simp_all [LinkState.countSent, LinkState.countSendError]
  | handedOver | withheld => simpa [LinkState.countDropped] using hy
  | _ => exact hy

theorem sound (h : Move net x log y) (hy : y.link.loopDied = false) (hx : x.streams.Sound) :
    y.streams.Sound := by
  cases h with
  | died hdied => simp [hdied] at hy
  | handedOver _ _ hpeers _ _ =>
    exact (hx.replace hpeers _).serve (by simp [Streams.tokens])
  | withheld _ hturn _ =>
    obtain ⟨pre, post, hpeers⟩ := Streams.exists_split_of_turn? hturn
    exact hx.serve (by simp [Streams.tokens, hpeers])
  | offered hpeers _ _ => exact hx.replace hpeers _
  | parted due hpeers => exact hx.erase hpeers due
  | welcomed _ _ => exact hx.welcome _
  | turnedAway => exact hx.turnAway
  | connected hconn => exact hx.connect hconn _
  | refused due hconn => exact hx.refuse hconn due
  | reopened hdue _ _ => exact hx.reopen hdue _
  | postponed due' hdue _ => exact hx.postpone hdue due'
  | _ => exact hx

/-- The loop neither fills nor empties the queue while it works. -/
theorem queue (h : Move net x log y) (hy : y.link.loopDied = false) :
    y.link.queue = x.link.queue ∧ y.link.metrics.submitted = x.link.metrics.submitted := by
  cases h with
  | died hdied => simp [hdied] at hy
  | handedOver => simp
  | withheld => simp [LinkState.countDropped]
  | offered => simp
  | _ => exact ⟨rfl, rfl⟩

end Move

namespace Moves

variable {net : Net σ} {x y z : Working σ} {log log' : List Deed}

theorem single (h : Move net x log y) : Moves net x log y := by
  simpa using Moves.step h (.refl y)

theorem trans (h : Moves net x log y) (h' : Moves net y log' z) : Moves net x (log ++ log') z := by
  induction h with
  | refl => exact h'
  | step hmove _ ih => simpa using Moves.step hmove (ih h')

theorem died (h : y.link.loopDied = true) : Moves net x log y := single (.died h)

theorem alive (h : Moves net x log y) (hy : y.link.loopDied = false) :
    x.link.loopDied = false := by
  induction h with
  | refl => exact hy
  | step hmove _ ih => exact hmove.alive (ih hy)

theorem sound (h : Moves net x log y) (hy : y.link.loopDied = false) (hx : x.streams.Sound) :
    y.streams.Sound := by
  induction h with
  | refl => exact hx
  | step hmove hmoves ih => exact ih hy (hmove.sound (hmoves.alive hy) hx)

theorem queue (h : Moves net x log y) (hy : y.link.loopDied = false) :
    y.link.queue = x.link.queue ∧ y.link.metrics.submitted = x.link.metrics.submitted := by
  induction h with
  | refl => exact ⟨rfl, rfl⟩
  | step hmove hmoves ih =>
    obtain ⟨hqueue, hsubmitted⟩ := ih hy
    obtain ⟨hqueue', hsubmitted'⟩ := hmove.queue (hmoves.alive hy)
    exact ⟨hqueue.trans hqueue', hsubmitted.trans hsubmitted'⟩

/-- What holds of the deeds so far and is kept by each move, is kept by a sequence of moves. -/
theorem induction {P : List Deed → Working σ → Prop}
    (hstep : ∀ {done log x y}, Move net x log y → y.link.loopDied = false → P done x →
      P (done ++ log) y)
    (h : Moves net x log y) (hy : y.link.loopDied = false) (done : List Deed) (hx : P done x) :
    P (done ++ log) y := by
  induction h generalizing done with
  | refl => simpa using hx
  | step hmove hmoves ih => simpa using ih hy _ (hstep hmove (hmoves.alive hy) hx)

theorem calls {s : LinkState σ} {t : Streams} {d : List Token} {w : σ}
    (h : net.Quiets s.world w) : Moves net ⟨s, t, d⟩ [] ⟨{ s with world := w }, t, d⟩ := by
  induction h with
  | refl => exact .refl _
  | tail _ hcall ih => exact ih.trans (single (.called hcall))

end Moves

end ArmStream
