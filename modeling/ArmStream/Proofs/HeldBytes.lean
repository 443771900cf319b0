import Mathlib
import ArmStream.Proofs.Leftovers
import ArmStream.Proofs.SendAccounting

/-!
# How much the buffers of peers hold

Bytes that a stream took stay in the buffer of its peer until the stream took all that is there. A
peer may get another message before that, if its unsent bytes leave room for it. So a stream that
always lacks one byte makes its peer's buffer grow as long as it is connected, however small the
limit for unsent bytes is. Only if the limit is so small that no message fits behind an unsent byte
does each frame get a buffer of its own.

## Main definitions

- `System.heldBytes`: how many bytes the buffers of the peers hold.
- `HeldWithin`: a bound on these in all runs.
- `Net.lagging`: a network on which each stream lacks a byte.

## Main statements

- `Reachable.compact`: where no message fits behind an unsent byte, a buffer holds one frame.
- `Lagging.grow`: on the lagging network each round adds a frame to the buffer.
- `heldWithin_iff`: the two cases.
-/

namespace ArmStream

variable {σ : Type} {net : Net σ}

/-- How many bytes the buffers of the peers hold, taken by their streams or not; while the loop
hands on, also with the messages that it hands over. -/
def System.heldBytes (y : System σ) : List Nat :=
  match y.link.carrier with
  | .streams t =>
    (t.peers ++ if y.stage = .handing then (y.link.loaded t).peers else []).map
      fun (_, p) => p.buffer.size
  | .datagrams => []

/-- In no run of a link whose peers may have `limit` bytes unsent, and whose frames are at most
`frame` bytes long, the buffer of a peer ever holds more than `bound` bytes. -/
def HeldWithin (limit frame bound : Nat) : Prop :=
  ∀ {σ : Type} (net : Net σ) (w₀ : σ) (y : System σ), Reachable net w₀ y →
    y.link.config.maxPeerBufferBytes = limit →
    (∀ b ∈ y.history.accepted,
      (∃ fields, b.Built fields) ∧ Frame.headerLength + b.size ≤ frame) →
    y.stage ≠ .died → ∀ n ∈ y.heldBytes, n ≤ bound

/-! ## One frame at a time -/

/-- No message fits behind an unsent byte: the limit is too small, or there are no messages. -/
def Cramped (limit frame : Nat) : Prop :=
  limit ≤ Frame.headerLength + headerLength ∨ frame < Frame.headerLength + headerLength

instance (limit frame : Nat) : Decidable (Cramped limit frame) :=
  inferInstanceAs (Decidable (_ ∨ _))

/-- The length of a message that fits a frame of `frame` bytes. -/
def Framed (len frame : Nat) : Prop := headerLength ≤ len ∧ Frame.headerLength + len ≤ frame

theorem Builder.Built.framed {b : Builder} {fields : List Field} {frame : Nat}
    (h : b.Built fields) (hframe : Frame.headerLength + b.size ≤ frame) : Framed b.size frame :=
  ⟨h.holds.header_le, hframe⟩

namespace Peer

variable {p p' : Peer} {limit frame : Nat}

/-- Where no message fits behind an unsent byte, one is only pushed to an empty buffer. -/
theorem size_push (h : p.Bounded limit) (hcramped : Cramped limit frame) {payload : Bytes}
    (hlen : Framed payload.size frame) (hfits : p.fits payload.size limit = true)
    (hpush : p.push? payload = some p') : p'.buffer.size ≤ frame := by
  obtain ⟨hheader, hframe⟩ := hlen
  obtain ⟨start, frames, hholds⟩ := h.holds
  have hnone : p.unsent = 0 := by
    simp only [fits, Bool.or_eq_true, beq_iff_eq, decide_eq_true_eq] at hfits
    simp only [Cramped] at hcramped
    omega
  have hends := (hholds.unsent_eq_zero_iff h.unfinished).1 hnone
  have hframes : frames = [] := by
    rw [← List.length_eq_zero_iff, ← hholds.length_frameEnds, hends, List.length_nil]
  obtain ⟨-, rfl⟩ := push?_eq hpush
  simpa [(hholds.empty hframes).1] using hframe

/-- An offer adds nothing to the buffer. -/
theorem size_flush_le (net : Net σ) (p : Peer) (w : σ) :
    (p.flush net w).peer.buffer.size ≤ p.buffer.size := by
  obtain ⟨-, ⟨-, hpeer, -⟩ | ⟨-, hpeer, -⟩⟩ := p.flush_eq net w
  · rw [hpeer, settle]
    split <;> simp [took]
  · rw [hpeer, took]

end Peer

structure Working.Compact (x : Working σ) (frame : Nat) : Prop where
  outbox : ∀ b ∈ x.link.outbox, Framed b.size frame
  peers : ∀ entry ∈ x.streams.peers, entry.1 ∉ x.doomed → entry.2.buffer.size ≤ frame

theorem Move.compact {x y : Working σ} {log : List Deed} {c : LinkConfig} {frame : Nat}
    (h : Move net x log y) (hy : y.link.loopDied = false) (hlimited : x.Limited c)
    (hcramped : Cramped c.maxPeerBufferBytes frame) (hx : x.Compact frame) : y.Compact frame := by
  obtain ⟨houtbox, hpeers⟩ := hx
  cases h with
  | died hdied => simp [hdied] at hy
  | @handedOver s t d b rest k p bytes p' pre post hhead hturn hsplit hbytes hpush =>
    have hrest : ∀ b' ∈ rest, Framed b'.size frame :=
      fun b' hb' => houtbox b' (by simp [hhead, hb'])
    refine ⟨by simpa using hrest, fun entry hentry hfree => ?_⟩
    rcases List.mem_append.1 hentry with hpre | hpost
    · exact hpeers entry (by simp [hsplit, hpre]) hfree
    · rcases List.mem_cons.1 hpost with rfl | hpost
      -- the peer that got the message
      · have hbounded := hlimited.peers (k, p) (by simp [hsplit]) hfree
        have hfits := Streams.fits_of_turn? hturn
        have hlen := houtbox b (by simp [hhead])
        rw [hlimited.config, ← Builder.size_of_bytes hbytes] at hfits
        rw [← Builder.size_of_bytes hbytes] at hlen
        exact Peer.size_push hbounded hcramped hlen hfits hpush
      · exact hpeers entry (by simp [hsplit, hpost]) hfree
  | withheld hhead =>
    refine ⟨fun b' hb' => houtbox b' ?_, hpeers⟩
    simp only [LinkState.release_outbox, LinkState.countDropped] at hb'
    simp [hhead, hb']
  | @offered s t d k p pre post hsplit =>
    refine ⟨by simpa using houtbox, fun entry hentry hfree => ?_⟩
    have hfree' : entry.1 ∉ d := by
      revert hfree
      split
      · exact id
      · exact fun hfree hmem => hfree (List.mem_append_left _ hmem)
    rcases List.mem_append.1 hentry with hpre | hpost
    · exact hpeers entry (by simp [hsplit, hpre]) hfree'
    · rcases List.mem_cons.1 hpost with rfl | hpost
      · exact Nat.le_trans (Peer.size_flush_le net p s.world)
          (hpeers (k, p) (by simp [hsplit]) hfree')
      · exact hpeers entry (by simp [hsplit, hpost]) hfree'
  | @parted s t d k p pre post due hsplit =>
    refine ⟨houtbox, fun entry hentry hfree => ?_⟩
    have hmem : entry ∈ t.peers := by
      rw [hsplit]
      rcases List.mem_append.1 hentry with hpre | hpost
      · simp [hpre]
      · simp [hpost]
    have hother : entry.1 ≠ k := hlimited.sound.ne_of_split hsplit entry hentry
    exact hpeers entry hmem fun hdoomed => hfree (by simp [hdoomed, hother])
  | welcomed =>
    refine ⟨houtbox, fun entry hentry hfree => ?_⟩
    rcases List.mem_append.1 hentry with hold | hnew
    · exact hpeers entry hold hfree
    · obtain rfl := List.mem_singleton.1 hnew
      exact Nat.zero_le _
  | connected =>
    refine ⟨houtbox, fun entry hentry hfree => ?_⟩
    rcases List.mem_cons.1 hentry with rfl | hold
    · exact Nat.zero_le _
    · exact hpeers entry hold hfree
  | _ => exact ⟨houtbox, hpeers⟩

theorem Moves.compact {x y : Working σ} {log : List Deed} {c : LinkConfig} {frame : Nat}
    (h : Moves net x log y) (hy : y.link.loopDied = false) (hlimited : x.Limited c)
    (hcramped : Cramped c.maxPeerBufferBytes frame) (hx : x.Compact frame) : y.Compact frame :=
  (h.induction (P := fun _ x => x.Limited c ∧ x.Compact frame)
    (fun hmove hy hx => ⟨hmove.limited hy hx.1, hmove.compact hy hx.1 hcramped hx.2⟩)
    hy [] ⟨hlimited, hx⟩).2

/-- The queue forgets no message that it accepted. -/
theorem Transition.accepted_subset {y y' : System σ} (h : Transition net y y')
    (hlive : y'.stage ≠ .died) : y.history.accepted ⊆ y'.history.accepted := by
  cases h with
  | submitted => exact List.subset_append_left _ _
  | worked => rw [History.accepted_foldl_record]; exact List.Subset.refl _
  | died => exact absurd rfl hlive
  | _ => exact List.Subset.refl _

def System.Compact (y : System σ) (frame : Nat) : Prop :=
  ∀ t, y.link.carrier = .streams t → ∀ entry ∈ t.peers, entry.2.buffer.size ≤ frame

namespace System

variable {y : System σ} {c : LinkConfig} {frame : Nat} {t : Streams}

theorem Limited.working (h : y.Limited c) (hs : y.Sound) (hlive : y.stage.isLive = true)
    (ht : y.link.carrier = .streams t) : Working.Limited ⟨y.link, t, []⟩ c :=
  ⟨h.config, hs.streams hlive t ht, h.outbox, fun entry hentry _ => h.peers t ht entry hentry⟩

theorem Compact.working (h : y.Compact frame) (ht : y.link.carrier = .streams t)
    (hmessages : ∀ b ∈ y.link.outbox, Framed b.size frame) :
    Working.Compact ⟨y.link, t, []⟩ frame :=
  ⟨hmessages, fun entry hentry _ => h t ht entry hentry⟩

end System

theorem Transition.compact {y y' : System σ} {c : LinkConfig} {frame : Nat}
    (h : Transition net y y') (hs : y.Sound) (hlimited : y.Limited c)
    (hcramped : Cramped c.maxPeerBufferBytes frame)
    (hmessages : ∀ b ∈ y.link.outbox, Framed b.size frame) (hy : y.Compact frame)
    (hlive : y'.stage ≠ .died) : y'.Compact frame := by
  cases h with
  | worked hl _ halive ht ht' hmoves =>
    have hwork := hmoves.compact halive (hlimited.working hs hl ht) hcramped
      (hy.working ht hmessages)
    intro t ht'' entry hentry
    obtain rfl := Carrier.streams.inj (ht'.symm.trans ht'')
    exact hwork.peers entry hentry (by simp)
  | sent _ _ halive hcarrier hsends =>
    exact fun t ht => absurd ht (hsends.carrier_ne halive hcarrier t)
  | left =>
    obtain ⟨pool, hleave⟩ := y.link.leave_eq net
    rw [hleave]
    exact hy
  | died => exact absurd rfl hlive
  | _ => exact hy

namespace Reachable

variable {w₀ : σ} {y : System σ} {limit frame : Nat}

theorem framed_outbox (h : Reachable net w₀ y) (hlive : y.stage ≠ .died)
    (haccepted : ∀ b ∈ y.history.accepted, Framed b.size frame) :
    ∀ b ∈ y.link.outbox, Framed b.size frame := by
  have hordered := h.ordered hlive
  intro b hb
  rw [hordered.outbox] at hb
  obtain ⟨m, hm, rfl⟩ := List.mem_map.1 hb
  exact haccepted _ (History.message_mem (hordered.bounded m (by simp [History.line, hm])))

/-- Where no message fits behind an unsent byte, a buffer holds at most one frame. -/
theorem compact (h : Reachable net w₀ y)
    (hcramped : Cramped y.link.config.maxPeerBufferBytes frame) (hlive : y.stage ≠ .died)
    (haccepted : ∀ b ∈ y.history.accepted, Framed b.size frame) : y.Compact frame := by
  induction h with
  | opened hopened =>
    obtain ⟨s, hfresh, rfl⟩ := LinkState.exists_fresh hopened
    cases hfresh <;> simp +contextual [System.Compact]
  | @step y a h ih =>
    have htransition : Transition net y (y.step net a) := System.transition_step h.sound a
    rw [System.config_step] at hcramped
    have hlive₀ : y.stage ≠ .died := fun hdied => hlive (htransition.died_of_died hdied)
    have haccepted₀ : ∀ b ∈ y.history.accepted, Framed b.size frame :=
      fun b hb => haccepted b (htransition.accepted_subset hlive hb)
    exact htransition.compact h.sound (h.limited hlive₀) hcramped
      (h.framed_outbox hlive₀ haccepted₀) (ih hcramped hlive₀ haccepted₀) hlive

/-- The same holds while the loop hands messages over. -/
theorem compact_loaded (h : Reachable net w₀ y)
    (hcramped : Cramped y.link.config.maxPeerBufferBytes frame) (hstage : y.stage = .handing)
    (haccepted : ∀ b ∈ y.history.accepted, Framed b.size frame) {t : Streams}
    (ht : y.link.carrier = .streams t) :
    ∀ entry ∈ (y.link.loaded t).peers, entry.2.buffer.size ≤ frame := by
  have hlive : y.stage.isLive = true := by simp [hstage, Stage.isLive]
  have hdied := Stage.ne_died hlive
  have hlimited := (h.limited hdied).working h.sound hlive ht
  have hcompact :=
    (h.compact hcramped hdied haccepted).working ht (h.framed_outbox hdied haccepted)
  obtain ⟨halive, hmoves⟩ := Moves.handOverAll net (d := []) y.link.outbox.length
    hlimited.sound (h.sound.alive hlive)
  exact fun entry hentry =>
    (hmoves.compact halive hlimited hcramped hcompact).peers entry hentry (by simp)

end Reachable

theorem heldWithin_of_cramped {limit frame : Nat} (h : Cramped limit frame) :
    HeldWithin limit frame frame := by
  rintro σ net w₀ y hreach rfl haccepted hlive n hn
  have hframed : ∀ b ∈ y.history.accepted, Framed b.size frame := fun b hb =>
    have ⟨⟨_, hbuilt⟩, hframe⟩ := haccepted b hb
    hbuilt.framed hframe
  unfold System.heldBytes at hn
  split at hn
  next t ht =>
    obtain ⟨entry, hentry, rfl⟩ := List.mem_map.1 hn
    rcases List.mem_append.1 hentry with hpeer | hloaded
    · exact hreach.compact h hlive hframed t ht entry hpeer
    · split at hloaded
      next hstage => exact hreach.compact_loaded h hstage hframed ht entry hloaded
      next => simp at hloaded
  next => simp at hn

/-! ## A stream that lacks a byte -/

/-- A network on which streams take all that they are offered but the last byte, and that one
together with what follows. -/
def Net.lagging : Net (List (Reply Nat)) :=
  { Net.scripted with
    write := fun _ buffer offset w =>
      if offset + 1 < buffer.size then (.ok (buffer.size - offset - 1), w)
      else (.fail .wouldBlock, w) }

theorem Streams.turn?_singleton {t : Streams} {k : Token} {p : Peer} (ht : t.peers = [(k, p)])
    {len limit : Nat} (hfits : p.fits len limit = true) : t.turn? len limit = some (k, p) := by
  cases hlast : t.lastServed with
  | none => simp [turn?, hlast, ht, hfits]
  | some last => by_cases hafter : last < k <;> simp [turn?, hlast, ht, hfits, hafter]

namespace Peer

/-- The stream takes all but the last byte, and nothing leaves the buffer. -/
theorem flush_lagging {p : Peer} (w : List (Reply Nat)) (h : p.offset + 1 < p.buffer.size) :
    ∃ ends frames, p.flush Net.lagging w =
      ⟨{ p with offset := p.buffer.size - 1, frameEnds := ends }, w, p.unsent - 1, frames,
        .settled⟩ := by
  obtain ⟨n, hn⟩ : ∃ n, p.buffer.size - p.offset - 1 = n + 1 :=
    ⟨p.buffer.size - p.offset - 2, by omega⟩
  have hmin : min (n + 1) p.unsent = n + 1 := by
    simp only [unsent]
    omega
  have hunsent : p.unsent - 1 = n + 1 := by
    simp only [unsent]
    omega
  have hoffset : p.offset + (n + 1) = p.buffer.size - 1 := by omega
  have hlast : ¬ p.buffer.size - 1 + 1 < p.buffer.size := by omega
  have hmore : p.buffer.size - 1 < p.buffer.size := by omega
  have hleft : p.buffer.size - 1 ≠ p.buffer.size := by omega
  -- the first call takes the bytes, the second finds the stream full
  have hoffer (fuel : Nat) : p.offer Net.lagging (fuel + 2) w 0 =
      ({ p with offset := p.buffer.size - 1 }, w, p.unsent - 1, .settled) := by
    simp [offer, Net.lagging, h, hn, Nat.lt_of_succ_lt h, hmin, hoffset, hlast, hmore, hunsent]
  have hfuel : p.unsent + Net.lagging.patience w = p.unsent + 2 := rfl
  refine ⟨p.frameEnds.dropWhile (· ≤ p.buffer.size - 1),
    p.frameEnds.length - (p.frameEnds.dropWhile (· ≤ p.buffer.size - 1)).length, ?_⟩
  simp only [flush, hfuel, hoffer, settle, hleft, if_false]

theorem exists_push?_bare (p : Peer) : ∃ p', p.push? Builder.bare.buffer = some p' ∧
    p'.offset = p.offset ∧
    p'.buffer.size = p.buffer.size + (Frame.headerLength + headerLength) := by
  have hshort : Builder.bare.buffer.size ≤ Frame.maxLength := by decide
  cases hpush : p.push? Builder.bare.buffer with
  | none => simp [push?, Frame.append?_eq_some_iff.2 ⟨hshort, rfl⟩] at hpush
  | some p' =>
    obtain ⟨-, rfl⟩ := push?_eq hpush
    refine ⟨_, rfl, rfl, ?_⟩
    simp only [Array.size_append, List.size_toArray, Frame.length_encode]
    rfl

end Peer

/-- A link on the lagging network. Its one peer lacks at most one byte. -/
structure Lagging (limit : Nat) where
  near : SocketAddress
  remote : SocketAddress
  peer : Peer
  lastServed : Option Token
  metrics : LinkMetrics
  pool : List Builder
  offset_le : peer.offset ≤ peer.buffer.size
  unsent_le : peer.unsent ≤ 1

namespace Lagging

variable {limit : Nat}

def streams (x : Lagging limit) : Streams where
  remote := x.remote
  peers := [(Token.outbound, x.peer)]
  lastServed := x.lastServed

def link (x : Lagging limit) (outbox : List Builder) : LinkState (List (Reply Nat)) where
  world := []
  config := { maxPeerBufferBytes := limit }
  boundAddress := x.near
  carrier := .streams x.streams
  metrics := x.metrics
  pool := x.pool
  outbox := outbox
  guards := 1

/-- The loop of the link is at the head of a round, and all its messages have no fields. -/
structure Runs (x : Lagging limit) (y : System (List (Reply Nat))) : Prop where
  link : y.link = x.link []
  stage : y.stage = .head
  accepted : ∀ b ∈ y.history.accepted, b = .bare

theorem fits (x : Lagging limit) (h : Frame.headerLength + headerLength < limit) :
    x.peer.fits Builder.bare.size limit = true := by
  have hsize : Builder.bare.size = headerLength := rfl
  have hunsent := x.unsent_le
  simp only [Peer.fits, hsize, Bool.or_eq_true, decide_eq_true_eq, beq_iff_eq]
  omega

/-- The peer gets a frame more, and its stream takes all but the last byte. -/
theorem exists_handOn (x : Lagging limit) (h : Frame.headerLength + headerLength < limit) :
    ∃ x' : Lagging limit, (x.link [.bare]).handOn Net.lagging = x'.link [] ∧
      x'.peer.buffer.size = x.peer.buffer.size + (Frame.headerLength + headerLength) := by
  have hle := x.offset_le
  obtain ⟨p, hpush, hoffset, hsize⟩ := x.peer.exists_push?_bare
  simp only [Frame.headerLength, ArmStream.headerLength] at hsize
  obtain ⟨ends, frames, hflush⟩ := Peer.flush_lagging (p := p) [] (by omega)
  obtain ⟨pool, hrelease⟩ := (x.link []).exists_release .bare
  -- the one peer has room, for it lacks at most one byte
  have hover : (x.link [.bare]).handOver? x.streams = some ({ x.link [] with pool := pool },
      { x.streams with peers := [(Token.outbound, p)], lastServed := some Token.outbound }) := by
    have hturn := Streams.turn?_singleton (t := x.streams) rfl (x.fits h)
    have hbytes : Builder.bare.bytes = .ok Builder.bare.buffer := rfl
    rw [← hrelease]
    unfold LinkState.handOver?
    dsimp only [link]
    rw [hturn]
    simp only [hbytes, hpush]
    rfl
  have hcarrier : (x.link [.bare]).carrier = .streams x.streams := rfl
  have hlength : (x.link [.bare]).outbox.length = 1 := rfl
  refine ⟨{
    near := x.near
    remote := x.remote
    peer := { p with offset := p.buffer.size - 1, frameEnds := ends }
    lastServed := some Token.outbound
    metrics := (x.link []).countSent frames (p.unsent - 1) |>.metrics
    pool := pool
    offset_le := Nat.sub_le _ _
    unsent_le := by simp only [Peer.unsent]; omega }, ?_, hsize⟩
  simp only [LinkState.handOn, hcarrier, LinkState.handOnStreams, hlength, LinkState.handOverAll,
    hover]
  simp only [link, streams, LinkState.offerAll, hflush]
  rfl

/-- In a round with one message the buffer grows by its frame. -/
theorem grow {x : Lagging limit} (h : Frame.headerLength + headerLength < limit)
    {y : System (List (Reply Nat))} (hy : x.Runs y) :
    ∃ (x' : Lagging limit) (actions : List Action), x'.Runs (y.run Net.lagging actions) ∧
      x'.peer.buffer.size = x.peer.buffer.size + (Frame.headerLength + headerLength) := by
  obtain ⟨s, stage, history⟩ := y
  obtain ⟨rfl, rfl, haccepted⟩ := hy
  obtain ⟨x', hhandOn, hsize⟩ :=
    { x with metrics.submitted := x.metrics.submitted + 1 }.exists_handOn h
  have htaken : System.run Net.lagging ⟨x.link [], .head, history⟩
      [.submit .bare, .proceed, .proceed] =
      { link := { x with metrics.submitted := x.metrics.submitted + 1 }.link [.bare]
        stage := .handing
        history := (history.submit .bare (.ok ())).take 1 } := rfl
  refine ⟨x', [.submit .bare, .proceed, .proceed] ++
    [.proceed, .proceed, .wake (.fail .interrupted)], ?_, hsize⟩
  have hrun (actions later : List Action) : System.run Net.lagging ⟨x.link [], .head, history⟩
      (actions ++ later) = (System.run Net.lagging ⟨x.link [], .head, history⟩ actions).run
        Net.lagging later := List.foldl_append
  rw [hrun, htaken]
  simp only [System.run, List.foldl_cons, List.foldl_nil, System.step, System.proceed,
    System.enter, hhandOn]
  refine ⟨rfl, rfl, fun b hb => ?_⟩
  rcases List.mem_append.1 hb with hb | hb
  · exact haccepted b hb
  · exact List.mem_singleton.1 hb

theorem exists_opened (limit : Nat) :
    ∃ (x : Lagging limit) (y : System (List (Reply Nat))),
      Reachable Net.lagging [] y ∧ x.Runs y := by
  let x : Lagging limit := {
    near := default
    remote := ⟨.v4 10 9 8 7, 30010⟩
    peer := { conn := 0 }
    lastServed := none
    metrics := {}
    pool := []
    offset_le := Nat.le_refl _
    unsent_le := Nat.zero_le _ }
  have hrun : (System.opened? Net.lagging "tcp://127.0.0.1:0" "tcp://10.9.8.7:30010"
      { maxPeerBufferBytes := limit } []).map (·.run Net.lagging Action.firstRound) =
      some { link := x.link [], history := { offers := [⟨0, 0, 0, false⟩] } } := by cbv
  obtain ⟨y, hopened, hy⟩ := Option.map_eq_some_iff.1 hrun
  refine ⟨x, _, (Reachable.opened hopened).run Action.firstRound, ?_⟩
  rw [hy]
  exact ⟨rfl, rfl, by simp⟩

/-- So the buffer grows as long as the peer is connected. -/
theorem exists_large (h : Frame.headerLength + headerLength < limit) (n : Nat) :
    ∃ (x : Lagging limit) (y : System (List (Reply Nat))),
      Reachable Net.lagging [] y ∧ x.Runs y ∧ n ≤ x.peer.buffer.size := by
  induction n with
  | zero =>
    obtain ⟨x, y, hy, hruns⟩ := exists_opened limit
    exact ⟨x, y, hy, hruns, Nat.zero_le _⟩
  | succ n ih =>
    obtain ⟨x, y, hy, hruns, hn⟩ := ih
    obtain ⟨x', actions, hruns', hsize⟩ := grow h hruns
    refine ⟨x', _, hy.run actions, hruns', ?_⟩
    simp only [Frame.headerLength] at hsize
    omega

end Lagging

theorem not_heldWithin {limit frame : Nat} (h : ¬ Cramped limit frame) (bound : Nat) :
    ¬ HeldWithin limit frame bound := by
  intro hbound
  simp only [Cramped, not_or, Nat.not_le, Nat.not_lt] at h
  obtain ⟨x, y, hy, hruns, hlarge⟩ := Lagging.exists_large h.1 (bound + 1)
  have hmessages : ∀ b ∈ y.history.accepted,
      (∃ fields, b.Built fields) ∧ Frame.headerLength + b.size ≤ frame := by
    intro b hb
    obtain rfl := hruns.accepted b hb
    exact ⟨⟨[], .finish .empty rfl⟩, h.2⟩
  have hle := hbound Net.lagging [] y hy (by rw [hruns.link]; rfl) hmessages (by simp [hruns.stage])
    x.peer.buffer.size (by simp [System.heldBytes, hruns.link, Lagging.link, Lagging.streams])
  omega

/-- There are two cases, and nothing between them. Where no message fits behind an unsent byte, a
buffer never holds more than one frame. Everywhere else there is no bound at all: for each number
there is a run, on a stream that always lacks a byte, in which the buffer of its peer grows
beyond it. -/
theorem heldWithin_iff (limit frame : Nat) :
    (HeldWithin limit frame frame ↔ Cramped limit frame) ∧
      ((∃ bound, HeldWithin limit frame bound) ↔ Cramped limit frame) := by
  refine ⟨⟨fun h => ?_, heldWithin_of_cramped⟩, ⟨?_, fun h => ⟨frame, heldWithin_of_cramped h⟩⟩⟩
  · by_contra hroom
    exact not_heldWithin hroom frame h
  · rintro ⟨bound, h⟩
    by_contra hroom
    exact not_heldWithin hroom bound h

/-- With the limit that links have unless told otherwise, messages without fields are enough to make
a buffer grow beyond each bound. -/
theorem not_heldWithin_default :
    ¬ ∃ bound, HeldWithin ({} : LinkConfig).maxPeerBufferBytes
      (Frame.headerLength + headerLength) bound := by
  rintro ⟨bound, h⟩
  exact not_heldWithin (by decide) bound h

end ArmStream
