import Mathlib
import ArmStream.Proofs.Buffers
import ArmStream.Proofs.Conservation
import ArmStream.Proofs.Order
import ArmStream.Proofs.Pool
import ArmStream.Proofs.RoundTrip

/-!
# The limits of a link

Each place where messages or builders are kept has a limit, and each limit is checked where
something is put there. The queue refuses a message when it is full; the outbox takes messages up
to its mark, and those that come when it is reached are given up; a full pool forgets a builder. A
peer gets a message only if the bytes that it has not taken stay within the limit, or if it has
none: then its one frame may be longer than the limit, and it gets no other until all of it was
taken.

## Main definitions

- `Peer.Bounded`: what is unsent stays within a limit, or is all of one frame.
- `System.Limited`: the outbox and the peers stay within their limits.
- `System.Drains`: which messages the outbox takes from the queue, and which are given up.

## Main statements

- `Peer.Bounded.push`, `Peer.Bounded.flush`: what keeps the limit of a peer.
- `Transition.limited`: what keeps the limits of the loop.
- `System.within_limits`: all limits hold in each run.
-/

namespace ArmStream

variable {σ : Type} {net : Net σ}

/-! ## Peers -/

namespace Peer

/-- What is unsent stays within a limit, or is all of one frame. -/
structure Bounded (p : Peer) (limit : Nat) : Prop where
  holds : ∃ start frames, p.Holds start frames
  unfinished : p.Unfinished
  short : p.unsent ≤ limit ∨ p.frameEnds.length = 1

variable {p p' : Peer} {limit : Nat}

theorem bounded_new (conn : Conn) (limit : Nat) : Bounded { conn := conn } limit :=
  ⟨⟨0, [], holds_new conn⟩, unfinished_new conn, .inl (Nat.zero_le _)⟩

namespace Bounded

/-- A peer with nothing unsent may get any frame; it is then the only one. -/
theorem push (h : p.Bounded limit) {payload : Bytes} (hfits : p.fits payload.size limit = true)
    (hpush : p.push? payload = some p') : p'.Bounded limit := by
  obtain ⟨start, frames, hholds⟩ := h.holds
  refine ⟨⟨start, _, hholds.push hpush⟩, hholds.unfinished_push h.unfinished hpush, ?_⟩
  have hoffset := hholds.offset_le
  obtain ⟨-, rfl⟩ := push?_eq hpush
  simp only [fits, Bool.or_eq_true, beq_iff_eq, decide_eq_true_eq] at hfits
  rcases hfits with hempty | hroom
  · have hnone := (hholds.unsent_eq_zero_iff h.unfinished).1 hempty
    exact .inr (by simp [hnone])
  · left
    simp only [unsent, Frame.headerLength, Array.size_append, List.size_toArray,
      Frame.length_encode, Array.length_toList] at hroom ⊢
    omega

/-- What is unsent gets less, and no frame comes back. -/
theorem flush (h : p.Bounded limit) {w : σ} (hsettled : (p.flush net w).outcome = .settled) :
    (p.flush net w).peer.Bounded limit := by
  obtain ⟨start, frames, hholds⟩ := h.holds
  obtain ⟨start', frames', hholds', hsuffix, hopen⟩ := hholds.flush net w
  have hopen := hopen hsettled
  refine ⟨⟨start', frames', hholds'⟩, hopen, ?_⟩
  rcases h.short with hshort | hone
  · exact .inl (Nat.le_trans (unsent_flush_le net p w) hshort)
  · have hle := hsuffix.length_le
    rw [← hholds.length_frameEnds, ← hholds'.length_frameEnds, hone] at hle
    by_cases hnone : (p.flush net w).peer.frameEnds = []
    · left
      rw [(hholds'.unsent_eq_zero_iff hopen).2 hnone]
      exact Nat.zero_le _
    · right
      have := List.length_pos_iff.2 hnone
      omega

/-- The bytes beyond the limit are of one frame. -/
theorem exists_frame (h : p.Bounded limit) :
    p.unsent ≤ limit ∨ p.frameEnds.length = 1 ∧
      ∃ payload, p.buffer.toList.drop p.offset <:+ Frame.encode payload := by
  obtain ⟨start, frames, hholds⟩ := h.holds
  rcases h.short with hshort | hone
  · exact .inl hshort
  · right
    have hlength := hholds.length_frameEnds
    rw [hone] at hlength
    obtain ⟨payload, rfl⟩ := List.length_eq_one_iff.1 hlength.symm
    exact ⟨hone, payload, by simpa using hholds.unsent_suffix⟩

end Bounded

end Peer

/-- A peer whose turn it is has room for the message. -/
theorem Streams.fits_of_turn? {t : Streams} {len limit : Nat} {k : Token} {p : Peer}
    (h : t.turn? len limit = some (k, p)) : p.fits len limit = true := by
  unfold turn? at h
  have hfits := List.find?_some h
  exact hfits

theorem Builder.size_of_bytes {b : Builder} {bytes : Bytes} (h : b.bytes = .ok bytes) :
    bytes.size = b.size := by
  obtain ⟨-, rfl⟩ := Builder.bytes_eq_ok_iff.1 h
  rfl

@[simp] theorem LinkState.release_config (s : LinkState σ) (b : Builder) :
    (s.release b).config = s.config := by
  unfold release
  split <;> rfl

@[simp] theorem LinkState.noteWritten_config (s : LinkState σ) (r : Peer.Written σ) :
    (s.noteWritten r).1.config = s.config := by
  unfold noteWritten
  split <;> rfl

/-- One peer of several is replaced. -/
theorem Streams.bounded_replace {pre post : List (Token × Peer)} {k : Token} {p p' : Peer}
    {d : List Token} {limit : Nat}
    (h : ∀ entry ∈ pre ++ (k, p) :: post, entry.1 ∉ d → entry.2.Bounded limit)
    (hp : k ∉ d → p.Bounded limit → p'.Bounded limit) :
    ∀ entry ∈ pre ++ (k, p') :: post, entry.1 ∉ d → entry.2.Bounded limit := by
  intro entry hentry hfree
  rcases List.mem_append.1 hentry with hpre | hpost
  · exact h entry (by simp [hpre]) hfree
  · rcases List.mem_cons.1 hpost with rfl | hpost
    · exact hp hfree (h (k, p) (by simp) hfree)
    · exact h entry (by simp [hpost]) hfree

/-! ## The loop at work -/

/-- The outbox of a link at work stays within its mark, and each peer that is not doomed within its
limit. -/
structure Working.Limited (x : Working σ) (c : LinkConfig) : Prop where
  config : x.link.config = c
  sound : x.streams.Sound
  outbox : x.link.outbox.length ≤ c.pendingHighWaterMark
  peers : ∀ entry ∈ x.streams.peers, entry.1 ∉ x.doomed → entry.2.Bounded c.maxPeerBufferBytes

theorem Move.limited {x y : Working σ} {log : List Deed} {c : LinkConfig}
    (h : Move net x log y) (hy : y.link.loopDied = false) (hx : x.Limited c) : y.Limited c := by
  have hsound := h.sound hy hx.sound
  obtain ⟨hconfig, hxsound, houtbox, hpeers⟩ := hx
  cases h with
  | died hdied => simp [hdied] at hy
  | handedOver hhead hturn hsplit hbytes hpush =>
    refine ⟨by simpa using hconfig, hsound, ?_, ?_⟩
    · simp only [hhead, List.length_cons] at houtbox
      simpa using Nat.le_of_succ_le houtbox
    · have hfits := Streams.fits_of_turn? hturn
      dsimp only at hconfig hpeers
      rw [← Builder.size_of_bytes hbytes, hconfig] at hfits
      rw [hsplit] at hpeers
      exact Streams.bounded_replace hpeers fun _ hp => hp.push hfits hpush
  | withheld hhead =>
    refine ⟨by simpa [LinkState.countDropped] using hconfig, hsound, ?_, hpeers⟩
    simp only [hhead, List.length_cons] at houtbox
    simpa [LinkState.countDropped] using Nat.le_of_succ_le houtbox
  | @offered s t d k p pre post hsplit hfree _ =>
    refine ⟨by simpa using hconfig, hsound, by simpa using houtbox, ?_⟩
    dsimp only at hpeers
    rw [hsplit] at hpeers
    split
    next hsettled => exact Streams.bounded_replace hpeers fun _ hp => hp.flush hsettled
    next =>
      -- the peer is doomed now
      have hpeers' : ∀ entry ∈ pre ++ (k, p) :: post, entry.1 ∉ d ++ [k] →
          entry.2.Bounded c.maxPeerBufferBytes := fun entry hentry hfree' =>
        hpeers entry hentry fun hmem => hfree' (List.mem_append_left _ hmem)
      exact Streams.bounded_replace hpeers' fun hk _ => absurd (by simp) hk
  | @parted s t d k p pre post due hsplit =>
    refine ⟨hconfig, hsound, houtbox, ?_⟩
    intro entry hentry hfree
    have hmem : entry ∈ t.peers := by
      rw [hsplit]
      rcases List.mem_append.1 hentry with hpre | hpost
      · simp [hpre]
      · simp [hpost]
    have hother : entry.1 ≠ k := hxsound.ne_of_split hsplit entry hentry
    exact hpeers entry hmem fun hdoomed => hfree (by simp [hdoomed, hother])
  | welcomed =>
    refine ⟨hconfig, hsound, houtbox, ?_⟩
    intro entry hentry hfree
    rcases List.mem_append.1 hentry with hold | hnew
    · exact hpeers entry hold hfree
    · obtain rfl := List.mem_singleton.1 hnew
      exact Peer.bounded_new _ _
  | connected =>
    refine ⟨hconfig, hsound, houtbox, ?_⟩
    intro entry hentry hfree
    rcases List.mem_cons.1 hentry with rfl | hold
    · exact Peer.bounded_new _ _
    · exact hpeers entry hold hfree
  | _ => exact ⟨hconfig, hsound, houtbox, hpeers⟩

theorem Moves.limited {x y : Working σ} {log : List Deed} {c : LinkConfig}
    (h : Moves net x log y) (hy : y.link.loopDied = false) (hx : x.Limited c) : y.Limited c :=
  h.induction (P := fun _ x => x.Limited c) (fun hmove hy hx => hmove.limited hy hx) hy [] hx

/-- Datagrams leave the outbox and nothing comes into it. -/
theorem Sends.limited {s s' : LinkState σ} {log : List Recipient} (h : Sends net s log s')
    (hlive : s'.loopDied = false) :
    s'.config = s.config ∧ s'.outbox.length ≤ s.outbox.length := by
  induction h with
  | refl => exact ⟨rfl, Nat.le_refl _⟩
  | died hdied => simp [hdied] at hlive
  | waited _ _ ih => exact ih hlive
  | sent hhead _ _ _ ih =>
    obtain ⟨hconfig, hle⟩ := ih hlive
    simp only [LinkState.countSent, LinkState.release_config,
      LinkState.release_outbox] at hconfig hle
    exact ⟨hconfig, by simp [hhead]; omega⟩
  | failed hhead _ _ _ ih =>
    obtain ⟨hconfig, hle⟩ := ih hlive
    simp only [LinkState.countSendError, LinkState.countDropped, LinkState.release_config,
      LinkState.release_outbox] at hconfig hle
    exact ⟨hconfig, by simp [hhead]; omega⟩
  | withheld hhead _ _ ih =>
    obtain ⟨hconfig, hle⟩ := ih hlive
    simp only [LinkState.countDropped, LinkState.release_config,
      LinkState.release_outbox] at hconfig hle
    exact ⟨hconfig, by simp [hhead]; omega⟩

/-! ## Systems -/

namespace System

structure Limited (y : System σ) (c : LinkConfig) : Prop where
  config : y.link.config = c
  queue : y.link.queue.length ≤ c.queueCapacity
  outbox : y.link.outbox.length ≤ c.pendingHighWaterMark
  peers : ∀ t, y.link.carrier = .streams t → ∀ entry ∈ t.peers,
    entry.2.Bounded c.maxPeerBufferBytes

end System

theorem Transition.limited {y y' : System σ} {c : LinkConfig} (h : Transition net y y')
    (hs : y.Sound) (hy : y.stage ≠ .died → y.Limited c) (hlive : y'.stage ≠ .died) :
    y'.Limited c := by
  cases h with
  | passed hl _ =>
    obtain ⟨hconfig, hqueue, houtbox, hpeers⟩ := hy (Stage.ne_died hl)
    exact ⟨hconfig, hqueue, houtbox, hpeers⟩
  | aside =>
    obtain ⟨hconfig, hqueue, houtbox, hpeers⟩ := hy hlive
    exact ⟨hconfig, hqueue, houtbox, hpeers⟩
  | submitted _ _ _ hroom _ =>
    obtain ⟨hconfig, hqueue, houtbox, hpeers⟩ := hy hlive
    refine ⟨hconfig, ?_, houtbox, hpeers⟩
    rw [hconfig] at hroom
    simpa [LinkState.queued, LinkState.countSubmitted] using hroom
  | refused =>
    obtain ⟨hconfig, hqueue, houtbox, hpeers⟩ := hy hlive
    exact ⟨hconfig, hqueue, houtbox, hpeers⟩
  | took hl _ =>
    obtain ⟨hconfig, -, houtbox, hpeers⟩ := hy (Stage.ne_died hl)
    -- no more is kept than the outbox has room for
    refine ⟨hconfig, Nat.zero_le _, ?_, hpeers⟩
    simp only [List.length_append, List.length_take, LinkState.room, hconfig]
    omega
  | worked hl _ halive ht ht' hmoves =>
    obtain ⟨hconfig, hqueue, houtbox, hpeers⟩ := hy (Stage.ne_died hl)
    have hwork := hmoves.limited halive
      ⟨hconfig, hs.streams hl _ ht, houtbox, fun entry hentry _ => hpeers _ ht entry hentry⟩
    refine ⟨hwork.config, ?_, hwork.outbox, ?_⟩
    · rw [(hmoves.queue halive).1]
      exact hqueue
    · intro t ht'' entry hentry
      obtain rfl := Carrier.streams.inj (ht'.symm.trans ht'')
      exact hwork.peers entry hentry (by simp)
  | sent hl _ halive hcarrier hsends =>
    obtain ⟨hconfig, hqueue, houtbox, hpeers⟩ := hy (Stage.ne_died hl)
    obtain ⟨hconfig', hle⟩ := hsends.limited halive
    refine ⟨hconfig'.trans hconfig, ?_, Nat.le_trans hle houtbox, ?_⟩
    · rw [(hsends.counted halive).1]
      exact hqueue
    · intro t ht
      exact absurd ht (hsends.carrier_ne halive hcarrier t)
  | heard n hl _ =>
    obtain ⟨hconfig, hqueue, houtbox, hpeers⟩ := hy (Stage.ne_died hl)
    exact ⟨hconfig, hqueue, houtbox, hpeers⟩
  | left hl =>
    obtain ⟨hconfig, hqueue, houtbox, hpeers⟩ := hy (Stage.ne_died hl)
    obtain ⟨pool, hleave⟩ := y.link.leave_eq net
    simp only [hleave]
    exact ⟨hconfig, Nat.zero_le _, Nat.zero_le _, hpeers⟩
  | died => simp at hlive

namespace System

/-! ## The settings -/

/-- No action changes the settings. -/
theorem config_step (net : Net σ) (y : System σ) (a : Action) :
    (y.step net a).link.config = y.link.config := by
  rcases a.isCallers_or with hcallers | rfl | ⟨r, rfl⟩
  · have hcalled := called_step net y hcallers
    generalize y.step net a = y' at hcalled ⊢
    cases hcalled with
    | aside | submitted | refused => rfl
  · exact congrArg CallerSide.config (returns_proceed net y).callerSide_eq
  · exact congrArg CallerSide.config (returns_wake net y r).callerSide_eq

theorem config_run (net : Net σ) (y : System σ) (actions : List Action) :
    (y.run net actions).link.config = y.link.config := by
  induction actions generalizing y with
  | nil => rfl
  | cons a rest ih => exact (ih _).trans (config_step net y a)

/-- A link has the settings that it was opened with. -/
theorem config_of_opened {near far : String} {c : LinkConfig} {w₀ : σ} {y : System σ}
    (h : opened? net near far c w₀ = some y) : y.link.config = c := by
  unfold opened? at h
  split at h
  next channel w _ =>
    split at h
    next s w' hlink =>
      obtain rfl := Option.some.inj h
      unfold LinkState.ofChannel at hlink
      split at hlink
      · simp at hlink
      · simp at hlink
      · obtain ⟨rfl, -⟩ := by simpa using hlink
        rfl
    next => simp at h
  next => simp at h

/-! ## A loop whose thread ended -/

/-- The thread of the loop is gone, and the queue with it. -/
def Gone (y : System σ) : Prop :=
  y.stage = .died → y.link.receiving = false ∧ y.link.queue = []

theorem gone_enter (net : Net σ) (y : System σ) (s : LinkState σ) {next : Stage}
    (hnext : next ≠ .died) : (y.enter net s next).Gone := by
  unfold enter
  split
  · exact fun _ => ⟨rfl, rfl⟩
  · exact fun hdied => absurd hdied hnext

theorem gone_proceed (net : Net σ) (y : System σ) (hlive : y.stage ≠ .died) :
    (y.proceed net).Gone := by
  obtain ⟨s, stage, history⟩ := y
  cases stage with
  | head =>
    intro h
    simp only [proceed] at h
    split at h <;> simp at h
  | resting =>
    intro h
    simp only [proceed] at h
    split at h <;> simp at h
  | handing => exact gone_enter net _ _ (by simp)
  | reacting events =>
    cases events with
    | nil => simp [Gone, proceed]
    | cons e rest => exact gone_enter net _ _ (by simp)
  | reopening => exact gone_enter net _ _ (by simp)
  | died => exact absurd rfl hlive
  | _ => simp [Gone, proceed]

/-- Once the thread of the loop is gone, callers get nothing into the queue. -/
theorem gone_step (net : Net σ) {y : System σ} (hs : y.Sound) (h : y.Gone) (a : Action) :
    (y.step net a).Gone := by
  by_cases hdied : y.stage = .died
  · obtain ⟨hreceiving, hqueue⟩ := h hdied
    have htransition : Transition net y (y.step net a) := transition_step hs a
    generalize y.step net a = y' at htransition
    have hdead : y.stage.isLive = false := by rw [hdied]; rfl
    cases htransition with
    | aside => exact fun _ => ⟨hreceiving, hqueue⟩
    | submitted _ _ hthere => simp [hreceiving] at hthere
    | refused _ _ hthere => simp [hreceiving] at hthere
    | heard n hl => simp [hdead] at hl
    | passed hl | took hl | worked hl | sent hl | left hl | died hl => simp [hdead] at hl
  · cases a with
    | proceed => exact gone_proceed net y hdied
    | wake r =>
      simp only [step]
      split
      · rcases r with events | e | _
        · simp [Gone, answer]
        · cases e <;> simp [Gone, answer]
        · exact gone_enter net _ _ (by simp)
      · exact fun hdied' => absurd hdied' hdied
    | _ => exact fun hdied' => absurd hdied' hdied

end System

namespace Reachable

variable {w₀ : σ} {y : System σ}

theorem gone (h : Reachable net w₀ y) : y.Gone := by
  induction h with
  | opened hopened =>
    obtain ⟨s, -, rfl⟩ := LinkState.exists_fresh hopened
    simp [System.Gone]
  | step a h ih => exact System.gone_step net h.sound ih a

/-- The limits hold unless the thread of the loop is gone. -/
theorem limited (h : Reachable net w₀ y) (hlive : y.stage ≠ .died) : y.Limited y.link.config := by
  induction h with
  | opened hopened =>
    obtain ⟨s, hfresh, rfl⟩ := LinkState.exists_fresh hopened
    cases hfresh with
    | datagrams => exact ⟨rfl, Nat.zero_le _, Nat.zero_le _, by simp⟩
    | closed => exact ⟨rfl, Nat.zero_le _, Nat.zero_le _, by simp +contextual⟩
    | opening => exact ⟨rfl, Nat.zero_le _, Nat.zero_le _, by simp +contextual⟩
  | step a h ih =>
    rw [System.config_step]
    exact (System.transition_step h.sound a).limited h.sound ih hlive

end Reachable

/-! ## Emptying the queue -/

namespace System

/-- The loop took the messages in the queue one after the other. The outbox took those with the
numbers `kept`, which are the oldest; the others came to an outbox at its mark and were given up. -/
structure Drains (y y' : System σ) (kept lost : List Nat) : Prop where
  queued : y.history.queued = kept ++ lost
  ascending : (y.history.pending ++ kept ++ lost).Pairwise (· < ·)
  outbox : y'.link.outbox = y.link.outbox ++ kept.map y.history.message
  queue : y'.link.queue = []
  pending : y'.history.pending = y.history.pending ++ kept
  discarded : y'.history.discarded = y.history.discarded ++ lost
  dropped : y'.link.metrics.dropped = y.link.metrics.dropped + lost.length
  /-- A message is given up exactly if the outbox is at its mark when its turn comes. -/
  turn : ∀ before m behind, y.history.queued = before ++ m :: behind →
    (m ∈ lost ↔ ((before.map y.history.message).foldl LinkState.take
      { y.link with queue := [] }).outbox.length = y.link.config.pendingHighWaterMark)

/-- Of numbers that ascend, those behind the first `n` have as many before them. -/
theorem mem_drop_iff {before behind : List Nat} {m : Nat}
    (h : (before ++ m :: behind).Pairwise (· < ·)) (n : Nat) :
    m ∈ (before ++ m :: behind).drop n ↔ n ≤ before.length := by
  constructor
  · intro hmem
    by_contra hlt
    have hdrop : (before ++ m :: behind).drop n = behind.drop (n - before.length - 1) := by
      obtain ⟨k, hk⟩ := Nat.exists_eq_add_of_lt (Nat.lt_of_not_le hlt)
      have hn : n - before.length = k + 1 := by omega
      rw [List.drop_append, List.drop_of_length_le (by omega), hn, List.drop_succ_cons]
      rfl
    rw [hdrop] at hmem
    obtain ⟨-, hbehind, -⟩ := List.pairwise_append.1 h
    exact Nat.lt_irrefl m ((List.pairwise_cons.1 hbehind).1 m (List.mem_of_mem_drop hmem))
  · intro hle
    rw [List.drop_append_of_le_length hle]
    simp

/-- How many messages the outbox holds after it was offered some. -/
theorem length_outbox_foldl_take (s : LinkState σ) (bs : List Builder) :
    (bs.foldl LinkState.take s).outbox.length = s.outbox.length + min s.room bs.length := by
  obtain ⟨pool, heq⟩ := s.foldl_take bs
  simp [heq]

theorem exists_drains (net : Net σ) {y : System σ} (hstage : y.stage = .taking)
    (hordered : y.history.Ordered y.link.queue y.link.outbox)
    (hmark : y.link.outbox.length ≤ y.link.config.pendingHighWaterMark) :
    ∃ kept lost, y.Drains (y.proceed net) kept lost := by
  obtain ⟨pool, htaken⟩ := y.link.takeSubmissions_eq
  have hlength : y.link.queue.length = y.history.queued.length := by simp [hordered.queue]
  have hproceed : y.proceed net = { y with
      link := y.link.takeSubmissions
      stage := .handing
      history := y.history.take y.link.room } := by
    rw [← y.history.take_min]
    simp [proceed, hstage, htaken, hlength]
  have hascending : (y.history.pending ++ y.history.queued).Pairwise (· < ·) := by
    refine hordered.ascending.sublist ?_
    simp [History.line, List.append_assoc]
  refine ⟨y.history.queued.take y.link.room, y.history.queued.drop y.link.room, ?_⟩
  rw [hproceed]
  constructor
  case queued => exact (List.take_append_drop _ _).symm
  case ascending => rwa [List.append_assoc, List.take_append_drop]
  case outbox =>
    simp only [htaken]
    rw [List.map_take, ← hordered.queue]
  case queue => simp [htaken]
  case pending => rfl
  case discarded => rfl
  case dropped => simp [htaken, hlength]
  case turn =>
    intro before m behind hsplit
    -- a message is lost exactly if those before it leave no room in the outbox
    have hturn := length_outbox_foldl_take { y.link with queue := [] }
      (before.map y.history.message)
    rw [hsplit] at hascending ⊢
    rw [mem_drop_iff (List.pairwise_append.1 hascending).2.1, hturn, List.length_map]
    simp only [LinkState.room]
    omega

/-- All limits hold in each run of a link, whatever its settings are, callers do and the network
answers: the queue, the pool, the outbox and the buffers of peers stay within them; a peer with
more unsent bytes than the limit holds a single frame. The loop gives up only messages that come
to an outbox at its mark, and these are newer than all it keeps, in their order. -/
theorem within_limits {near far : String} {c : LinkConfig} {w₀ : σ} {y₀ : System σ}
    (hopened : opened? net near far c w₀ = some y₀) (actions : List Action) :
    let y := y₀.run net actions
    y.link.config = c ∧
    y.link.queue.length ≤ c.queueCapacity ∧
    y.link.pool.length ≤ c.maxPooledBuilders ∧
    (y.stage ≠ .died →
      y.link.outbox.length ≤ c.pendingHighWaterMark ∧
      ∀ t, y.link.carrier = .streams t → ∀ k p, (k, p) ∈ t.peers →
        p.unsent ≤ c.maxPeerBufferBytes ∨ p.frameEnds.length = 1 ∧
          ∃ payload, p.buffer.toList.drop p.offset <:+ Frame.encode payload) ∧
    (y.stage = .taking → ∃ kept lost, y.Drains (y.step net .proceed) kept lost) := by
  intro y
  have hreach : Reachable net w₀ y := (Reachable.opened hopened).run actions
  have hconfig : y.link.config = c := (config_run net y₀ actions).trans (config_of_opened hopened)
  refine ⟨hconfig, ?_, hconfig ▸ hreach.tidy.bounded, ?_, ?_⟩
  · by_cases hdied : y.stage = .died
    · simp [(hreach.gone hdied).2]
    · exact hconfig ▸ (hreach.limited hdied).queue
  · intro hlive
    obtain ⟨-, -, houtbox, hpeers⟩ := hconfig ▸ hreach.limited hlive
    exact ⟨houtbox, fun t ht k p hmem => (hpeers t ht (k, p) hmem).exists_frame⟩
  · intro hstage
    have hlive : y.stage ≠ .died := by simp [hstage]
    exact exists_drains net hstage (hreach.ordered hlive) (hreach.limited hlive).outbox

/-- A peer has bytes of a frame unsent, although its limit is zero, and two messages wait for an
outbox with room for one. -/
theorem within_limits_of_run :
    ∃ y₀ : System (List (Reply Nat)),
      opened? Net.scripted "tcp://127.0.0.1:0" "tcp://10.9.8.7:30010"
        { queueCapacity := 2, pendingHighWaterMark := 1, maxPooledBuilders := 1,
          maxPeerBufferBytes := 0 } [.ok 5] = some y₀ ∧
      ∃ y : System (List (Reply Nat)), y.stage = .taking ∧ y.link.queue.length = 2 ∧
        y.link.unsentFrames = 1 ∧ y.link.outbox.length ≤ 1 ∧ y.link.pool.length ≤ 1 ∧
        (∀ t, y.link.carrier = .streams t → ∀ k p, (k, p) ∈ t.peers →
          p.unsent ≤ 0 ∨ p.frameEnds.length = 1) ∧
        ∃ kept lost, y.Drains (y.step Net.scripted .proceed) kept lost := by
  obtain ⟨y₀, hopened, hy⟩ := exists_opened_of_run Net.scripted [.ok 5]
    "tcp://127.0.0.1:0" "tcp://10.9.8.7:30010"
    { queueCapacity := 2, pendingHighWaterMark := 1, maxPooledBuilders := 1,
      maxPeerBufferBytes := 0 }
    (Action.firstRound ++ [.submit .bare, .proceed, .proceed, .proceed, .proceed,
      .wake (.fail .interrupted), .submit .bare, .submit .bare, .proceed])
    (fun y => y.stage == .taking && y.link.queue.length == 2 && y.link.unsentFrames == 1) (by cbv)
  obtain ⟨-, -, hpool, hloop, hdrain⟩ := within_limits hopened
    (Action.firstRound ++ [.submit .bare, .proceed, .proceed, .proceed, .proceed,
      .wake (.fail .interrupted), .submit .bare, .submit .bare, .proceed])
  simp only [Bool.and_eq_true, beq_iff_eq] at hy
  obtain ⟨⟨hstage, hqueue⟩, hunsent⟩ := hy
  obtain ⟨houtbox, hpeers⟩ := hloop (by simp [hstage])
  refine ⟨y₀, hopened, _, hstage, hqueue, hunsent, houtbox, hpool, ?_, hdrain hstage⟩
  intro t ht k p hmem
  exact (hpeers t ht k p hmem).imp_right And.left

end System

end ArmStream
