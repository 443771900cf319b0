import Mathlib
import ArmStream.Proofs.Limits

/-!
# Messages that are left in the outbox

When the loop has handed over what it can, no peer has room for the message that comes next. Then
it offers the peers their bytes, and what their streams take makes room again. The loop does not
look at the outbox a second time. So it may wait, and later give up new messages, while a peer
could have taken the oldest one; but only a peer whose stream took bytes since.

## Main definitions

- `Peer.Full`, `Streams.Full`: there is no room for a message.
- `LinkState.loaded`: the peers after messages were handed over and before bytes are offered.
- `System.Since`: the loop handed messages on and has not taken new ones since.
- `LinkState.atTurn`: the link when a certain message of its queue is next.

## Main statements

- `LinkState.full_handOverAll`: when handing over ends, no peer has room for the next message.
- `Reachable.exists_since`: a message in the outbox was left by the last handing on.
- `Reachable.left_beside_room_iff`: the peers of a loop that waits with a message left.
- `Reachable.dropped_beside_room_iff`: the peers of a loop that gives messages up.
-/

namespace ArmStream

variable {σ : Type} {net : Net σ}

/-! ## Peers without room -/

/-- The peer has no room for a message of `len` bytes: it has bytes to send, and together with the
message they would be more than the limit. -/
def Peer.Full (p : Peer) (len limit : Nat) : Prop :=
  0 < p.unsent ∧ limit < p.unsent + Frame.headerLength + len

instance (p : Peer) (len limit : Nat) : Decidable (p.Full len limit) :=
  inferInstanceAs (Decidable (_ ∧ _))

theorem Peer.full_iff {p : Peer} {len limit : Nat} :
    p.Full len limit ↔ ¬ p.fits len limit = true := by
  simp only [Full, fits, Bool.or_eq_true, beq_iff_eq, decide_eq_true_eq]
  omega

def Streams.Full (t : Streams) (len limit : Nat) : Prop :=
  ∀ entry ∈ t.peers, entry.2.Full len limit

theorem Streams.turn?_eq_none_iff {t : Streams} {len limit : Nat} :
    t.turn? len limit = none ↔ t.Full len limit := by
  unfold turn?
  simp only [List.find?_eq_none, List.mem_append, Full, Peer.full_iff]
  constructor
  · intro h entry hentry
    exact h entry (.inr hentry)
  · rintro h entry (hafter | hall)
    · cases hlast : t.lastServed with
      | none => simp [hlast] at hafter
      | some last =>
        rw [hlast] at hafter
        exact h entry (List.mem_of_mem_filter hafter)
    · exact h entry hall

namespace LinkState

theorem handOver?_eq_none_iff {s : LinkState σ} {t : Streams} {b : Builder} {rest : List Builder}
    (h : s.outbox = b :: rest) :
    s.handOver? t = none ↔ t.Full b.size s.config.maxPeerBufferBytes := by
  rw [← Streams.turn?_eq_none_iff]
  unfold handOver?
  simp only [h]
  cases t.turn? b.size s.config.maxPeerBufferBytes with
  | none => simp
  | some entry =>
    simp only [reduceCtorEq, iff_false]
    split <;> simp

theorem config_of_handOver? {s s' : LinkState σ} {t t' : Streams}
    (h : s.handOver? t = some (s', t')) : s'.config = s.config :=
  congrArg CallerSide.config (Returns.refl.handOver? h).callerSide_eq

/-- When handing over ends, no peer has room for the next message. -/
theorem full_handOverAll {s : LinkState σ} {t : Streams} {fuel : Nat} {b : Builder}
    {rest : List Builder} (hfuel : s.outbox.length ≤ fuel)
    (hleft : (handOverAll fuel s t).1.outbox = b :: rest) :
    (handOverAll fuel s t).2.Full b.size s.config.maxPeerBufferBytes := by
  induction fuel generalizing s t with
  | zero =>
    have hnone := List.length_eq_zero_iff.1 (Nat.le_zero.1 hfuel)
    simp [handOverAll, hnone] at hleft
  | succ fuel ih =>
    unfold handOverAll at hleft ⊢
    cases h : s.handOver? t with
    | none =>
      simp only [h] at hleft
      exact (handOver?_eq_none_iff hleft).1 h
    | some r =>
      obtain ⟨s', t'⟩ := r
      simp only [h] at hleft
      rw [← config_of_handOver? h]
      have hless := length_outbox_of_handOver? h
      exact ih (by omega) hleft

end LinkState

/-! ## Offers to peers -/

/-- What an offer did to a peer: the stream took so many of the bytes that were unsent. -/
structure Offer.Relieves (o : Offer) (p p' : Peer) : Prop where
  conn : o.conn = p.conn
  conn_eq : p'.conn = p.conn
  unsent : p.unsent = p'.unsent + o.bytes

theorem Peer.unsent_settle (p : Peer) : p.settle.1.unsent = p.unsent := by
  unfold settle
  split
  next hall => simp [unsent, hall]
  next => rfl

theorem Offer.relieves_made (net : Net σ) (p : Peer) (w : σ) :
    (Offer.made p (p.flush net w)).Relieves p (p.flush net w).peer := by
  refine ⟨rfl, p.conn_flush net w, ?_⟩
  obtain ⟨hle, hend⟩ := p.flush_eq net w
  have htook : (p.flush net w).peer.unsent = p.unsent - (p.flush net w).bytes := by
    rw [← p.unsent_took]
    rcases hend with ⟨-, hpeer, -⟩ | ⟨-, hpeer, -⟩
    · rw [hpeer, Peer.unsent_settle]
    · rw [hpeer]
  rw [htook]
  exact (Nat.sub_add_cancel hle).symm

/-- After an offer a peer has room for a message exactly if its stream took all bytes, or so many
that the message stays within the limit. -/
theorem Offer.Relieves.not_full_iff {o : Offer} {p p' : Peer} (h : o.Relieves p p')
    (len limit : Nat) :
    ¬ p'.Full len limit ↔
      o.bytes = p.unsent ∨ p.unsent + Frame.headerLength + len ≤ limit + o.bytes := by
  have hunsent := h.unsent
  simp only [Peer.Full]
  omega

namespace LinkState

/-- The streams after messages were handed over and before bytes are offered to the peers. -/
def loaded (s : LinkState σ) (t : Streams) : Streams := (handOverAll s.outbox.length s t).2

/-- Each peer was offered its bytes once. -/
theorem relieves_of_mem_offerAll {s : LinkState σ} {todo : List (Token × Peer)}
    (hlive : (s.offerAll net todo).1.loopDied = false) {k : Token} {p : Peer}
    (h : (k, p) ∈ (s.offerAll net todo).2.1) :
    ∃ p₀ o, (k, p₀) ∈ todo ∧ o ∈ s.offersTo net todo ∧ o.Relieves p₀ p := by
  induction todo generalizing s with
  | nil => simp [offerAll] at h
  | cons entry rest ih =>
    obtain ⟨k₀, p₀⟩ := entry
    unfold offerAll at hlive h
    unfold offersTo
    split at hlive
    next hdied => simp [hdied] at hlive
    next halive =>
      simp only [if_neg halive, List.mem_cons, Prod.mk.injEq] at h ⊢
      rcases h with ⟨rfl, rfl⟩ | hrest
      · exact ⟨p₀, _, .inl ⟨rfl, rfl⟩, .inl rfl, Offer.relieves_made net p₀ s.world⟩
      · obtain ⟨p₁, o, hp₁, ho, hrelieves⟩ := ih hlive hrest
        exact ⟨p₁, o, .inr hp₁, .inr ho, hrelieves⟩

theorem mem_of_mem_part {s : LinkState σ} {t : Streams} {token : Token}
    {entry : Token × Peer} (h : entry ∈ (s.part net t token).2.peers) : entry ∈ t.peers := by
  unfold part at h
  split at h
  next => exact h
  next => split at h <;> exact List.mem_of_mem_filter h

theorem mem_of_mem_partAll {s : LinkState σ} {t : Streams} {tokens : List Token}
    {entry : Token × Peer} (h : entry ∈ (s.partAll net t tokens).2.peers) : entry ∈ t.peers := by
  induction tokens generalizing s t with
  | nil => exact h
  | cons token rest ih =>
    unfold partAll at h
    split at h
    next => exact h
    next => exact mem_of_mem_part (ih h)

theorem alive_of_partAll {s : LinkState σ} {t : Streams} {tokens : List Token}
    (h : (s.partAll net t tokens).1.loopDied = false) : s.loopDied = false := by
  cases hdied : s.loopDied with
  | false => rfl
  | true => cases tokens <;> simp [partAll, hdied] at h

/-- What is left in the outbox found no room before bytes were offered, and each peer that is still
there was offered its bytes since. -/
theorem full_handOn {s : LinkState σ} {t : Streams} (ht : s.carrier = .streams t) {b : Builder}
    {rest : List Builder} (hleft : (s.handOn net).outbox = b :: rest) :
    (s.loaded t).Full b.size s.config.maxPeerBufferBytes := by
  simp only [handOn, ht, handOnStreams, outbox_partAll, outbox_offerAll] at hleft
  exact full_handOverAll (Nat.le_refl _) hleft

theorem relieves_handOn {s : LinkState σ} {t t' : Streams} (ht : s.carrier = .streams t)
    (hlive : (s.handOn net).loopDied = false) (ht' : (s.handOn net).carrier = .streams t')
    {k : Token} {p : Peer} (h : (k, p) ∈ t'.peers) :
    ∃ p₀ o, (k, p₀) ∈ (s.loaded t).peers ∧ o ∈ s.offers net ∧ o.Relieves p₀ p := by
  simp only [handOn, ht, handOnStreams] at hlive ht'
  simp only [loaded, offers, ht]
  obtain rfl := Carrier.streams.inj ht'
  exact relieves_of_mem_offerAll (alive_of_partAll hlive) (mem_of_mem_partAll h)

end LinkState

/-! ## Since the last handing on -/

/-- Moves that hand nothing over leave the outbox as it is. -/
theorem Move.outbox_eq {x y : Working σ} {log : List Deed} (h : Move net x log y)
    (hy : y.link.loopDied = false) (hlog : ∀ b r, .handed b r ∉ log) :
    y.link.outbox = x.link.outbox := by
  cases h with
  | died hdied => simp [hdied] at hy
  | @handedOver _ _ _ b _ k p => exact absurd (by simp) (hlog b (.peer k p.conn))
  | @withheld _ _ _ b => exact absurd (by simp) (hlog b .nobody)
  | offered => simp
  | _ => rfl

theorem Moves.outbox_eq {x y : Working σ} {log : List Deed} (h : Moves net x log y)
    (hy : y.link.loopDied = false) (hlog : ∀ b r, .handed b r ∉ log) :
    y.link.outbox = x.link.outbox := by
  induction h with
  | refl => rfl
  | step hmove hmoves ih =>
    have hfirst := hmove.outbox_eq (hmoves.alive hy) fun b r hmem => hlog b r (by simp [hmem])
    exact (ih hy fun b r hmem => hlog b r (by simp [hmem])).trans hfirst

/-- A link that carries frames on streams did so before. -/
theorem Transition.exists_streams {y y' : System σ} (h : Transition net y y')
    (hlive : y'.stage ≠ .died) {t : Streams} (ht : y'.link.carrier = .streams t) :
    ∃ t₀, y.link.carrier = .streams t₀ := by
  cases h with
  | worked _ _ _ ht₀ => exact ⟨_, ht₀⟩
  | sent _ _ halive hcarrier hsends => exact absurd ht (hsends.carrier_ne halive hcarrier t)
  | left =>
    obtain ⟨pool, hleave⟩ := y.link.leave_eq net
    simp only [hleave] at ht
    exact ⟨t, ht⟩
  | died => exact absurd rfl hlive
  | _ => exact ⟨t, ht⟩

/-- A loop whose thread ended does not come back. -/
theorem Transition.died_of_died {y y' : System σ} (h : Transition net y y')
    (hdied : y.stage = .died) : y'.stage = .died := by
  have hdead : y.stage.isLive = false := by rw [hdied]; rfl
  cases h with
  | aside | submitted | refused => exact hdied
  | passed hl | took hl | worked hl | sent hl | heard _ hl | left hl | died hl => simp [hdead] at hl

namespace System

/-- A loop that goes on after a stage did not die in it. -/
theorem alive_of_enter {y : System σ} {s : LinkState σ} {next : Stage}
    (hlive : (y.enter net s next).stage.isLive = true) : s.loopDied = false := by
  by_contra hdied
  simp [enter, Bool.of_not_eq_false hdied, Stage.isLive] at hlive

theorem handed_eq {x : System σ} (hstage : x.stage = .handing) :
    (x.step net .proceed).link.outbox = (x.link.handOn net).outbox ∧
      (x.step net .proceed).link.carrier = (x.link.handOn net).carrier := by
  simp only [step, proceed, hstage, enter]
  split <;> exact ⟨rfl, rfl⟩

/-- Only taking and handing on change the outbox of a loop that goes on. -/
theorem outbox_step {y : System σ} (hs : y.Sound) {a : Action}
    (hlive : (y.step net a).stage.isLive = true)
    (hno : a = .proceed → y.stage ≠ .taking ∧ y.stage ≠ .handing) :
    (y.step net a).link.outbox = y.link.outbox := by
  rcases a.isCallers_or with hcallers | rfl | ⟨r, rfl⟩
  · have hcalled := called_step net y hcallers
    generalize y.step net a = y' at hcalled ⊢
    cases hcalled with
    | aside | submitted | refused => rfl
  · obtain ⟨htaking, hhanding⟩ := hno rfl
    obtain ⟨s, stage, history⟩ := y
    cases stage with
    | taking => exact absurd rfl htaking
    | handing => exact absurd rfl hhanding
    | reacting events =>
      cases events with
      | nil => rfl
      | cons e rest =>
        have halive : (s.react net e).loopDied = false := alive_of_enter hlive
        simp only [step, proceed, enter, halive, Bool.false_eq_true, if_false]
        cases hcarrier : s.carrier with
        | streams t =>
          obtain ⟨t', -, hmoves⟩ := Moves.react net e (hs.streams rfl t hcarrier) hcarrier
            (hs.alive rfl)
          exact hmoves.outbox_eq halive (by simp)
        | datagrams =>
          rcases s.react_of_datagrams net e hcarrier with hsame | ⟨fuel, hreact⟩
          · rw [hsame]
          · rcases s.discardDatagrams_cases net fuel with hdied | ⟨w, n, -, heq⟩
            · simp [hreact, hdied] at halive
            · rw [hreact, heq]
              rfl
    | reopening =>
      have halive : (s.reopen net).loopDied = false := alive_of_enter hlive
      simp only [step, proceed, enter, halive, Bool.false_eq_true, if_false]
      cases hcarrier : s.carrier with
      | streams t =>
        obtain ⟨t', -, hmoves⟩ := Moves.reopen net hcarrier
        exact hmoves.outbox_eq halive (by simp)
      | datagrams => simp [LinkState.reopen, hcarrier]
    | leaving why => simp [step, proceed, Stage.isLive] at hlive
    | head | resting | waiting | ended | died => rfl
  · simp only [step] at hlive ⊢
    split
    next hwaiting =>
      rcases r with events | e | _
      · rfl
      · cases e <;> rfl
      · rw [if_pos hwaiting] at hlive
        simp [answer, enter, Stage.isLive] at hlive
    next => rfl

/-- Apart from taking and handing on, an action that ends in front of a wait or of handing on began
there; only a loop at rest goes on to its wait. The streams stay as they are. -/
theorem paused_of_step {y : System σ} {a : Action}
    (hno : a = .proceed → y.stage ≠ .taking ∧ y.stage ≠ .handing)
    (h : (y.step net a).stage ∈ [.handing, .resting, .waiting]) :
    (y.step net a).link.carrier = y.link.carrier ∧
      (y.stage = (y.step net a).stage ∨
        y.stage = .resting ∧ (y.step net a).stage = .waiting) := by
  rcases a.isCallers_or with hcallers | rfl | ⟨r, rfl⟩
  · have hcalled := called_step net y hcallers
    generalize y.step net a = y' at hcalled h ⊢
    cases hcalled with
    | aside | submitted | refused => exact ⟨rfl, .inl rfl⟩
  · obtain ⟨htaking, hhanding⟩ := hno rfl
    obtain ⟨s, stage, history⟩ := y
    cases stage with
    | taking => exact absurd rfl htaking
    | handing => exact absurd rfl hhanding
    | head =>
      simp only [step, proceed] at h
      split at h <;> simp at h
    | resting =>
      simp only [step, proceed] at h ⊢
      split at h
      next => simp at h
      next hbusy => simp [hbusy]
    | waiting => exact ⟨rfl, .inl rfl⟩
    | reacting events =>
      cases events with
      | nil => simp [step, proceed] at h
      | cons e rest =>
        simp only [step, proceed, enter] at h
        split at h <;> simp at h
    | reopening =>
      simp only [step, proceed, enter] at h
      split at h <;> simp at h
    | leaving | ended | died => simp [step, proceed] at h
  · simp only [step] at h ⊢
    split at h
    next hwaiting =>
      rcases r with events | e | _
      · simp [answer] at h
      · cases e <;> simp [answer] at h
      · simp [answer, enter] at h
    next hother => simp [hother]

/-- The loop of `x` handed messages on, and until `y` it has not taken new ones. -/
inductive Since (net : Net σ) (x : System σ) : System σ → Prop where
  | handed : Since net x (x.step net .proceed)
  | step {y : System σ} {a : Action} :
      Since net x y → (a = .proceed → y.stage ≠ .taking) → Since net x (y.step net a)

namespace Since

variable {w₀ : σ} {x y : System σ}

theorem reachable (h : Since net x y) (hx : Reachable net w₀ x) : Reachable net w₀ y := by
  induction h with
  | handed => exact hx.step .proceed
  | step _ _ ih => exact ih.step _

/-- A link that carries frames on streams did so before. -/
theorem exists_streams (h : Since net x y) (hx : Reachable net w₀ x) (hlive : y.stage ≠ .died)
    {t : Streams} (ht : y.link.carrier = .streams t) : ∃ t₀, x.link.carrier = .streams t₀ := by
  induction h generalizing t with
  | handed => exact (transition_step hx.sound .proceed).exists_streams hlive ht
  | @step y a hsince _ ih =>
    have hy := (hsince.reachable hx).sound
    have htransition : Transition net y (y.step net a) := transition_step hy a
    obtain ⟨t', ht'⟩ := htransition.exists_streams hlive ht
    exact ih (fun hdied => hlive (htransition.died_of_died hdied)) ht'

theorem alive (h : Since net x y) (hx : Reachable net w₀ x) (hstage : x.stage = .handing)
    (hlive : y.stage.isLive = true) : (x.link.handOn net).loopDied = false := by
  induction h with
  | handed =>
    simp only [System.step, proceed, hstage] at hlive
    exact alive_of_enter hlive
  | step hsince _ ih => exact ih (isLive_of_step (hsince.reachable hx).sound hlive)

/-- Until new messages are taken the outbox stays as it is, and until the wait ends the carrier
does. -/
theorem kept (h : Since net x y) (hx : Reachable net w₀ x) (hstage : x.stage = .handing)
    (hlive : y.stage.isLive = true) :
    y.stage ≠ .handing ∧ y.link.outbox = (x.step net .proceed).link.outbox ∧
      (y.stage = .resting ∨ y.stage = .waiting →
        y.link.carrier = (x.step net .proceed).link.carrier) := by
  induction h with
  | handed =>
    refine ⟨?_, rfl, fun _ => rfl⟩
    simp only [System.step, proceed, hstage, enter]
    split <;> simp
  | @step y a hsince hno ih =>
    have hy := (hsince.reachable hx).sound
    obtain ⟨hhanding, houtbox, hcarrier⟩ := ih (isLive_of_step hy hlive)
    have hsame := outbox_step hy hlive fun ha => ⟨hno ha, hhanding⟩
    have hpaused (h : (y.step net a).stage ∈ [.handing, .resting, .waiting]) :=
      paused_of_step (fun ha => ⟨hno ha, hhanding⟩) h
    refine ⟨fun hnext => ?_, hsame.trans houtbox, fun hrest => ?_⟩
    · rcases (hpaused (by simp [hnext])).2 with heq | ⟨-, hwaiting⟩
      · exact hhanding (heq.trans hnext)
      · simp [hnext] at hwaiting
    · obtain ⟨hstreams, hbefore⟩ := hpaused (by rcases hrest with h | h <;> simp [h])
      refine hstreams.trans (hcarrier ?_)
      rcases hbefore with heq | ⟨hresting, -⟩
      · rwa [heq]
      · exact .inl hresting

/-- No action changes the settings. -/
theorem config_eq (h : Since net x y) : y.link.config = x.link.config := by
  induction h with
  | handed => exact config_step net x .proceed
  | step _ _ ih => exact (config_step net _ _).trans ih

end Since

/-- A loop about to hand on stays so until it goes on. -/
theorem handing_step {y : System σ} (hstage : y.stage = .handing) {a : Action}
    (ha : a ≠ .proceed) : (y.step net a).stage = .handing := by
  rcases a.isCallers_or with hcallers | rfl | ⟨r, rfl⟩
  · have hcalled := called_step net y hcallers
    generalize y.step net a = y' at hcalled ⊢
    cases hcalled with
    | aside | submitted | refused => exact hstage
  · exact absurd rfl ha
  · simp [step, hstage]

end System

namespace Reachable

variable {w₀ : σ} {y : System σ}

/-- A message in the outbox was left there by the last handing on, unless it was just taken. -/
theorem exists_since (h : Reachable net w₀ y) (hlive : y.stage.isLive = true)
    (hstage : y.stage ≠ .handing) (hleft : y.link.outbox ≠ []) :
    ∃ x, Reachable net w₀ x ∧ x.stage = .handing ∧ x.Since net y := by
  induction h with
  | opened hopened =>
    obtain ⟨s, hfresh, rfl⟩ := LinkState.exists_fresh hopened
    cases hfresh <;> simp at hleft
  | @step y a h ih =>
    by_cases hhanding : y.stage = .handing
    · by_cases ha : a = .proceed
      · subst ha
        exact ⟨y, h, hhanding, .handed⟩
      · exact absurd (System.handing_step hhanding ha) hstage
    · have hno : a = .proceed → y.stage ≠ .taking := by
        rintro rfl htaking
        exact hstage (by simp [System.step, System.proceed, htaking])
      rw [System.outbox_step h.sound hlive fun ha => ⟨hno ha, hhanding⟩] at hleft
      obtain ⟨x, hx, hxstage, hsince⟩ := ih (System.isLive_of_step h.sound hlive) hhanding hleft
      exact ⟨x, hx, hxstage, hsince.step hno⟩

/-- A message that is still in the outbox found no room when messages were handed over last. -/
theorem exists_full (h : Reachable net w₀ y) {t : Streams} (ht : y.link.carrier = .streams t)
    (hlive : y.stage.isLive = true) (hstage : y.stage ≠ .handing) {b : Builder}
    {rest : List Builder} (hleft : y.link.outbox = b :: rest) :
    ∃ x t₀, Reachable net w₀ x ∧ x.stage = .handing ∧ x.Since net y ∧
      x.link.carrier = .streams t₀ ∧
      (x.link.loaded t₀).Full b.size y.link.config.maxPeerBufferBytes := by
  obtain ⟨x, hx, hxstage, hsince⟩ := h.exists_since hlive hstage (by simp [hleft])
  obtain ⟨t₀, ht₀⟩ := hsince.exists_streams hx (Stage.ne_died hlive) ht
  obtain ⟨-, houtbox, -⟩ := hsince.kept hx hxstage hlive
  refine ⟨x, t₀, hx, hxstage, hsince, ht₀, ?_⟩
  rw [hsince.config_eq]
  rw [(System.handed_eq hxstage).1, hleft] at houtbox
  exact LinkState.full_handOn ht₀ houtbox.symm

/-- When the loop waits with a message left in its outbox, that message found no room at any peer
when messages were handed over last. Each peer was offered its bytes since, once, and has room now
exactly if its stream took all of them, or so many that the message stays within the limit. -/
theorem left_beside_room_iff (h : Reachable net w₀ y) (hstage : y.stage = .waiting) {t : Streams}
    (ht : y.link.carrier = .streams t) {b : Builder} {rest : List Builder}
    (hleft : y.link.outbox = b :: rest) :
    let limit := y.link.config.maxPeerBufferBytes
    ∃ x t₀, Reachable net w₀ x ∧ x.stage = .handing ∧ x.Since net y ∧
      x.link.carrier = .streams t₀ ∧ (x.link.loaded t₀).Full b.size limit ∧
      ∀ k p, (k, p) ∈ t.peers → ∃ p₀ o, (k, p₀) ∈ (x.link.loaded t₀).peers ∧
        o ∈ x.link.offers net ∧ o.Relieves p₀ p ∧
        (¬ p.Full b.size limit ↔
          o.bytes = p₀.unsent ∨ p₀.unsent + Frame.headerLength + b.size ≤ limit + o.bytes) := by
  intro limit
  have hlive : y.stage.isLive = true := by simp [hstage, Stage.isLive]
  obtain ⟨x, t₀, hx, hxstage, hsince, ht₀, hfull⟩ := h.exists_full ht hlive (by simp [hstage]) hleft
  refine ⟨x, t₀, hx, hxstage, hsince, ht₀, hfull, fun k p hmem => ?_⟩
  obtain ⟨-, -, hcarrier⟩ := hsince.kept hx hxstage hlive
  have ht' := (hcarrier (.inr hstage)).symm.trans ht
  rw [(System.handed_eq hxstage).2] at ht'
  obtain ⟨p₀, o, hp₀, ho, hrelieves⟩ :=
    LinkState.relieves_handOn ht₀ (hsince.alive hx hxstage hlive) ht' hmem
  exact ⟨p₀, o, hp₀, ho, hrelieves, hrelieves.not_full_iff b.size limit⟩

/-- A peer that had no room took its one frame while the next message stays in the outbox. -/
theorem left_beside_room_iff_of_run :
    ∃ y : System (List (Reply Nat)), Reachable Net.scripted [.ok 12] y ∧ y.stage = .waiting ∧
      ∃ t, y.link.carrier = .streams t ∧ y.link.outbox = [.bare] ∧
        ∃ x t₀, Reachable Net.scripted [.ok 12] x ∧ x.stage = .handing ∧
          x.Since Net.scripted y ∧ x.link.carrier = .streams t₀ ∧
          (x.link.loaded t₀).Full Builder.bare.size y.link.config.maxPeerBufferBytes ∧
          ∀ k p, (k, p) ∈ t.peers → ∃ p₀ o, (k, p₀) ∈ (x.link.loaded t₀).peers ∧
            o ∈ x.link.offers Net.scripted ∧ o.Relieves p₀ p ∧
            (¬ p.Full Builder.bare.size y.link.config.maxPeerBufferBytes ↔
              o.bytes = p₀.unsent ∨ p₀.unsent + Frame.headerLength + Builder.bare.size ≤
                y.link.config.maxPeerBufferBytes + o.bytes) := by
  obtain ⟨y, h, hy⟩ := exists_of_run Net.scripted [.ok 12] "tcp://127.0.0.1:0"
    "tcp://10.9.8.7:30010" { maxPeerBufferBytes := 0 }
    (Action.firstRound ++ [.submit .bare, .submit .bare, .proceed, .proceed, .proceed, .proceed])
    (fun y => y.stage == .waiting && y.link.outbox == [.bare] && y.link.carrier != .datagrams)
    (by cbv)
  simp only [Bool.and_eq_true, beq_iff_eq, bne_iff_ne, ne_eq] at hy
  obtain ⟨⟨hstage, hleft⟩, hcarrier⟩ := hy
  obtain ⟨t, ht⟩ := Carrier.exists_streams hcarrier
  exact ⟨y, h, hstage, t, ht, hleft, h.left_beside_room_iff hstage ht hleft⟩

/-- The loop waits with a message left in its outbox beside a peer with room for it. -/
theorem left_beside_free_peer :
    ∃ y : System (List (Reply Nat)), Reachable Net.scripted [.ok 12] y ∧ y.stage = .waiting ∧
      ∃ t b rest, y.link.carrier = .streams t ∧ y.link.outbox = b :: rest ∧
        ¬ t.Full b.size y.link.config.maxPeerBufferBytes := by
  let t : Streams := {
    remote := ⟨.v4 10 9 8 7, 30010⟩
    peers := [(Token.outbound, { conn := 0 })]
    lastServed := some Token.outbound }
  obtain ⟨y, h, hy⟩ := exists_of_run Net.scripted [.ok 12] "tcp://127.0.0.1:0"
    "tcp://10.9.8.7:30010" { maxPeerBufferBytes := 0 }
    (Action.firstRound ++ [.submit .bare, .submit .bare, .proceed, .proceed, .proceed, .proceed])
    (fun y => y.stage == .waiting && y.link.outbox == [.bare] && y.link.carrier == .streams t)
    (by cbv)
  simp only [Bool.and_eq_true, beq_iff_eq] at hy
  obtain ⟨⟨hstage, hleft⟩, ht⟩ := hy
  exact ⟨y, h, hstage, t, _, _, ht, hleft, by simp [t, Streams.Full, Peer.Full, Peer.unsent]⟩

end Reachable

/-! ## Messages given up -/

namespace LinkState

/-- The link when the message behind `before` in its queue is next. -/
def atTurn (s : LinkState σ) (before : List Builder) : LinkState σ :=
  before.foldl take { s with queue := [] }

/-- The loop gives a message up when it takes it. -/
def Drops (s : LinkState σ) (b : Builder) : Prop :=
  (s.take b).metrics.dropped = s.metrics.dropped + 1

instance (s : LinkState σ) (b : Builder) : Decidable (s.Drops b) :=
  inferInstanceAs (Decidable (_ = _))

def oldest (s : LinkState σ) (b : Builder) : Builder := s.outbox.headD b

theorem drops_iff {s : LinkState σ} {b : Builder} :
    s.Drops b ↔ s.config.pendingHighWaterMark ≤ s.outbox.length := by
  unfold Drops take
  split
  next hfull => simp [countDropped, hfull]
  next hspace => simp [hspace]

theorem atTurn_eq (s : LinkState σ) (before : List Builder) :
    ∃ pool, s.atTurn before = { s with
      pool := pool
      queue := []
      outbox := s.outbox ++ before.take s.room
      metrics.dropped := s.metrics.dropped + (before.length - s.room) } :=
  foldl_take { s with queue := [] } before

/-- A message is given up exactly if those before it fill the outbox. -/
theorem drops_atTurn_iff {s : LinkState σ}
    (hmark : s.outbox.length ≤ s.config.pendingHighWaterMark) (before : List Builder)
    (b : Builder) : (s.atTurn before).Drops b ↔ s.room ≤ before.length := by
  obtain ⟨pool, hturn⟩ := s.atTurn_eq before
  rw [drops_iff, hturn]
  simp only [room, List.length_append, List.length_take]
  omega

/-- Once messages are given up, the outbox stays as it is until the queue is empty. -/
theorem outbox_atTurn {s : LinkState σ} {before behind : List Builder} {b : Builder}
    (hqueue : s.queue = before ++ b :: behind) (hroom : s.room ≤ before.length) :
    (s.atTurn before).outbox = s.takeSubmissions.outbox := by
  obtain ⟨pool, hturn⟩ := s.atTurn_eq before
  obtain ⟨pool', htaken⟩ := s.takeSubmissions_eq
  simp [hturn, htaken, hqueue, List.take_append_of_le_length hroom]

end LinkState

namespace Reachable

variable {w₀ : σ} {y : System σ}

/-- When the loop takes the messages in the queue it gives up those that the outbox has no room for,
whatever the peers could take. That is right for each of them exactly if no peer has room for the
oldest message that waits then. Messages are given up only if there are more in the queue than the
outbox ever holds, or if a message found no room at any peer when messages were handed over
last. -/
theorem dropped_beside_room_iff (h : Reachable net w₀ y) (hstage : y.stage = .taking) {t : Streams}
    (ht : y.link.carrier = .streams t) :
    let s := y.link
    let limit := s.config.maxPeerBufferBytes
    (∀ before b behind, s.queue = before ++ b :: behind →
      (s.atTurn before).carrier = .streams t ∧
        ((s.atTurn before).Drops b ↔ s.room ≤ before.length)) ∧
    ((∀ before b behind, s.queue = before ++ b :: behind → (s.atTurn before).Drops b →
        t.Full ((s.atTurn before).oldest b).size limit) ↔
      ∀ b ∈ s.queue.drop s.room, t.Full ((y.step net .proceed).link.oldest b).size limit) ∧
    (s.room < s.queue.length →
      s.outbox = [] ∧ s.config.pendingHighWaterMark < s.queue.length ∧
        s.queue.length ≤ s.config.queueCapacity ∨
      ∃ b rest x t₀, s.outbox = b :: rest ∧ Reachable net w₀ x ∧ x.stage = .handing ∧
        x.Since net y ∧ x.link.carrier = .streams t₀ ∧ (x.link.loaded t₀).Full b.size limit) := by
  intro s limit
  have hlimited := h.limited (by simp [hstage])
  have hdrops := LinkState.drops_atTurn_iff hlimited.outbox
  have htaken : (y.step net .proceed).link = s.takeSubmissions := by
    simp [System.step, System.proceed, hstage, s]
  refine ⟨fun before b behind _ => ⟨?_, hdrops before b⟩, ⟨fun hright b hb => ?_, ?_⟩, ?_⟩
  · obtain ⟨pool, hturn⟩ := s.atTurn_eq before
    rw [hturn]
    exact ht
  -- what is given up stands in the queue behind the room of the outbox
  · obtain ⟨mid, behind, hsplit⟩ := List.append_of_mem hb
    have hqueue : s.queue = (s.queue.take s.room ++ mid) ++ b :: behind := by
      rw [List.append_assoc, ← hsplit, List.take_append_drop]
    have hpos := List.length_pos_of_mem hb
    rw [List.length_drop] at hpos
    have hroom : s.room ≤ (s.queue.take s.room ++ mid).length := by
      rw [List.length_append, List.length_take]
      omega
    have := hright _ b behind hqueue ((hdrops _ b).2 hroom)
    rwa [LinkState.oldest, LinkState.outbox_atTurn hqueue hroom, ← htaken] at this
  · intro hright before b behind hqueue hgone
    have hroom := (hdrops before b).1 hgone
    rw [LinkState.oldest, LinkState.outbox_atTurn hqueue hroom, ← htaken]
    refine hright b ?_
    rw [hqueue, List.drop_append_of_le_length hroom]
    simp
  · intro hmore
    cases hleft : s.outbox with
    | nil =>
      refine .inl ⟨rfl, ?_, hlimited.queue⟩
      simpa [LinkState.room, hleft] using hmore
    | cons b rest =>
      obtain ⟨x, t₀, hx⟩ :=
        h.exists_full ht (by simp [hstage, Stage.isLive]) (by simp [hstage]) hleft
      exact .inr ⟨b, rest, x, t₀, rfl, hx⟩

/-- Two messages are in the queue, and the outbox has room for one. -/
theorem dropped_beside_room_iff_of_run :
    ∃ y : System (List (Reply Nat)), Reachable Net.scripted [] y ∧ y.stage = .taking ∧
      ∃ t, y.link.carrier = .streams t ∧ y.link.room < y.link.queue.length ∧
        ((∀ before b behind, y.link.queue = before ++ b :: behind →
            (y.link.atTurn before).Drops b → t.Full ((y.link.atTurn before).oldest b).size
              y.link.config.maxPeerBufferBytes) ↔
          ∀ b ∈ y.link.queue.drop y.link.room, t.Full
            ((y.step Net.scripted .proceed).link.oldest b).size
              y.link.config.maxPeerBufferBytes) := by
  obtain ⟨y, h, hy⟩ := exists_of_run Net.scripted [] "tcp://127.0.0.1:0" "tcp://10.9.8.7:30010"
    { pendingHighWaterMark := 1 }
    (Action.firstRound ++ [.submit .bare, .submit .bare, .proceed])
    (fun y => y.stage == .taking && decide (y.link.room < y.link.queue.length) &&
      y.link.carrier != .datagrams) (by cbv)
  simp only [Bool.and_eq_true, beq_iff_eq, bne_iff_ne, ne_eq, decide_eq_true_eq] at hy
  obtain ⟨⟨hstage, hmore⟩, hcarrier⟩ := hy
  obtain ⟨t, ht⟩ := Carrier.exists_streams hcarrier
  obtain ⟨-, hiff, -⟩ := h.dropped_beside_room_iff hstage ht
  exact ⟨y, h, hstage, t, ht, hmore, hiff⟩

/-- The second of two messages is given up although the only peer has nothing to send. -/
theorem dropped_beside_free_peer :
    ∃ y : System (List (Reply Nat)), Reachable Net.scripted [] y ∧ y.stage = .taking ∧
      ∃ t before b behind, y.link.carrier = .streams t ∧
        y.link.queue = before ++ b :: behind ∧ (y.link.atTurn before).Drops b ∧
        ¬ t.Full ((y.link.atTurn before).oldest b).size y.link.config.maxPeerBufferBytes := by
  let t : Streams := {
    remote := ⟨.v4 10 9 8 7, 30010⟩
    peers := [(Token.outbound, { conn := 0 })] }
  obtain ⟨y, h, hy⟩ := exists_of_run Net.scripted [] "tcp://127.0.0.1:0" "tcp://10.9.8.7:30010"
    { pendingHighWaterMark := 1 }
    (Action.firstRound ++ [.submit .bare, .submit .bare, .proceed])
    (fun y => y.stage == .taking && y.link.queue == [.bare, .bare] &&
      decide ((y.link.atTurn [.bare]).Drops .bare) && y.link.carrier == .streams t) (by cbv)
  simp only [Bool.and_eq_true, beq_iff_eq, decide_eq_true_eq] at hy
  obtain ⟨⟨⟨hstage, hqueue⟩, hdrops⟩, ht⟩ := hy
  exact ⟨y, h, hstage, t, [.bare], .bare, [], ht, hqueue, hdrops,
    by simp [t, Streams.Full, Peer.Full, Peer.unsent]⟩

end Reachable

end ArmStream
