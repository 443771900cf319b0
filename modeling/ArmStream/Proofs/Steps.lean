import ArmStream.Proofs.Operations

/-!
# What an action does

Each action on a system does one of a few things, and `Transition` lists them. Callers change the
queue, the pool and the flags; the loop takes the queue over, makes moves on its streams, sends
datagrams, or gives up what is left. A property that each transition keeps holds in every
reachable system.

## Main definitions

- `Sends`: the sending of datagrams.
- `Called`: the things that an action of a caller can do.
- `Transition`: the things that an action can do.
- `System.Sound`: the loop is alive and its peers are in order until it ends.

## Main statements

- `System.called_step`: what an action of a caller does.
- `System.transition_step`: each action is a transition.
- `System.Sound.transition`: transitions keep the loop alive and its peers in order.
- `Reachable.induction`: what holds at the opening and is kept by transitions, always holds.
-/

namespace ArmStream

variable {σ : Type} {net : Net σ}

/-! ## Datagrams -/

/-- Messages were offered as datagrams; the list says what became of those that left the outbox.
Nothing is said of a loop that a call of the system ended. -/
inductive Sends (net : Net σ) : LinkState σ → List Recipient → LinkState σ → Prop where
  | refl (s : LinkState σ) : Sends net s [] s
  | died {s s' : LinkState σ} {log : List Recipient} : s'.loopDied = true → Sends net s log s'
  | waited {s s' : LinkState σ} {log : List Recipient} {bytes : Bytes} {e : IoError} {w : σ} :
      net.send bytes s.world = (.fail e, w) →
      Sends net { s with world := w } log s' → Sends net s log s'
  | sent {s s' : LinkState σ} {log : List Recipient} {b : Builder} {rest : List Builder}
      {bytes : Bytes} {n : Nat} {w : σ} :
      s.outbox = b :: rest → b.bytes = .ok bytes → net.send bytes s.world = (.ok n, w) →
      Sends net (({ s with world := w, outbox := rest }.countSent 1 n).release b) log s' →
      Sends net s (.datagram :: log) s'
  | failed {s s' : LinkState σ} {log : List Recipient} {b : Builder} {rest : List Builder}
      {bytes : Bytes} {e : IoError} {w : σ} :
      s.outbox = b :: rest → b.bytes = .ok bytes → net.send bytes s.world = (.fail e, w) →
      Sends net (({ s with world := w, outbox := rest }.countSendError.countDropped 1).release b)
        log s' →
      Sends net s (.nobody :: log) s'
  | withheld {s s' : LinkState σ} {log : List Recipient} {b : Builder} {rest : List Builder}
      {e : MessageError} :
      s.outbox = b :: rest → b.bytes = .error e →
      Sends net (({ s with outbox := rest }.countDropped 1).release b) log s' →
      Sends net s (.nobody :: log) s'

namespace Sends

variable {s s' : LinkState σ} {log : List Recipient}

theorem sendDatagrams (fuel : Nat) (s : LinkState σ) :
    Sends net s (s.sendings net fuel) (s.sendDatagrams net fuel) := by
  induction fuel generalizing s with
  | zero => exact .refl s
  | succ fuel ih =>
    unfold LinkState.sendings LinkState.sendDatagrams
    cases houtbox : s.outbox with
    | nil => exact .refl s
    | cons b rest =>
      dsimp only
      unfold LinkState.sendOldest
      cases hbytes : b.bytes with
      | error e => exact .withheld houtbox hbytes (ih _)
      | ok bytes =>
        rcases hsend : net.send bytes s.world with ⟨n | e | _, w⟩
        · simpa [hsend] using Sends.sent houtbox hbytes hsend (ih _)
        · by_cases hblocked : e = .wouldBlock
          · subst hblocked
            simpa [hsend] using Sends.waited hsend (.refl _)
          by_cases hagain : e = .interrupted
          · subst hagain
            simpa [hsend] using Sends.waited hsend (ih _)
          · simpa [hsend, hblocked, hagain] using Sends.failed houtbox hbytes hsend (ih _)
        · simpa [hsend] using Sends.died rfl

theorem carrier (h : Sends net s log s') (hlive : s'.loopDied = false) :
    s'.carrier = s.carrier := by
  induction h with
  | refl => rfl
  | died hdied => simp [hdied] at hlive
  | waited _ _ ih => exact ih hlive
  | sent _ _ _ _ ih => simpa [LinkState.countSent] using ih hlive
  | failed _ _ _ _ ih => simpa [LinkState.countSendError, LinkState.countDropped] using ih hlive
  | withheld _ _ _ ih => simpa [LinkState.countDropped] using ih hlive

theorem carrier_ne (h : Sends net s log s') (hlive : s'.loopDied = false)
    (hcarrier : s.carrier = .datagrams) (t : Streams) : s'.carrier ≠ .streams t := by
  rw [h.carrier hlive, hcarrier]
  exact Carrier.noConfusion

end Sends

/-! ## Transitions -/

def History.record (h : History) : Deed → History
  | .handed _ recipient => h.depart [recipient]
  | .offered offer => h.offer [offer]

namespace History

theorem depart_cons (h : History) (r : Recipient) (rs : List Recipient) :
    h.depart (r :: rs) = (h.depart [r]).depart rs := by
  cases hpending : h.pending <;> simp [depart, hpending]

theorem offer_cons (h : History) (o : Offer) (os : List Offer) :
    h.offer (o :: os) = (h.offer [o]).offer os := by
  simp [offer]

theorem foldl_record_offered (h : History) (os : List Offer) :
    (os.map Deed.offered).foldl record h = h.offer os := by
  induction os generalizing h with
  | nil => simp [offer]
  | cons o os ih => rw [List.map_cons, List.foldl_cons, ih, h.offer_cons o os, record]

theorem foldl_record_handed (h : History) {bs : List Builder} {rs : List Recipient}
    (hlen : rs.length ≤ bs.length) :
    (List.zipWith Deed.handed bs rs).foldl record h = h.depart rs := by
  induction rs generalizing h bs with
  | nil => simp [depart]
  | cons r rs ih =>
    obtain ⟨b, bs, rfl⟩ := List.exists_cons_of_length_pos (Nat.lt_of_lt_of_le (by simp) hlen)
    rw [List.zipWith_cons_cons, List.foldl_cons, ih _ (by simpa using hlen),
      h.depart_cons r rs, record]

end History

namespace Action

def isCallers : Action → Bool
  | .proceed => false
  | .wake _ => false
  | _ => true

/-- An action is one of a caller or one of the loop. -/
theorem isCallers_or (a : Action) : a.isCallers = true ∨ a = .proceed ∨ ∃ r, a = .wake r := by
  cases a with
  | proceed => exact .inr (.inl rfl)
  | wake r => exact .inr (.inr ⟨r, rfl⟩)
  | _ => exact .inl rfl

def isStop : Action → Bool
  | .stop => true
  | _ => false

def guardsAfter (n : Nat) : Action → Nat
  | .guard => n + 1
  | .dropGuard => n - 1
  | _ => n

end Action

inductive Called (net : Net σ) (y : System σ) : Action → System σ → Prop where
  /-- It has nothing to do with messages. -/
  | aside {a : Action} {w : σ} {pool : List Builder} {stopped died : Bool} {guards : Nat} :
      net.Quiets y.link.world w → stopped = (y.link.stopped || a.isStop) →
      guards = a.guardsAfter y.link.guards →
      Called net y a { y with link := { y.link with
        world := w, pool := pool, stopped := stopped, guards := guards, callerDied := died } }
  | submitted {b : Builder} {w : σ} {died : Bool} :
      b.finished = true → y.link.stopped = false → y.link.receiving = true →
      y.link.queue.length < y.link.config.queueCapacity → net.Quiet y.link.world w →
      Called net y (.submit b) { y with
        link := { y.link.queued b with world := w, callerDied := died }
        history := y.history.submit b (.ok ()) }
  | refused {b : Builder} {pool : List Builder} :
      b.finished = true → y.link.stopped = false → y.link.receiving = true →
      y.link.config.queueCapacity ≤ y.link.queue.length →
      Called net y (.submit b) { y with
        link := { y.link with pool := pool }.countDropped 1
        history := y.history.submit b (.error (.queueFull y.link.config.queueCapacity)) }

inductive Transition (net : Net σ) : System σ → System σ → Prop where
  /-- The loop goes on without doing anything. -/
  | passed {y : System σ} {next : Stage} :
      y.stage.isLive = true → next.isLive = true → Transition net y { y with stage := next }
  /-- Callers called the network, had to do with builders and guards, or stopped the loop. -/
  | aside {y : System σ} {w : σ} {pool : List Builder} {stopped died : Bool} {guards : Nat} :
      net.Quiets y.link.world w → (y.link.stopped = true → stopped = true) →
      Transition net y { y with link := { y.link with
        world := w, pool := pool, stopped := stopped, guards := guards, callerDied := died } }
  | submitted {y : System σ} {b : Builder} {w : σ} {died : Bool} :
      b.finished = true → y.link.stopped = false → y.link.receiving = true →
      y.link.queue.length < y.link.config.queueCapacity → net.Quiet y.link.world w →
      Transition net y { y with
        link := { y.link.queued b with world := w, callerDied := died }
        history := y.history.submit b (.ok ()) }
  | refused {y : System σ} {b : Builder} {pool : List Builder} :
      b.finished = true → y.link.stopped = false → y.link.receiving = true →
      y.link.config.queueCapacity ≤ y.link.queue.length →
      Transition net y { y with
        link := { y.link with pool := pool }.countDropped 1
        history := y.history.submit b (.error (.queueFull y.link.config.queueCapacity)) }
  | took {y : System σ} {pool : List Builder} {next : Stage} :
      y.stage.isLive = true → next.isLive = true →
      Transition net y {
        link := { y.link with
          pool := pool
          queue := []
          outbox := y.link.outbox ++ y.link.queue.take y.link.room
          metrics.dropped := y.link.metrics.dropped + (y.link.queue.length - y.link.room) }
        stage := next
        history := y.history.take (min y.link.room y.link.queue.length) }
  /-- The loop worked on its streams. -/
  | worked {y : System σ} {s : LinkState σ} {t t' : Streams} {log : List Deed} {next : Stage} :
      y.stage.isLive = true → next.isLive = true → s.loopDied = false →
      y.link.carrier = .streams t → s.carrier = .streams t' →
      Moves net ⟨y.link, t, []⟩ log ⟨s, t', []⟩ →
      Transition net y { link := s, stage := next, history := log.foldl .record y.history }
  | sent {y : System σ} {s : LinkState σ} {log : List Recipient} {next : Stage} :
      y.stage.isLive = true → next.isLive = true → s.loopDied = false →
      y.link.carrier = .datagrams → Sends net y.link log s →
      Transition net y { link := s, stage := next, history := y.history.depart log }
  | heard {y : System σ} {next : Stage} {w : σ} (n : Nat) :
      y.stage.isLive = true → next.isLive = true → y.link.carrier = .datagrams →
      net.Quiets y.link.world w →
      Transition net y { y with
        link := { y.link with world := w }.countReceived n, stage := next }
  | left {y : System σ} :
      y.stage.isLive = true →
      Transition net y { link := y.link.leave net, stage := .ended, history := y.history.giveUp }
  /-- A call of the system ended the thread of the loop. -/
  | died {y : System σ} {s : LinkState σ} {h : History} :
      y.stage.isLive = true → Transition net y { link := s, stage := .died, history := h }

theorem Called.transition {y y' : System σ} {a : Action} (h : Called net y a y') :
    Transition net y y' := by
  cases h with
  | aside hcalls hstopped => exact .aside hcalls fun h => by simp [hstopped, h]
  | submitted hfinished hstopped hthere hspace hquiet =>
    exact .submitted hfinished hstopped hthere hspace hquiet
  | refused hfinished hstopped hthere hfull => exact .refused hfinished hstopped hthere hfull

namespace System

/-- As long as the loop is there, it is alive and its peers are in order. When it has left, the link
is stopped and no message waits. -/
structure Sound (y : System σ) : Prop where
  alive : y.stage.isLive = true → y.link.loopDied = false
  streams : y.stage.isLive = true → ∀ t, y.link.carrier = .streams t → t.Sound
  stopped : y.stage = .ended → y.link.stopped = true
  emptied : y.stage = .ended → y.link.queue = [] ∧ y.link.outbox = []

theorem Sound.of_live {s : LinkState σ} {next : Stage} {h : History} (hnext : next.isLive = true)
    (halive : s.loopDied = false) (hstreams : ∀ t, s.carrier = .streams t → t.Sound) :
    System.Sound { link := s, stage := next, history := h } where
  alive _ := halive
  streams _ := hstreams
  stopped hend := by
    obtain rfl : next = .ended := hend
    simp [Stage.isLive] at hnext
  emptied hend := by
    obtain rfl : next = .ended := hend
    simp [Stage.isLive] at hnext

theorem Sound.transition {y y' : System σ} (hy : y.Sound) (h : Transition net y y') :
    y'.Sound := by
  cases h with
  | passed hlive hnext => exact .of_live hnext (hy.alive hlive) (hy.streams hlive)
  | aside _ hstopped =>
    exact ⟨hy.alive, hy.streams, fun hend => hstopped (hy.stopped hend), hy.emptied⟩
  | submitted _ hstopped =>
    refine ⟨hy.alive, hy.streams, hy.stopped, fun hend => ?_⟩
    simp [hy.stopped hend] at hstopped
  | refused => exact ⟨hy.alive, hy.streams, hy.stopped, hy.emptied⟩
  | took hlive hnext => exact .of_live hnext (hy.alive hlive) (hy.streams hlive)
  | worked hlive hnext halive ht ht' hmoves =>
    refine .of_live hnext halive fun t h => ?_
    obtain rfl := Carrier.streams.inj (ht'.symm.trans h)
    exact hmoves.sound halive (hy.streams hlive _ ht)
  | sent hlive hnext halive hcarrier hsends =>
    exact .of_live hnext halive fun t ht => absurd ht (hsends.carrier_ne halive hcarrier t)
  | heard n hlive hnext => exact .of_live hnext (hy.alive hlive) (hy.streams hlive)
  | left =>
    obtain ⟨pool, hleave⟩ := y.link.leave_eq net
    refine ⟨by simp [Stage.isLive], by simp [Stage.isLive], fun _ => ?_, fun _ => ?_⟩ <;>
      simp [hleave]
  | died => exact ⟨by simp [Stage.isLive], by simp [Stage.isLive], by simp, by simp⟩

/-! ## Every action is a transition -/

/-- What an action of a caller does. -/
theorem called_step (net : Net σ) (y : System σ) {a : Action} (ha : a.isCallers = true) :
    Called net y a (y.step net a) := by
  cases a with
  | submit b =>
    obtain ⟨pool, hrelease⟩ := y.link.exists_release b
    simp only [step]
    rcases y.link.submit_cases net b with ⟨-, h⟩ | ⟨-, -, h⟩ |
      ⟨hfinished, hstopped, hthere, hfull, h⟩ | ⟨hfinished, hstopped, hthere, hspace, h⟩
    · rw [h, hrelease]
      exact .aside .refl (by simp [Action.isStop]) rfl
    · rw [h, hrelease]
      exact .aside .refl (by simp [Action.isStop]) rfl
    · rw [h, hrelease]
      exact .refused hfinished hstopped hthere hfull
    · obtain ⟨w, died, hquiet, hwake⟩ := (y.link.queued b).exists_wake net
      rw [h, hwake]
      exact .submitted hfinished hstopped hthere hspace hquiet
  | acquire =>
    obtain ⟨pool, hpool⟩ := y.link.exists_acquire
    simp only [step, hpool]
    exact .aside .refl (by simp [Action.isStop]) rfl
  | guard => exact .aside .refl (by simp [Action.isStop]) rfl
  | dropGuard =>
    simp only [step, LinkState.dropGuard]
    split
    next =>
      obtain ⟨w, died, hquiet, hwake⟩ :=
        { y.link with guards := y.link.guards - 1 }.exists_wake net
      rw [hwake]
      exact .aside (.single hquiet) (by simp [Action.isStop]) rfl
    next => exact .aside .refl (by simp [Action.isStop]) rfl
  | stop =>
    obtain ⟨w, died, hquiet, hwake⟩ := { y.link with stopped := true }.exists_wake net
    simp only [step, LinkState.stop, hwake]
    exact .aside (.single hquiet) (by simp [Action.isStop]) rfl
  | proceed | wake => cases ha

theorem transition_enter {y y₁ : System σ} {s : LinkState σ} {next : Stage}
    (hlive : y.stage.isLive = true)
    (h : s.loopDied = false → Transition net y { y₁ with link := s, stage := next }) :
    Transition net y (y₁.enter net s next) := by
  unfold enter
  split
  next => exact .died hlive
  next halive => exact h (by simpa using halive)

theorem transition_handing {s : LinkState σ} {history : History}
    (hy : System.Sound ⟨s, .handing, history⟩) :
    Transition net ⟨s, .handing, history⟩ (proceed net ⟨s, .handing, history⟩) := by
  refine transition_enter rfl fun hend => ?_
  cases hcarrier : s.carrier with
  | streams t =>
    have hhandOn : s.handOn net = s.handOnStreams net t := by simp [LinkState.handOn, hcarrier]
    obtain ⟨t', ht', hmoves⟩ := Moves.handOnStreams net
      (hy.streams rfl t hcarrier) (hy.alive rfl) hcarrier
    rw [hhandOn] at hend ⊢
    -- the departures and the offers, as one list of deeds
    rw [← History.foldl_record_offered,
      ← history.foldl_record_handed (LinkState.length_departures_le hcarrier),
      ← List.foldl_append]
    exact .worked rfl rfl hend hcarrier ht' hmoves
  | datagrams =>
    have hhandOn : s.handOn net =
        s.sendDatagrams net (s.outbox.length + net.patience s.world) := by
      simp [LinkState.handOn, hcarrier]
    have hdepartures : s.departures net =
        s.sendings net (s.outbox.length + net.patience s.world) := by
      simp [LinkState.departures, hcarrier]
    have hoffers : s.offers net = [] := by simp [LinkState.offers, hcarrier]
    rw [hhandOn] at hend ⊢
    rw [hdepartures, hoffers]
    simpa [History.offer] using Transition.sent rfl rfl hend hcarrier (.sendDatagrams _ s)

theorem transition_reacting {s : LinkState σ} {e : Event} {rest : List Event} {history : History}
    (hy : System.Sound ⟨s, .reacting (e :: rest), history⟩) :
    Transition net ⟨s, .reacting (e :: rest), history⟩
      (proceed net ⟨s, .reacting (e :: rest), history⟩) := by
  refine transition_enter rfl fun hend => ?_
  cases hcarrier : s.carrier with
  | streams t =>
    obtain ⟨t', ht', hmoves⟩ := Moves.react net e
      (hy.streams rfl t hcarrier) hcarrier (hy.alive rfl)
    rw [← History.foldl_record_offered]
    exact .worked rfl rfl hend hcarrier ht' hmoves
  | datagrams =>
    have hanswers : s.answers net e = [] := by simp [LinkState.answers, hcarrier]
    rw [hanswers]
    rcases s.react_of_datagrams net e hcarrier with hsame | ⟨fuel, hreact⟩
    · simpa [hsame, History.offer] using Transition.passed rfl rfl
    · rw [hreact] at hend ⊢
      rcases s.discardDatagrams_cases net fuel with hdied | ⟨w, n, hcalls, heq⟩
      · simp [hdied] at hend
      · rw [heq]
        simpa [History.offer] using Transition.heard n rfl rfl hcarrier hcalls

theorem transition_reopening (s : LinkState σ) (history : History) :
    Transition net ⟨s, .reopening, history⟩ (proceed net ⟨s, .reopening, history⟩) := by
  refine transition_enter rfl fun hend => ?_
  cases hcarrier : s.carrier with
  | streams t =>
    obtain ⟨t', ht', hmoves⟩ := Moves.reopen net hcarrier
    exact .worked (y := ⟨s, .reopening, history⟩) rfl rfl hend hcarrier ht' hmoves
  | datagrams =>
    have hsame : s.reopen net = s := by simp [LinkState.reopen, hcarrier]
    rw [hsame]
    exact .passed rfl rfl

/-- The next stage of the loop is a transition. -/
theorem transition_proceed {y : System σ} (hy : y.Sound) :
    Transition net y (y.step net .proceed) := by
  obtain ⟨s, stage, history⟩ := y
  cases stage with
  | head =>
    simp only [step, proceed]
    split <;> exact .passed rfl rfl
  | taking =>
    obtain ⟨pool, htaken⟩ := s.takeSubmissions_eq
    simpa [step, proceed, htaken] using Transition.took rfl rfl
  | handing => exact transition_handing hy
  | resting =>
    simp only [step, proceed]
    split <;> exact .passed rfl rfl
  | waiting => exact .passed rfl rfl
  | reacting events =>
    cases events with
    | nil => exact .passed rfl rfl
    | cons e rest => exact transition_reacting hy
  | reopening => exact transition_reopening s history
  | leaving why => exact .left rfl
  | ended => exact .aside .refl id
  | died => exact .aside .refl id

theorem transition_step {y : System σ} (hy : y.Sound) (a : Action) :
    Transition net y (y.step net a) := by
  cases a with
  | submit | acquire | guard | dropGuard | stop => exact (called_step net y rfl).transition
  | proceed => exact transition_proceed hy
  | wake r =>
    simp only [step]
    split
    next hwaiting =>
      have hlive : y.stage.isLive = true := by simp [hwaiting, Stage.isLive]
      rcases r with events | e | _
      · exact .passed hlive rfl
      · by_cases hagain : e = .interrupted
        · subst hagain
          exact .passed hlive rfl
        · simp only [answer]
          exact .passed hlive rfl
      · exact .died hlive
    next => exact .aside .refl id

/-- A loop that goes on has been there before. -/
theorem isLive_of_step {y : System σ} (hs : y.Sound) {a : Action}
    (h : (y.step net a).stage.isLive = true) : y.stage.isLive = true := by
  have htransition : Transition net y (y.step net a) := transition_step hs a
  generalize y.step net a = y' at h htransition
  cases htransition with
  | aside | submitted | refused => exact h
  | passed hl | took hl | worked hl | sent hl | heard _ hl | left hl | died hl => exact hl

end System

namespace Reachable

variable {w₀ : σ} {y : System σ}

theorem sound_of_fresh {s : LinkState σ} (h : s.Fresh net w₀) : System.Sound { link := s } := by
  cases h with
  | datagrams => exact .of_live rfl rfl (by simp)
  | closed => exact .of_live rfl rfl fun t ht => Carrier.streams.inj ht ▸ .closed _ _
  | opening => exact .of_live rfl rfl fun t ht => Carrier.streams.inj ht ▸ .opening _ _

theorem sound (h : Reachable net w₀ y) : y.Sound := by
  induction h with
  | opened hopened =>
    obtain ⟨s, hfresh, rfl⟩ := LinkState.exists_fresh hopened
    exact sound_of_fresh hfresh
  | step a _ ih => exact ih.transition (System.transition_step ih a)

/-- What holds of each link at its opening and is kept by each transition, always holds. -/
theorem induction {P : System σ → Prop}
    (hfresh : ∀ s : LinkState σ, s.Fresh net w₀ → P { link := s })
    (hstep : ∀ y y' : System σ, Reachable net w₀ y → P y → Transition net y y' → P y')
    (h : Reachable net w₀ y) : P y := by
  induction h with
  | opened hopened =>
    obtain ⟨s, hs, rfl⟩ := LinkState.exists_fresh hopened
    exact hfresh s hs
  | step a h ih => exact hstep _ _ h ih (System.transition_step h.sound a)

end Reachable

end ArmStream
