import ArmStream.Proofs.Stages

/-!
# What the parts of a link do

A link has parts that do not work on streams: callers submit messages and take builders, the loop
empties the queue, reads datagrams and ends. Each of these has a few outcomes, which are listed
here, and changes a few fields. So has the opening of a link.

## Main definitions

- `LinkState.queued`: a link after the queue took a message.
- `LinkState.Fresh`: a link right after its opening.

## Main statements

- `LinkState.submit_cases`: submitting a message.
- `LinkState.takeSubmissions_eq`: emptying the queue.
- `LinkState.leave_eq`: the end of the loop.
- `LinkState.exists_fresh`: an opened link is fresh.
-/

namespace ArmStream

variable {σ : Type} {net : Net σ}

namespace LinkState

/-! ## The callers' side -/

theorem exists_wake (net : Net σ) (s : LinkState σ) :
    ∃ w died, net.Quiet s.world w ∧ s.wake net = { s with world := w, callerDied := died } := by
  unfold wake
  split
  next w h => exact ⟨w, true, .wake h, rfl⟩
  next w _ h => exact ⟨w, s.callerDied, .wake h, rfl⟩

@[simp] theorem wake_metrics (net : Net σ) (s : LinkState σ) :
    (s.wake net).metrics = s.metrics := by
  unfold wake
  split <;> rfl

def queued (s : LinkState σ) (b : Builder) : LinkState σ :=
  { s with queue := s.queue ++ [b] }.countSubmitted

/-- Submitting a message has one of four outcomes. -/
theorem submit_cases (net : Net σ) (s : LinkState σ) (b : Builder) :
    (b.finished = false ∧ s.submit net b = (s.release b, .error (.badMessage .notFinished))) ∨
    (b.finished ∧ (s.stopped ∨ s.receiving = false) ∧
      s.submit net b = (s.release b, .error .loopStopped)) ∨
    (b.finished ∧ s.stopped = false ∧ s.receiving ∧ s.config.queueCapacity ≤ s.queue.length ∧
      s.submit net b =
        ((s.release b).countDropped 1, .error (.queueFull s.config.queueCapacity))) ∨
    (b.finished ∧ s.stopped = false ∧ s.receiving ∧ s.queue.length < s.config.queueCapacity ∧
      s.submit net b = ((s.queued b).wake net, .ok ())) := by
  cases hfinished : b.finished with
  | false => simp [submit, hfinished]
  | true =>
    cases hstopped : s.stopped with
    | true => simp [submit, hfinished, hstopped]
    | false =>
      cases hreceiving : s.receiving with
      | false => simp [submit, enqueue, hfinished, hstopped, hreceiving]
      | true =>
        by_cases hfull : s.config.queueCapacity ≤ s.queue.length
        · simp [submit, enqueue, hfinished, hstopped, hreceiving, hfull]
        · simp [submit, enqueue, queued, hfinished, hstopped, hreceiving, hfull, Nat.lt_of_not_le]

/-- What an attempt to put a message into the queue comes to. -/
theorem enqueue_cases (s : LinkState σ) (b : Builder) :
    s.enqueue b = (s, .gone) ∨ s.enqueue b = (s, .full) ∨
      s.enqueue b = ({ s with queue := s.queue ++ [b] }, .queued) := by
  unfold enqueue
  split
  · exact .inl rfl
  · split
    · exact .inr (.inl rfl)
    · exact .inr (.inr rfl)

/-! ## Emptying the queue -/

/-- How many of the messages in the queue the outbox has room for. -/
def room (s : LinkState σ) : Nat := s.config.pendingHighWaterMark - s.outbox.length

theorem exists_release (s : LinkState σ) (b : Builder) :
    ∃ pool, s.release b = { s with pool := pool } := by
  unfold release
  split
  next => exact ⟨_, rfl⟩
  next => exact ⟨s.pool, rfl⟩

theorem exists_acquire (s : LinkState σ) : ∃ pool, s.acquire.2 = { s with pool := pool } := by
  unfold acquire
  split
  next => exact ⟨s.pool, rfl⟩
  next => exact ⟨_, rfl⟩

theorem room_take (s : LinkState σ) (b : Builder) : (s.take b).room = s.room - 1 := by
  unfold take
  split
  next hfull =>
    obtain ⟨pool, hrelease⟩ := (s.countDropped 1).exists_release b
    have hroom : s.room = 0 := Nat.sub_eq_zero_of_le hfull
    rw [hrelease, hroom]
    exact hroom
  next =>
    simp only [room, List.length_append, List.length_singleton]
    omega

theorem foldl_take (s : LinkState σ) (bs : List Builder) :
    ∃ pool, bs.foldl take s = { s with
      pool := pool
      outbox := s.outbox ++ bs.take s.room
      metrics.dropped := s.metrics.dropped + (bs.length - s.room) } := by
  induction bs generalizing s with
  | nil => exact ⟨s.pool, by simp⟩
  | cons b rest ih =>
    obtain ⟨pool, hpool⟩ := ih (s.take b)
    refine ⟨pool, ?_⟩
    rw [List.foldl_cons, hpool]
    by_cases hfull : s.config.pendingHighWaterMark ≤ s.outbox.length
    · obtain ⟨pool', hrelease⟩ := (s.countDropped 1).exists_release b
      have htake : s.take b = { s.countDropped 1 with pool := pool' } := by
        simp [take, hfull, hrelease]
      have hroom : s.room = 0 := Nat.sub_eq_zero_of_le hfull
      have hroom' : (s.take b).room = 0 := by rw [s.room_take, hroom]
      rw [hroom, hroom', htake]
      simp [countDropped, Nat.add_assoc, Nat.add_comm 1]
    · have htake : s.take b = { s with outbox := s.outbox ++ [b] } := by
        simp [take, hfull]
      have hroom : s.room = (s.take b).room + 1 := by
        have hspace : 0 < s.room := Nat.sub_pos_of_lt (Nat.lt_of_not_le hfull)
        rw [s.room_take]
        omega
      simp [htake, hroom]

/-- The outbox takes as many messages as it has room for; the others are given up. -/
theorem takeSubmissions_eq (s : LinkState σ) :
    ∃ pool, s.takeSubmissions = { s with
      pool := pool
      queue := []
      outbox := s.outbox ++ s.queue.take s.room
      metrics.dropped := s.metrics.dropped + (s.queue.length - s.room) } :=
  foldl_take { s with queue := [] } s.queue

/-! ## Handing messages on -/

/-- The oldest message leaves the outbox, and the queue stays as it is. -/
theorem exists_oldest_of_handOver? {s s' : LinkState σ} {t t' : Streams}
    (h : s.handOver? t = some (s', t')) : ∃ b, s.outbox = b :: s'.outbox ∧ s'.queue = s.queue := by
  unfold handOver? at h
  cases houtbox : s.outbox with
  | nil => simp [houtbox] at h
  | cons b rest =>
    cases hturn : t.turn? b.size s.config.maxPeerBufferBytes with
    | none => simp [houtbox, hturn] at h
    | some r =>
      simp only [houtbox, hturn] at h
      refine ⟨b, ?_⟩
      split at h <;> obtain ⟨rfl, -⟩ := by simpa using h
      · simp
      · simp [countDropped]

theorem length_outbox_of_handOver? {s s' : LinkState σ} {t t' : Streams}
    (h : s.handOver? t = some (s', t')) : s'.outbox.length < s.outbox.length := by
  obtain ⟨b, houtbox, -⟩ := exists_oldest_of_handOver? h
  simp [houtbox]

theorem length_recipients_le (fuel : Nat) (s : LinkState σ) (t : Streams) :
    (recipients fuel s t).length ≤ s.outbox.length := by
  induction fuel generalizing s t with
  | zero => simp [recipients]
  | succ fuel ih =>
    unfold recipients
    split
    next => simp
    next s' t' h => exact Nat.lt_of_le_of_lt (ih s' t') (length_outbox_of_handOver? h)

/-- No more messages leave the outbox than there are. -/
theorem length_departures_le {s : LinkState σ} {t : Streams} (h : s.carrier = .streams t) :
    (s.departures net).length ≤ s.outbox.length := by
  simpa [departures, h] using length_recipients_le s.outbox.length s t

/-! ## Reading datagrams -/

theorem discardDatagrams_cases (net : Net σ) (fuel : Nat) (s : LinkState σ) :
    (s.discardDatagrams net fuel).loopDied = true ∨
    ∃ w n, net.Quiets s.world w ∧
      s.discardDatagrams net fuel = { s with world := w }.countReceived n := by
  induction fuel generalizing s with
  | zero => exact .inr ⟨s.world, 0, .refl, rfl⟩
  | succ fuel ih =>
    unfold discardDatagrams
    split
    next bytes w h =>
      rcases ih ({ s with world := w }.countReceived bytes.size) with hdied | ⟨w', n, hcalls, heq⟩
      · exact .inl hdied
      · refine .inr ⟨w', bytes.size + n, .head (.receive h) hcalls, ?_⟩
        rw [heq]
        simp [countReceived, Nat.add_assoc]
    next w h =>
      rcases ih { s with world := w } with hdied | ⟨w', n, hcalls, heq⟩
      · exact .inl hdied
      · exact .inr ⟨w', n, .head (.receive h) hcalls, heq⟩
    next w h =>
      rcases ih { s with world := w } with hdied | ⟨w', n, hcalls, heq⟩
      · exact .inl hdied
      · exact .inr ⟨w', n, .head (.receive h) hcalls, heq⟩
    next w _ _ h => exact .inr ⟨w, 0, .single (.receive h), rfl⟩
    next => exact .inl rfl

theorem react_of_datagrams (net : Net σ) (s : LinkState σ) (e : Event)
    (h : s.carrier = .datagrams) :
    s.react net e = s ∨ ∃ fuel, s.react net e = s.discardDatagrams net fuel := by
  unfold react
  simp only [h]
  split
  next => exact .inl rfl
  next =>
    split
    next => exact .inr ⟨_, rfl⟩
    next => exact .inl rfl

/-! ## The end of the loop -/

theorem exists_foldl_release (s : LinkState σ) (bs : List Builder) :
    ∃ pool, bs.foldl release s = { s with pool := pool } := by
  induction bs generalizing s with
  | nil => exact ⟨s.pool, rfl⟩
  | cons b rest ih =>
    obtain ⟨pool, hrelease⟩ := s.exists_release b
    rw [List.foldl_cons, hrelease]
    exact ih _

/-- The end of the loop counts all that was not sent as dropped. -/
theorem leave_eq (net : Net σ) (s : LinkState σ) :
    ∃ pool, s.leave net = { s with
      world := net.closeAll s.world
      pool := pool
      queue := []
      outbox := []
      receiving := false
      stopped := true
      metrics.dropped :=
        s.metrics.dropped + (s.outbox.length + s.queue.length + s.unsentFrames) } := by
  obtain ⟨pool, hrelease⟩ := exists_foldl_release
    { s with stopped := true, queue := [], outbox := [] } (s.queue ++ s.outbox)
  refine ⟨pool, ?_⟩
  simp only [leave, giveUp, hrelease, vanish, countDropped]
  rfl

/-! ## The opened link -/

/-- A link right after its opening in the world `w₀`. -/
inductive Fresh (net : Net σ) (w₀ : σ) : LinkState σ → Prop where
  | datagrams {w : σ} {config : LinkConfig} {near : SocketAddress} :
      net.Quiets w₀ w →
      Fresh net w₀ {
        world := w, config := config, boundAddress := near, carrier := .datagrams }
  | closed {w : σ} {config : LinkConfig} {near remote : SocketAddress} {due : Nat} :
      net.Quiets w₀ w →
      Fresh net w₀ {
        world := w
        config := config
        boundAddress := near
        carrier := .streams { remote := remote, reopenAt := some due } }
  | opening {w₁ w₂ w : σ} {config : LinkConfig} {near remote : SocketAddress} {conn : Conn} :
      net.Quiets w₀ w₁ → net.connect remote w₁ = (.ok conn, w₂) → net.Quiets w₂ w →
      Fresh net w₀ {
        world := w
        config := config
        boundAddress := near
        carrier := .streams { remote := remote, connecting := some conn } }

theorem quiets_chain {α β : Type} {r : Reply α × σ} {rest : α → σ → Reply β × σ} {w₀ : σ}
    (h : net.Quiets w₀ r.2) (hrest : ∀ a w, net.Quiets w (rest a w).2) :
    net.Quiets w₀ (Reply.chain r rest).2 := by
  unfold Reply.chain
  split
  next a w => exact h.trans (hrest a w)
  next => exact h
  next => exact h

theorem quiets_prepare (net : Net σ) (channel : Channel) (w : σ) :
    net.Quiets w (prepare net channel w).2 := by
  refine quiets_chain (.single (.newPoll rfl)) fun _ _ => ?_
  refine quiets_chain (.single (.newWaker rfl)) fun _ _ => ?_
  refine quiets_chain (.single (.boundAddress rfl)) fun _ w => ?_
  refine quiets_chain ?_ fun _ _ => .refl
  unfold watch
  split
  next => exact .single (.register rfl)
  next =>
    refine quiets_chain (.single (.register rfl)) fun _ _ => ?_
    split
    next => exact .single (.register rfl)
    next => exact .refl

/-- A channel for datagrams has no stream; one for streams may have opened its own. -/
theorem channel_cases {near far : String} {channel : Channel} {w₀ w : σ}
    (h : Channel.openBetween net near far w₀ = (.done channel, w)) :
    channel.outbound = none ∧ net.Quiets w₀ w ∨
    ∃ conn w₁, channel.near.scheme = .tcp ∧ channel.outbound = some conn ∧ net.Quiets w₀ w₁ ∧
      net.connect channel.remote w₁ = (.ok conn, w) := by
  unfold Channel.openBetween at h
  split at h
  next => simp at h
  next near far _ =>
    split at h
    next => simp at h
    next a b _ =>
      unfold Channel.connect at h
      split at h
      next => simp at h
      next => simp at h
      next w₁ hbind =>
        split at h
        next hscheme =>
          split at h
          next => simp at h
          next e w₂ hconnect =>
            obtain ⟨rfl, rfl⟩ := by simpa using h
            exact .inl ⟨rfl, (Relation.ReflTransGen.single (.bind hbind)).tail (.connect hconnect)⟩
          next conn w₂ hconnect =>
            obtain ⟨rfl, rfl⟩ := by simpa using h
            exact .inr ⟨conn, w₁, hscheme, rfl, .single (.bind hbind), hconnect⟩
        next =>
          split at h
          next => simp at h
          next => simp at h
          next w₂ haim =>
            obtain ⟨rfl, rfl⟩ := by simpa using h
            exact .inl ⟨rfl, (Relation.ReflTransGen.single (.bind hbind)).tail (.aim haim)⟩

theorem fresh_of_ofChannel {near far : String} {config : LinkConfig} {channel : Channel}
    {w₀ w w' : σ} {s : LinkState σ}
    (hchannel : Channel.openBetween net near far w₀ = (.done channel, w))
    (hlink : ofChannel net channel config w = (.done s, w')) : s.Fresh net w₀ := by
  have hquiets := quiets_prepare net channel w
  unfold ofChannel at hlink
  split at hlink
  next => simp at hlink
  next => simp at hlink
  next bound w₁ hprepare =>
    rw [hprepare] at hquiets
    obtain ⟨rfl, rfl⟩ := by simpa using hlink
    rcases channel_cases hchannel with ⟨hnone, hopen⟩ | ⟨conn, w₂, htcp, hsome, hopen, hconnect⟩
    · cases hscheme : channel.near.scheme with
      | udp => simpa [carrierOf, hscheme] using Fresh.datagrams (hopen.trans hquiets)
      | tcp => simpa [carrierOf, hscheme, hnone] using Fresh.closed (hopen.trans hquiets)
    · simpa [carrierOf, htcp, hsome] using Fresh.opening hopen hconnect hquiets

theorem exists_fresh {near far : String} {config : LinkConfig} {w₀ : σ} {y : System σ}
    (h : System.opened? net near far config w₀ = some y) :
    ∃ s : LinkState σ, s.Fresh net w₀ ∧ y = { link := s } := by
  unfold System.opened? at h
  split at h
  next channel w hchannel =>
    split at h
    next s w' hlink => exact ⟨s, fresh_of_ofChannel hchannel hlink, (Option.some.inj h).symm⟩
    next => simp at h
  next => simp at h

end LinkState

end ArmStream
