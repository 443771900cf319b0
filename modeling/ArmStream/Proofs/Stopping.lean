import Mathlib
import ArmStream.Proofs.Departures
import ArmStream.Proofs.Pool

/-!
# A stop is final

Once a loop was stopped, by a caller or at its own end, it stays so. Messages that are submitted
later are refused, and change nothing but the pool. When a loop that was stopped comes to the start
of a round it leaves its rounds and ends, in two steps: it takes no message, hands none on and
writes nothing. At its end, whatever led to it, each message is counted as dropped that is in the
queue, in the outbox or in the buffer of a peer, if the stream has not taken all of its frame.

## Main definitions

- `System.Refuses`: a message is refused without any further effect.
- `System.Rests`, `System.GaveUp`: a loop that did nothing, and one that did nothing but end.
- `System.leftover`: the messages that the end of the loop gives up.

## Main statements

- `System.stopped_run`: the flag is never cleared.
- `System.WindsUp.step`, `System.windsUp_run`: the last two steps of a loop that was stopped.
- `Reachable.nodup_leftover`, `Reachable.length_leftover`: no message is counted twice.
- `Reachable.stopping_is_final`: all this in each run.
-/

namespace ArmStream

variable {σ : Type} {net : Net σ}

/-! ## The flag -/

namespace System

variable {y z : System σ} {a : Action}

theorem stopped_of_step (net : Net σ) (h : y.link.stopped = true) (a : Action) :
    (y.step net a).link.stopped = true := by
  rcases a.isCallers_or with hcallers | rfl | ⟨r, rfl⟩
  · have hcalled := called_step net y hcallers
    generalize y.step net a = y' at hcalled ⊢
    cases hcalled with
    | aside _ hflag => simp [hflag, h]
    | submitted | refused => exact h
  · exact (returns_proceed net y).stopped h
  · exact (returns_wake net y r).stopped h

/-- The flag is never cleared. -/
theorem stopped_run (net : Net σ) (h : y.link.stopped = true) (actions : List Action) :
    (y.run net actions).link.stopped = true := by
  induction actions generalizing y with
  | nil => exact h
  | cons a rest ih => exact ih (stopped_of_step net h a)

/-! ## Submitting -/

/-- A message that is submitted now is refused. No counter changes, and no message is put into the
queue. -/
structure Refuses (net : Net σ) (y : System σ) (b : Builder) : Prop where
  answer : (y.link.submit net b).2 =
    .error (if b.finished then .loopStopped else .badMessage .notFinished)
  unchanged : ∃ pool, y.step net (.submit b) = { y with link := { y.link with pool := pool } }

theorem refuses_of_stopped (net : Net σ) (h : y.link.stopped = true) (b : Builder) :
    y.Refuses net b := by
  obtain ⟨pool, hrelease⟩ := y.link.exists_release b
  cases hfinished : b.finished with
  | false =>
    have hsubmit : y.link.submit net b = (y.link.release b, .error (.badMessage .notFinished)) := by
      simp [LinkState.submit, hfinished]
    exact ⟨by simp [hsubmit, hfinished], pool, by simp [step, hsubmit, hrelease, History.submit]⟩
  | true =>
    have hsubmit : y.link.submit net b = (y.link.release b, .error .loopStopped) := by
      simp [LinkState.submit, hfinished, h]
    exact ⟨by simp [hsubmit, hfinished], pool, by simp [step, hsubmit, hrelease, History.submit]⟩

end System

/-! ## The last steps of a loop -/

def Action.isProceed : Action → Bool
  | .proceed => true
  | _ => false

theorem Action.eq_proceed {a : Action} (h : a.isProceed = true) : a = .proceed := by
  cases a with
  | proceed => rfl
  | _ => cases h

/-- The stage of a loop that was stopped at the start of a round, after so many of its steps. -/
def Stage.afterStop : Nat → Stage
  | 0 => .head
  | 1 => .leaving .stopRequested
  | _ + 2 => .ended

namespace System

variable {y z : System σ} {a : Action} {n : Nat}

/-- Between the two systems nothing happened to messages, streams and counters, and nothing was
written. Callers may have had to do with builders and guards. -/
structure Rests (net : Net σ) (y z : System σ) : Prop where
  calls : net.Quiets y.link.world z.link.world
  link : z.link = { y.link with
    world := z.link.world
    pool := z.link.pool
    guards := z.link.guards
    callerDied := z.link.callerDied }
  history : z.history = y.history

/-- The loop ended between the two systems. It gave up all that waited and counted it as dropped,
and nothing else happened. -/
structure GaveUp (net : Net σ) (y z : System σ) : Prop where
  stage : z.stage = .ended
  calls : net.Quiets y.link.world z.link.world
  link : z.link = { y.link with
    world := z.link.world
    pool := z.link.pool
    guards := z.link.guards
    callerDied := z.link.callerDied
    queue := []
    outbox := []
    receiving := false
    stopped := true
    metrics.dropped := y.link.metrics.dropped + y.link.backlog }
  history : z.history = y.history.giveUp

theorem Rests.refl (net : Net σ) (y : System σ) : y.Rests net y := ⟨.refl, rfl, rfl⟩

/-- When the loop was stopped, callers have to do with builders and guards only. -/
theorem aside_of_stopped (net : Net σ) (hstopped : z.link.stopped = true) (ha : a.isProceed = false)
    (hstage : z.stage ≠ .waiting) :
    ∃ w pool guards died, net.Quiets z.link.world w ∧ z.step net a = { z with link := { z.link with
      world := w, pool := pool, guards := guards, callerDied := died } } := by
  rcases a.isCallers_or with hcallers | rfl | ⟨r, rfl⟩
  · have hcalled := called_step net z hcallers
    generalize z.step net a = z' at hcalled ⊢
    cases hcalled with
    | @aside _ w pool stopped died guards hcalls hflag =>
      obtain rfl : stopped = z.link.stopped := by simp [hflag, hstopped]
      exact ⟨w, pool, guards, died, hcalls, rfl⟩
    | submitted _ hrunning => simp [hstopped] at hrunning
    | refused _ hrunning => simp [hstopped] at hrunning
  · cases ha
  · refine ⟨z.link.world, z.link.pool, z.link.guards, z.link.callerDied, .refl, ?_⟩
    simp only [step, if_neg hstage]

theorem Rests.aside (h : y.Rests net z) {w : σ} {pool : List Builder} {guards : Nat} {died : Bool}
    (hcalls : net.Quiets z.link.world w) :
    y.Rests net { z with link := { z.link with
      world := w, pool := pool, guards := guards, callerDied := died } } where
  calls := h.calls.trans hcalls
  link := congrArg (fun s : LinkState σ =>
    { s with world := w, pool := pool, guards := guards, callerDied := died }) h.link
  history := h.history

theorem GaveUp.aside (h : y.GaveUp net z) {w : σ} {pool : List Builder} {guards : Nat}
    {died : Bool} (hcalls : net.Quiets z.link.world w) :
    y.GaveUp net { z with link := { z.link with
      world := w, pool := pool, guards := guards, callerDied := died } } where
  stage := h.stage
  calls := h.calls.trans hcalls
  link := congrArg (fun s : LinkState σ =>
    { s with world := w, pool := pool, guards := guards, callerDied := died }) h.link
  history := h.history

/-- The end of the loop gives up all that waits. -/
theorem Rests.leave (h : y.Rests net z) {why : LinkState.Departure}
    (hstage : z.stage = .leaving why) : y.GaveUp net (z.step net .proceed) := by
  obtain ⟨pool, hleave⟩ := z.link.leave_eq net
  have hstep : z.step net .proceed =
      { link := z.link.leave net, stage := .ended, history := z.history.giveUp } := by
    simp [step, proceed, hstage]
  have hbacklog : z.link.outbox.length + z.link.queue.length + z.link.unsentFrames =
      y.link.backlog := by
    rw [h.link, LinkState.backlog, Nat.add_comm y.link.queue.length]
    rfl
  rw [hstep, hleave, hbacklog]
  refine ⟨rfl, h.calls.tail .closeAll, ?_, by rw [h.history]⟩
  rw [h.link]

/-- Behind its end the loop does nothing. -/
theorem GaveUp.step (h : y.GaveUp net z) (a : Action) : y.GaveUp net (z.step net a) := by
  cases ha : a.isProceed with
  | false =>
    have hstopped : z.link.stopped = true := by rw [h.link]
    obtain ⟨w, pool, guards, died, hcalls, hstep⟩ :=
      aside_of_stopped net hstopped ha (by simp [h.stage])
    rw [hstep]
    exact h.aside hcalls
  | true =>
    obtain rfl := Action.eq_proceed ha
    have hstep : z.step net .proceed = z := by simp [System.step, proceed, h.stage]
    rwa [hstep]

theorem GaveUp.run (h : y.GaveUp net z) (actions : List Action) :
    y.GaveUp net (z.run net actions) := by
  induction actions generalizing z with
  | nil => exact h
  | cons a rest ih => exact ih (h.step a)

/-- The loop of `y`, which was stopped at the start of a round, has done so many steps until
`z`. -/
structure WindsUp (net : Net σ) (y : System σ) (n : Nat) (z : System σ) : Prop where
  stage : z.stage = Stage.afterStop n
  rests : n < 2 → y.Rests net z
  gaveUp : 2 ≤ n → y.GaveUp net z

/-- Each step of the loop brings it nearer to its end, and nothing else does. -/
theorem WindsUp.step (hstopped : y.link.stopped = true) (h : y.WindsUp net n z) (a : Action) :
    y.WindsUp net (n + a.isProceed.toNat) (z.step net a) := by
  by_cases hend : 2 ≤ n
  · obtain ⟨n, rfl⟩ := Nat.exists_eq_add_of_le' hend
    have hgaveUp := (h.gaveUp hend).step a
    have hcount : n + 2 + a.isProceed.toNat = n + a.isProceed.toNat + 2 := by omega
    rw [hcount]
    exact ⟨hgaveUp.stage, fun hlt => by omega, fun _ => hgaveUp⟩
  have hrests := h.rests (by omega)
  have hstopped' : z.link.stopped = true := by rw [hrests.link]; exact hstopped
  have hstage := h.stage
  cases ha : a.isProceed with
  | false =>
    have hwaiting : z.stage ≠ .waiting := by
      rw [hstage]
      unfold Stage.afterStop
      split <;> simp
    obtain ⟨w, pool, guards, died, hcalls, hstep⟩ :=
      aside_of_stopped net hstopped' ha hwaiting
    rw [hstep]
    exact ⟨hstage, fun _ => hrests.aside hcalls, fun hle => absurd hle hend⟩
  | true =>
    obtain rfl := Action.eq_proceed ha
    match n with
    | 0 =>
      have hstep : z.step net .proceed = { z with stage := .leaving .stopRequested } := by
        simp [System.step, proceed, hstage, Stage.afterStop, hstopped']
      rw [hstep]
      exact ⟨rfl, fun _ => ⟨hrests.calls, hrests.link, hrests.history⟩, by simp⟩
    | 1 =>
      have hgaveUp := hrests.leave hstage
      exact ⟨hgaveUp.stage, by simp, fun _ => hgaveUp⟩
    | n + 2 => omega

theorem windsUp_run (net : Net σ) (hstopped : y.link.stopped = true) (hstage : y.stage = .head)
    (actions : List Action) :
    y.WindsUp net (actions.countP Action.isProceed) (y.run net actions) := by
  induction actions using List.reverseRecOn with
  | nil => exact ⟨hstage, fun _ => .refl net y, by simp⟩
  | append_singleton actions a ih =>
    have hcount : (actions ++ [a]).countP Action.isProceed =
        actions.countP Action.isProceed + a.isProceed.toNat := by
      cases ha : a.isProceed <;> simp [List.countP_append, ha]
    rw [run_concat, hcount]
    exact ih.step hstopped a

end System

/-! ## The builders -/

/-- Builders are given back one after the other until the pool is full. -/
theorem LinkState.pool_foldl_release (s : LinkState σ) (bs : List Builder)
    (hbounded : s.pool.length ≤ s.config.maxPooledBuilders) :
    (bs.foldl release s).pool =
      ((bs.take (s.config.maxPooledBuilders - s.pool.length)).map Builder.reset).reverse ++
        s.pool := by
  induction bs generalizing s with
  | nil => simp
  | cons b rest ih =>
    rw [List.foldl_cons]
    by_cases hroom : s.pool.length < s.config.maxPooledBuilders
    · have hrelease : s.release b = { s with pool := b.reset :: s.pool } := if_pos hroom
      obtain ⟨k, hk⟩ : ∃ k, s.config.maxPooledBuilders - s.pool.length = k + 1 :=
        Nat.exists_eq_add_one.2 (Nat.sub_pos_of_lt hroom)
      have hk' : s.config.maxPooledBuilders - (s.pool.length + 1) = k := by omega
      rw [hrelease, ih { s with pool := b.reset :: s.pool } hroom, hk]
      simp [hk']
    · have hrelease : s.release b = s := if_neg hroom
      have hfull : s.config.maxPooledBuilders - s.pool.length = 0 := by omega
      rw [hrelease, ih s hbounded, hfull]
      simp

theorem LinkState.pool_leave (net : Net σ) (s : LinkState σ)
    (hbounded : s.pool.length ≤ s.config.maxPooledBuilders) :
    (s.leave net).pool =
      (((s.queue ++ s.outbox).take (s.config.maxPooledBuilders - s.pool.length)).map
        Builder.reset).reverse ++ s.pool :=
  pool_foldl_release { s with stopped := true, queue := [], outbox := [] } (s.queue ++ s.outbox)
    hbounded

/-! ## The messages that are given up -/

def History.unsentTo (h : History) (r : Recording σ) (c : Conn) : List Nat :=
  (h.messagesTo c).drop (h.account r c).completed

theorem History.length_unsentTo (h : History) (r : Recording σ) (c : Conn) :
    (h.unsentTo r c).length = (h.account r c).incomplete := by
  simp [unsentTo, Account.incomplete, account, framesTo]

/-- The messages that were handed to peers and that their streams have not taken completely. -/
def History.unsentOn (h : History) (r : Recording σ) : Carrier → List Nat
  | .streams t => t.peers.flatMap fun q => h.unsentTo r q.2.conn
  | .datagrams => []

/-- The messages in the queue, in the outbox and in the buffers of peers, by their numbers. -/
def System.leftover (y : System (Recording σ)) : List Nat :=
  y.history.queued ++ y.history.pending ++ y.history.unsentOn y.link.world y.link.carrier

namespace Delivering

variable {h : History} {r : Recording σ} {t : Streams} {queue outbox : List Builder}

theorem length_unsentOn (hd : Delivering h r t []) :
    (h.unsentOn r (.streams t)).length = t.unsentFrames := by
  rw [History.unsentOn, List.length_flatMap, Streams.unsentFrames]
  refine congrArg List.sum (List.map_congr_left fun q hq => ?_)
  exact (h.length_unsentTo r q.2.conn).trans (hd.settled q hq (by simp)).length_frameEnds.symm

/-- No message is in the buffers of two peers. -/
theorem nodup_unsentOn (hd : Delivering h r t []) (ho : h.Ordered queue outbox) :
    (h.unsentOn r (.streams t)).Nodup := by
  have hconns : t.peers.Pairwise fun q q' => q.2.conn ≠ q'.2.conn := by
    have hnodup := (List.nodup_append.1 hd.nodup).2.1
    exact List.pairwise_map.1 hnodup
  refine List.nodup_flatMap.2 ⟨fun q _ => ?_, hconns.imp fun hne m hm hm' => ?_⟩
  · have hline := (h.messagesTo_sublist q.2.conn).nodup (ho.ascending.imp Nat.ne_of_lt)
    exact hline.sublist (List.drop_sublist _ _)
  · exact hne (ho.stream_unique (List.mem_of_mem_drop hm) (List.mem_of_mem_drop hm'))

end Delivering

theorem History.mem_handOvers_of_unsentOn {h : History} {r : Recording σ} {carrier : Carrier}
    {m : Nat} (hm : m ∈ h.unsentOn r carrier) : m ∈ h.handOvers.map HandOver.message := by
  cases carrier with
  | datagrams => cases hm
  | streams t =>
    obtain ⟨q, -, hq⟩ := List.mem_flatMap.1 hm
    obtain ⟨o, ho, rfl⟩ := List.mem_map.1 (List.mem_of_mem_drop hq)
    exact List.mem_map_of_mem (List.mem_filter.1 ho).1

namespace Reachable

variable {w₀ : σ} {y : System (Recording σ)}

/-- The end of the loop counts as many messages as there are. -/
theorem length_leftover (h : Reachable net.recorded (.fresh w₀) y) (hdied : y.stage ≠ .died) :
    y.leftover.length = y.link.backlog := by
  have ho := h.ordered hdied
  have hunsent : (y.history.unsentOn y.link.world y.link.carrier).length = y.link.unsentFrames := by
    rw [LinkState.unsentFrames_eq]
    cases ht : y.link.carrier with
    | datagrams => rfl
    | streams t => exact (h.delivering hdied ht).length_unsentOn
  have hqueue := congrArg List.length ho.queue
  have houtbox := congrArg List.length ho.outbox
  rw [List.length_map] at hqueue houtbox
  rw [System.leftover, List.length_append, List.length_append, hunsent, LinkState.backlog, hqueue,
    houtbox]

/-- No message waits in two places. -/
theorem nodup_leftover (h : Reachable net.recorded (.fresh w₀) y) (hdied : y.stage ≠ .died) :
    y.leftover.Nodup := by
  have ho := h.ordered hdied
  have hline : y.history.line.Nodup := ho.ascending.imp Nat.ne_of_lt
  have hunsent : (y.history.unsentOn y.link.world y.link.carrier).Nodup := by
    cases ht : y.link.carrier with
    | datagrams => exact .nil
    | streams t => exact (h.delivering hdied ht).nodup_unsentOn ho
  obtain ⟨hleft, hqueued, hqueue⟩ := List.nodup_append.1 hline
  obtain ⟨-, hpending, houtbox⟩ := List.nodup_append.1 hleft
  refine List.nodup_append.2 ⟨List.nodup_append.2 ⟨hqueued, hpending, ?_⟩, hunsent, ?_⟩
  · intro m hm m' hm' heq
    exact hqueue m' (List.mem_append_right _ hm') m hm heq.symm
  · intro m hm m' hm' heq
    have hhanded := History.mem_handOvers_of_unsentOn hm'
    rcases List.mem_append.1 hm with hm | hm
    · exact hqueue m' (List.mem_append_left _ hhanded) m hm heq.symm
    · exact houtbox m' hhanded m hm heq.symm

/-- Stopping is final. The flag stays set, and submitting fails without any further effect. A loop
that was stopped ends with its next two steps from the start of a round, and does nothing else. The
end of a loop, for whatever reason it left its rounds, counts each message that waits in the queue,
in the outbox or in the buffer of a peer as dropped once, gives the builders of the first two back
to the pool, and sets the flag; behind it nothing happens any more. -/
theorem stopping_is_final (h : Reachable net.recorded (.fresh w₀) y) :
    (y.link.stopped = true → ∀ actions,
      (y.run net.recorded actions).link.stopped = true ∧
      ∀ b, (y.run net.recorded actions).Refuses net.recorded b) ∧
    (y.link.stopped = true → y.stage = .head → ∀ actions,
      y.WindsUp net.recorded (actions.countP Action.isProceed) (y.run net.recorded actions)) ∧
    (∀ why, y.stage = .leaving why →
      (∀ actions,
        y.GaveUp net.recorded ((y.step net.recorded .proceed).run net.recorded actions)) ∧
      (y.step net.recorded .proceed).link.pool =
        (((y.link.queue ++ y.link.outbox).take
            (y.link.config.maxPooledBuilders - y.link.pool.length)).map Builder.reset).reverse ++
          y.link.pool) ∧
    (y.stage ≠ .died → y.leftover.Nodup ∧ y.leftover.length = y.link.backlog) := by
  refine ⟨fun hstopped actions => ?_, fun hstopped hstage actions => ?_, fun why hstage => ⟨?_, ?_⟩,
    fun hdied => ⟨h.nodup_leftover hdied, h.length_leftover hdied⟩⟩
  · have hlater := System.stopped_run net.recorded hstopped actions
    exact ⟨hlater, System.refuses_of_stopped net.recorded hlater⟩
  · exact System.windsUp_run net.recorded hstopped hstage actions
  · exact ((System.Rests.refl net.recorded y).leave hstage).run
  · have hpool := y.link.pool_leave net.recorded h.tidy.bounded
    simpa [System.step, System.proceed, hstage] using hpool

/-- A message waits in the queue, one in the outbox, and one in the buffer of a peer, whose stream
took three bytes of it. Then the loop is stopped. -/
theorem stopping_is_final_of_run :
    ∃ y : System (Recording (List (Reply Nat))),
      Reachable Net.scripted.recorded (.fresh [.ok 3]) y ∧
      y.link.stopped = true ∧ y.stage = .head ∧ y.leftover = [2, 1, 0] ∧
      y.link.metrics.dropped = 0 ∧
      (∀ actions b, (y.run Net.scripted.recorded actions).Refuses Net.scripted.recorded b) ∧
      (y.run Net.scripted.recorded [.proceed, .submit .bare]).stage = .leaving .stopRequested ∧
      (y.run Net.scripted.recorded [.proceed, .submit .bare, .proceed]).stage = .ended ∧
      (y.run Net.scripted.recorded [.proceed, .submit .bare, .proceed]).link.metrics.dropped = 3 ∧
      ∀ actions, (((y.run Net.scripted.recorded [.proceed]).step Net.scripted.recorded .proceed).run
        Net.scripted.recorded actions).link.metrics.dropped = 3 := by
  obtain ⟨y, hreach, hy⟩ := exists_of_run Net.scripted.recorded (.fresh [.ok 3])
    "tcp://127.0.0.1:0" "tcp://10.9.8.7:30010" { maxPeerBufferBytes := 1 }
    (Action.firstRound ++ [.submit .bare, .submit .bare] ++ List.replicate 4 .proceed ++
      [.submit .bare, .stop, .wake (.ok []), .proceed, .proceed])
    (fun y => y.link.stopped && y.stage == .head && y.leftover == [2, 1, 0] &&
      y.link.metrics.dropped == 0) (by cbv)
  simp only [Bool.and_eq_true, beq_iff_eq] at hy
  obtain ⟨⟨⟨hstopped, hstage⟩, hleftover⟩, hdropped⟩ := hy
  obtain ⟨hrefuses, hwindsUp, -, hcount⟩ := hreach.stopping_is_final
  have hbacklog : y.link.backlog = 3 := by
    rw [← (hcount (by simp [hstage])).2, hleftover]
    rfl
  have hone := hwindsUp hstopped hstage [.proceed, .submit .bare]
  have htwo := hwindsUp hstopped hstage [.proceed, .submit .bare, .proceed]
  -- the same end, as the theorem has it for a loop that has left its rounds
  have hleft := hwindsUp hstopped hstage [.proceed]
  have hrests := hleft.rests (by decide)
  obtain ⟨-, -, hends, -⟩ := (hreach.run [.proceed]).stopping_is_final
  refine ⟨y, hreach, hstopped, hstage, hleftover, hdropped,
    fun actions => (hrefuses hstopped actions).2, hone.stage, htwo.stage, ?_, fun actions => ?_⟩
  · rw [(htwo.gaveUp (by decide)).link]
    simp [hdropped, hbacklog]
  · have hwaits : (y.run Net.scripted.recorded [.proceed]).link.backlog = 3 := by
      rw [hrests.link, ← hbacklog]
      rfl
    have hnone : (y.run Net.scripted.recorded [.proceed]).link.metrics.dropped = 0 := by
      rw [hrests.link, ← hdropped]
    rw [((hends .stopRequested hleft.stage).1 actions).link]
    simp [hwaits, hnone]

end Reachable

end ArmStream
