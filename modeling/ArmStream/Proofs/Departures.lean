import Mathlib
import ArmStream.Proofs.Guards
import ArmStream.Proofs.Lifecycle
import ArmStream.Proofs.Limits
import ArmStream.Proofs.SendAccounting

/-!
# How the loop ends

The loop leaves its rounds in three places: at the start of a round if it was stopped, after it
handed its messages on if it is idle, and when its wait fails. Being idle it has nothing left: the
buffer of a peer is empty exactly if the peer lists no frame. So what it gives up at its end was
submitted after it found itself idle.

A driver holds a guard while it runs, so the loop of its link is never idle.

## Main definitions

- `System.Departs`: the loop leaves its rounds, and why.
- `System.Left`: a run in which it left them.
- `System.Drained`: nothing waits, and all that was accepted is counted.
- `System.GivesUpLater`: the loop gives up only what was submitted later.
- `Session.Held`: the guard of a driver.

## Main statements

- `System.left_of_leaving`, `System.exists_left_of_ended`: how a loop that left its rounds did so.
- `Reachable.drained`: an idle loop has nothing left.
- `System.Departing.step`: what callers can do after the loop found itself idle.
- `Session.held_step`: the guard of a driver that runs.
- `System.loop_ends_for_cause`: all this in each run.
-/

namespace ArmStream

variable {σ : Type} {net : Net σ}

/-! ## Requests to stop -/

namespace LinkState

@[simp] theorem release_stopped (s : LinkState σ) (b : Builder) :
    (s.release b).stopped = s.stopped := by
  unfold release
  split <;> rfl

@[simp] theorem noteWritten_stopped (s : LinkState σ) (r : Peer.Written σ) :
    (s.noteWritten r).1.stopped = s.stopped := by
  unfold noteWritten
  split <;> rfl

end LinkState

theorem Move.stopped_eq {x y : Working σ} {log : List Deed} (h : Move net x log y)
    (hy : y.link.loopDied = false) : y.link.stopped = x.link.stopped := by
  cases h with
  | died hdied => simp [hdied] at hy
  | handedOver => simp
  | withheld => simp [LinkState.countDropped]
  | offered => simp
  | _ => rfl

theorem Moves.stopped_eq {x y : Working σ} {log : List Deed} (h : Moves net x log y)
    (hy : y.link.loopDied = false) : y.link.stopped = x.link.stopped := by
  induction h with
  | refl => rfl
  | step hmove hmoves ih => exact (ih hy).trans (hmove.stopped_eq (hmoves.alive hy))

theorem Sends.stopped_eq {s s' : LinkState σ} {log : List Recipient} (h : Sends net s log s')
    (hlive : s'.loopDied = false) : s'.stopped = s.stopped := by
  induction h with
  | refl => rfl
  | died hdied => simp [hdied] at hlive
  | waited _ _ ih => exact ih hlive
  | sent _ _ _ _ ih => simpa [LinkState.countSent] using ih hlive
  | failed _ _ _ _ ih => simpa [LinkState.countSendError, LinkState.countDropped] using ih hlive
  | withheld _ _ _ ih => simpa [LinkState.countDropped] using ih hlive

/-- The loop does not stop itself as long as it goes on. -/
theorem Transition.stopped_eq {y y' : System σ} (h : Transition net y y')
    (hne : y'.stage ≠ y.stage) (hlive : y'.stage.isLive = true) :
    y'.link.stopped = y.link.stopped := by
  cases h with
  | aside => exact absurd rfl hne
  | submitted => exact absurd rfl hne
  | refused => exact absurd rfl hne
  | worked _ _ halive _ _ hmoves => exact hmoves.stopped_eq halive
  | sent _ _ halive _ hsends => exact hsends.stopped_eq halive
  | left => simp [Stage.isLive] at hlive
  | died => simp [Stage.isLive] at hlive
  | passed | took | heard => rfl

namespace System

theorem stage_enter {y : System σ} {s : LinkState σ} {next : Stage}
    (hlive : (y.enter net s next).stage.isLive = true) : (y.enter net s next).stage = next := by
  unfold enter at hlive ⊢
  split
  next hdied => simp [hdied, Stage.isLive] at hlive
  next => rfl

theorem stopped_proceed {y : System σ} (hs : y.Sound)
    (hlive : (y.step net .proceed).stage.isLive = true) :
    (y.step net .proceed).link.stopped = y.link.stopped := by
  have htransition : Transition net y (y.step net .proceed) := transition_step hs .proceed
  obtain ⟨s, stage, history⟩ := y
  cases stage with
  | taking =>
    obtain ⟨pool, htaken⟩ := s.takeSubmissions_eq
    simp [step, proceed, htaken]
  | handing =>
    have hnext := stage_enter hlive
    exact htransition.stopped_eq (by rw [step, proceed, hnext]; simp) hlive
  | reacting events =>
    cases events with
    | nil => rfl
    | cons e rest =>
      have hnext := stage_enter hlive
      exact htransition.stopped_eq (by rw [step, proceed, hnext]; simp) hlive
  | reopening =>
    have hnext := stage_enter hlive
    exact htransition.stopped_eq (by rw [step, proceed, hnext]; simp) hlive
  | leaving why => simp [step, proceed, Stage.isLive] at hlive
  | _ => rfl

/-- Only callers stop a loop that goes on. -/
theorem stopped_step {y : System σ} (hs : y.Sound) (a : Action)
    (hlive : (y.step net a).stage.isLive = true) (hstopped : (y.step net a).link.stopped = true) :
    y.link.stopped = true ∨ a = .stop := by
  rcases a.isCallers_or with hcallers | rfl | ⟨r, rfl⟩
  · have hcalled := called_step net y hcallers
    generalize y.step net a = y' at hcalled hstopped
    cases hcalled with
    | aside _ hflag =>
      have hor : y.link.stopped = true ∨ a.isStop = true := by simpa [hflag] using hstopped
      refine hor.imp_right fun hstop => ?_
      cases a with
      | stop => rfl
      | _ => cases hstop
    | submitted | refused => exact .inl hstopped
  · exact .inl (stopped_proceed hs hlive ▸ hstopped)
  · left
    simp only [step] at hlive hstopped
    split at hstopped
    next hwaiting =>
      rw [if_pos hwaiting] at hlive
      rcases r with events | e | _
      · exact hstopped
      · cases e <;> exact hstopped
      · rw [answer] at hlive hstopped
        simp [enter, Stage.isLive] at hlive
    next => exact hstopped

end System

/-! ## Leaving the rounds -/

namespace System

/-- The loop leaves its rounds by an action, and why. -/
inductive Departs (y : System σ) : Action → LinkState.Departure → Prop where
  /-- At the start of a round it finds that it was stopped. -/
  | stopRequested :
      y.stage = .head → y.link.stopped = true → y.Departs .proceed .stopRequested
  /-- After it handed its messages on it finds itself idle. -/
  | idle : y.stage = .resting → y.link.isIdle = true → y.Departs .proceed .idle
  /-- Its wait fails. -/
  | pollFailed {e : IoError} :
      y.stage = .waiting → e ≠ .interrupted → y.Departs (.wake (.fail e)) (.pollFailed e)

inductive Enters (y : System σ) : Action → Stage → Prop where
  | departed {a : Action} {why : LinkState.Departure} :
      y.Departs a why → y.Enters a (.leaving why)
  | ended {why : LinkState.Departure} : y.stage = .leaving why → y.Enters .proceed .ended
  | stayed {a : Action} : a ≠ .proceed ∨ y.stage = .ended → y.Enters a y.stage
  | wentOn {a : Action} {next : Stage} :
      (∀ why, next ≠ .leaving why) → next ≠ .ended → y.Enters a next

theorem Enters.enter {y y₁ : System σ} {a : Action} (s : LinkState σ) {next : Stage}
    (hrounds : ∀ why, next ≠ .leaving why) (hended : next ≠ .ended) :
    y.Enters a (y₁.enter net s next).stage := by
  unfold System.enter
  split
  · exact .wentOn (by simp) (by simp)
  · exact .wentOn hrounds hended

theorem enters_proceed (net : Net σ) (y : System σ) : y.Enters .proceed (y.proceed net).stage := by
  obtain ⟨s, stage, history⟩ := y
  cases stage with
  | head =>
    simp only [proceed]
    split
    next hstopped => exact .departed (.stopRequested rfl hstopped)
    next => exact .wentOn (by simp) (by simp)
  | resting =>
    simp only [proceed]
    split
    next hidle => exact .departed (.idle rfl hidle)
    next => exact .wentOn (by simp) (by simp)
  | handing => exact .enter _ (by simp) (by simp)
  | reacting events =>
    cases events with
    | nil => exact .wentOn (by simp [proceed]) (by simp [proceed])
    | cons e rest => exact .enter _ (by simp) (by simp)
  | reopening => exact .enter _ (by simp) (by simp)
  | leaving why => exact .ended rfl
  | ended => exact .stayed (.inr rfl)
  | taking | waiting | died => exact .wentOn (by simp [proceed]) (by simp [proceed])

theorem enters_step (net : Net σ) (y : System σ) (a : Action) :
    y.Enters a (y.step net a).stage := by
  rcases a.isCallers_or with hcallers | rfl | ⟨r, rfl⟩
  · have hne : a ≠ .proceed := by
      rintro rfl
      cases hcallers
    have hcalled := called_step net y hcallers
    generalize y.step net a = y' at hcalled ⊢
    cases hcalled with
    | aside | submitted | refused => exact .stayed (.inl hne)
  · exact enters_proceed net y
  · simp only [step]
    split
    next hwaiting =>
      rcases r with events | e | _
      · exact .wentOn (by simp [answer]) (by simp [answer])
      · by_cases hagain : e = .interrupted
        · exact .wentOn (by simp [answer, hagain]) (by simp [answer, hagain])
        · simp only [answer]
          exact .departed (.pollFailed hwaiting hagain)
      · exact .enter _ (by simp) (by simp)
    next => exact .stayed (.inl (by simp))

/-- There is no other way out of the rounds. -/
theorem leaving_step {y : System σ} {a : Action} {why : LinkState.Departure}
    (h : (y.step net a).stage = .leaving why) :
    y.stage = .leaving why ∧ a ≠ .proceed ∨ y.Departs a why := by
  have henters := enters_step net y a
  generalize (y.step net a).stage = next at h henters
  cases henters with
  | departed hdeparts => exact .inr (Stage.leaving.inj h ▸ hdeparts)
  | ended => cases h
  | stayed hstayed => exact .inl ⟨h, hstayed.resolve_right (by simp [h])⟩
  | wentOn hrounds => exact absurd h (hrounds why)

/-- The end comes behind the rounds. -/
theorem ended_step {y : System σ} {a : Action} (h : (y.step net a).stage = .ended) :
    y.stage = .ended ∨ (∃ why, y.stage = .leaving why) ∧ a = .proceed := by
  have henters := enters_step net y a
  generalize (y.step net a).stage = next at h henters
  cases henters with
  | departed => cases h
  | ended hleaving => exact .inr ⟨⟨_, hleaving⟩, rfl⟩
  | stayed => exact .inl h
  | wentOn _ hended => exact absurd h hended

/-! ## Runs in which the loop left -/

/-- In a run the loop left its rounds for a reason, and did nothing since. It was not stopped
unless somebody asked it to stop. -/
def Left (net : Net σ) (y₀ : System σ) (actions : List Action) (why : LinkState.Departure) : Prop :=
  ∃ before a after, actions = before ++ a :: after ∧ .proceed ∉ after ∧
    (y₀.run net before).Departs a why ∧ (why = .stopRequested → .stop ∈ before)

theorem run_concat (net : Net σ) (y : System σ) (actions : List Action) (a : Action) :
    y.run net (actions ++ [a]) = (y.run net actions).step net a := by
  simp [run]

/-- A loop that goes on and was stopped was asked to stop. -/
theorem stop_mem_of_stopped {w₀ : σ} {y₀ : System σ} (h₀ : Reachable net w₀ y₀)
    (hrun : y₀.link.stopped = false) {actions : List Action}
    (hlive : (y₀.run net actions).stage.isLive = true)
    (hstopped : (y₀.run net actions).link.stopped = true) : .stop ∈ actions := by
  induction actions using List.reverseRecOn with
  | nil => simp [run, hrun] at hstopped
  | append_singleton actions a ih =>
    have hs := (h₀.run actions).sound
    rw [run_concat] at hlive hstopped
    rcases stopped_step hs a hlive hstopped with hbefore | rfl
    · have := ih (isLive_of_step hs hlive) hbefore
      simp [this]
    · simp

/-- A loop that is about to end left its rounds before. -/
theorem left_of_leaving {w₀ : σ} {y₀ : System σ} (h₀ : Reachable net w₀ y₀)
    (hrun : y₀.link.stopped = false) (hhead : y₀.stage = .head) {actions : List Action}
    {why : LinkState.Departure} (h : (y₀.run net actions).stage = .leaving why) :
    y₀.Left net actions why := by
  induction actions using List.reverseRecOn with
  | nil =>
    rw [run, List.foldl_nil, hhead] at h
    simp at h
  | append_singleton actions a ih =>
    rw [run_concat] at h
    rcases leaving_step h with ⟨hbefore, ha⟩ | hdeparts
    · obtain ⟨before, first, after, rfl, hafter, hdeparts, hstop⟩ := ih hbefore
      refine ⟨before, first, after ++ [a], by simp, ?_, hdeparts, hstop⟩
      simp only [List.mem_append, List.mem_singleton, not_or]
      exact ⟨hafter, Ne.symm ha⟩
    · refine ⟨actions, a, [], rfl, by simp, hdeparts, ?_⟩
      rintro rfl
      cases hdeparts with
      | stopRequested hstage hstopped =>
        exact stop_mem_of_stopped h₀ hrun (by rw [hstage]; rfl) hstopped

/-- A loop that ended left its rounds before. -/
theorem exists_left_of_ended {w₀ : σ} {y₀ : System σ} (h₀ : Reachable net w₀ y₀)
    (hrun : y₀.link.stopped = false) (hhead : y₀.stage = .head) {actions : List Action}
    (h : (y₀.run net actions).stage = .ended) :
    ∃ why before rest, actions = before ++ .proceed :: rest ∧ y₀.Left net before why := by
  induction actions using List.reverseRecOn with
  | nil =>
    rw [run, List.foldl_nil, hhead] at h
    simp at h
  | append_singleton actions a ih =>
    rw [run_concat] at h
    rcases ended_step h with hbefore | ⟨⟨why, hleaving⟩, rfl⟩
    · obtain ⟨why, before, rest, rfl, hleft⟩ := ih hbefore
      exact ⟨why, before, rest ++ [a], by simp, hleft⟩
    · exact ⟨why, actions, [], rfl, left_of_leaving h₀ hrun hhead hleaving⟩

/-! ## An idle loop -/

/-- Nothing waits: all messages that were accepted or refused are counted as sent or dropped. -/
structure Drained (y : System σ) : Prop where
  queue : y.link.queue = []
  outbox : y.link.outbox = []
  frameEnds : ∀ t, y.link.carrier = .streams t → ∀ k p, (k, p) ∈ t.peers → p.frameEnds = []
  counted : y.history.accepted.length + y.history.refused =
    y.link.metrics.sent + y.link.metrics.dropped

end System

theorem LinkState.unsentFrames_eq_zero {s : LinkState σ}
    (h : ∀ t, s.carrier = .streams t → ∀ k p, (k, p) ∈ t.peers → p.frameEnds = []) :
    s.unsentFrames = 0 := by
  rw [unsentFrames_eq]
  cases hcarrier : s.carrier with
  | datagrams => rfl
  | streams t =>
    simp only [Carrier.unsentFrames, Streams.unsentFrames]
    refine List.sum_eq_zero fun n hn => ?_
    obtain ⟨⟨k, p⟩, hmem, rfl⟩ := List.mem_map.1 hn
    simp [h t hcarrier k p hmem]

/-- An idle loop has nothing left: a peer with nothing unsent lists no frame. -/
theorem Reachable.drained {w₀ : σ} {y : System σ} (h : Reachable net w₀ y)
    (hlive : y.stage.isLive = true) (hidle : y.link.isIdle = true) : y.Drained := by
  have hthere := Stage.ne_died hlive
  have hlimited := h.limited hthere
  simp only [LinkState.isIdle, Bool.and_eq_true, beq_iff_eq, List.isEmpty_iff] at hidle
  obtain ⟨⟨⟨-, hqueue⟩, houtbox⟩, hpeers⟩ := hidle
  have hends : ∀ t, y.link.carrier = .streams t → ∀ k p, (k, p) ∈ t.peers → p.frameEnds = [] := by
    intro t ht k p hmem
    obtain ⟨⟨start, frames, hholds⟩, hopen, -⟩ := hlimited.peers t ht (k, p) hmem
    rw [ht] at hpeers
    have hunsent : p.unsent = 0 := by
      simpa using List.all_eq_true.1 hpeers (k, p) hmem
    exact (hholds.unsent_eq_zero_iff hopen).1 hunsent
  refine ⟨hqueue, houtbox, hends, ?_⟩
  have hbalanced := h.balanced.live hlive
  have hsubmitted := h.submitted_eq hthere
  have hframes := LinkState.unsentFrames_eq_zero hends
  simp only [LinkState.backlog, hqueue, houtbox, hframes, List.length_nil] at hbalanced
  omega

/-! ## After the loop found itself idle -/

namespace System

/-- The loop of `x` found itself idle and did nothing until `z`. All that waits was submitted since,
and all that was dropped since was refused. -/
structure Departing (x z : System σ) : Prop where
  stage : z.stage = .leaving .idle
  outbox : z.link.outbox = []
  carrier : z.link.carrier = x.link.carrier
  sent : z.link.metrics.sent = x.link.metrics.sent
  dropped : z.link.metrics.dropped + x.history.refused = x.link.metrics.dropped + z.history.refused
  pending : z.history.pending = []
  discarded : z.history.discarded = x.history.discarded
  accepted_le : x.history.accepted.length ≤ z.history.accepted.length
  queued : z.history.queued = List.range' x.history.accepted.length
    (z.history.accepted.length - x.history.accepted.length)

theorem departing_proceed (net : Net σ) {x : System σ}
    (hordered : x.history.Ordered x.link.queue x.link.outbox) (hstage : x.stage = .resting)
    (hidle : x.link.isIdle = true) : x.Departing (x.step net .proceed) := by
  have hstep : x.step net .proceed = { x with stage := .leaving .idle } := by
    simp [step, proceed, hstage, hidle]
  simp only [LinkState.isIdle, Bool.and_eq_true, beq_iff_eq, List.isEmpty_iff] at hidle
  obtain ⟨⟨⟨-, hqueue⟩, houtbox⟩, -⟩ := hidle
  have hqueued : x.history.queued = [] := by
    have := hordered.queue
    rw [hqueue] at this
    exact List.map_eq_nil_iff.1 this.symm
  have hpending : x.history.pending = [] := by
    have := hordered.outbox
    rw [houtbox] at this
    exact List.map_eq_nil_iff.1 this.symm
  rw [hstep]
  exact ⟨rfl, houtbox, rfl, rfl, rfl, hpending, rfl, Nat.le_refl _, by simp [hqueued]⟩

/-- Callers may submit, and the queue keeps what it takes. -/
theorem Departing.step {x z : System σ} (h : x.Departing z) {a : Action} (ha : a ≠ .proceed) :
    x.Departing (z.step net a) := by
  obtain ⟨hstage, houtbox, hcarrier, hsent, hdropped, hpending, hdiscarded, hle, hqueued⟩ := h
  rcases a.isCallers_or with hcallers | rfl | ⟨r, rfl⟩
  · have hcalled := called_step net z hcallers
    generalize z.step net a = z' at hcalled ⊢
    cases hcalled with
    | aside =>
      exact ⟨hstage, houtbox, hcarrier, hsent, hdropped, hpending, hdiscarded, hle, hqueued⟩
    | submitted =>
      refine ⟨hstage, houtbox, hcarrier, hsent, hdropped, hpending, hdiscarded, ?_, ?_⟩
      · simp only [History.submit, List.length_append, List.length_singleton]
        omega
      · -- the new message has the next number
        obtain ⟨k, hk⟩ := Nat.exists_eq_add_of_le hle
        have hlength : x.history.accepted.length + k + 1 - x.history.accepted.length = k + 1 := by
          omega
        simp only [History.submit, hqueued, List.length_append, List.length_singleton, hk,
          Nat.add_sub_cancel_left, hlength, List.range'_concat, Nat.one_mul]
    | refused =>
      refine ⟨hstage, houtbox, hcarrier, hsent, ?_, hpending, hdiscarded, hle, hqueued⟩
      change z.link.metrics.dropped + 1 + x.history.refused =
        x.link.metrics.dropped + (z.history.refused + 1)
      omega
  · exact absurd rfl ha
  · simp only [System.step, hstage]
    exact ⟨hstage, houtbox, hcarrier, hsent, hdropped, hpending, hdiscarded, hle, hqueued⟩

theorem Departing.run {x z : System σ} (h : x.Departing z) (net : Net σ) {actions : List Action}
    (hno : .proceed ∉ actions) : x.Departing (z.run net actions) := by
  induction actions generalizing z with
  | nil => exact h
  | cons a rest ih =>
    simp only [List.mem_cons, not_or] at hno
    exact ih (h.step (Ne.symm hno.1)) hno.2

/-- At the end of the loop, which found itself idle in `x` and stood in `z` before it ended, the
messages that are given up are those that were accepted in between. -/
structure GivesUpLater (net : Net σ) (x z : System σ) : Prop where
  ended : (z.step net .proceed).stage = .ended
  discarded : (z.step net .proceed).history.discarded = x.history.discarded ++
    List.range' x.history.accepted.length
      (z.history.accepted.length - x.history.accepted.length)
  sent : (z.step net .proceed).link.metrics.sent = x.link.metrics.sent
  /-- Besides, messages were dropped that a full queue refused. -/
  dropped : (z.step net .proceed).link.metrics.dropped + x.history.refused =
    x.link.metrics.dropped + z.history.refused +
      (z.history.accepted.length - x.history.accepted.length)

theorem Departing.givesUpLater {x z : System σ} (h : x.Departing z) (hx : x.Drained)
    (hordered : z.history.Ordered z.link.queue z.link.outbox) : x.GivesUpLater net z := by
  obtain ⟨pool, hleave⟩ := z.link.leave_eq net
  have hstep : z.step net .proceed =
      { link := z.link.leave net, stage := .ended, history := z.history.giveUp } := by
    simp [System.step, proceed, h.stage]
  have hunsent : z.link.unsentFrames = 0 := by
    apply LinkState.unsentFrames_eq_zero
    rw [h.carrier]
    exact hx.frameEnds
  have hlength : z.link.queue.length =
      z.history.accepted.length - x.history.accepted.length := by
    rw [hordered.queue, List.length_map, h.queued, List.length_range']
  constructor
  · rw [hstep]
  · rw [hstep]
    simp [History.giveUp, h.pending, h.discarded, h.queued]
  · rw [hstep, hleave]
    exact h.sent
  · have hdropped := h.dropped
    rw [hstep, hleave]
    simp only [h.outbox, hunsent, hlength, List.length_nil]
    omega

end System

/-! ## The guard of a driver -/

theorem LinkState.Fresh.guards_eq {w₀ : σ} {s : LinkState σ} (h : s.Fresh net w₀) :
    s.guards = 0 := by
  cases h <;> rfl

theorem LinkState.Fresh.stopped_eq {w₀ : σ} {s : LinkState σ} (h : s.Fresh net w₀) :
    s.stopped = false := by
  cases h <;> rfl

namespace Driver

/-- Submitting a message takes and drops no guard. -/
theorem guards_sendCommand (net : Net σ) (d : Driver σ) (s : LinkState σ) :
    (sendCommand net d s).2.1.guards = s.guards := by
  have hacquired : s.acquire.2.guards = s.guards := System.guards_step net { link := s } .acquire
  unfold sendCommand
  dsimp only
  split
  next => exact hacquired
  next b _ =>
    have hsubmitted : (s.acquire.2.submit net b).1.guards = s.acquire.2.guards :=
      System.guards_step net { link := s.acquire.2 } (.submit b)
    rw [hacquired] at hsubmitted
    split
    next hsubmit => simpa [hsubmit] using hsubmitted
    next hsubmit => simpa [hsubmit] using hsubmitted

end Driver

namespace Session

variable {x : Session σ}

/-- The link of a driver has one guard, which is the driver's own. So the loop of a driver that runs
does not find itself idle. -/
structure Held (x : Session σ) : Prop where
  guards : ∀ s, x.driver.link? = some s → s.guards = 1
  /-- The loop does nothing before there is a link. -/
  fresh : x.driver.lifecycle = .uninitialized → x.stage = .head
  busy : x.driver.lifecycle = .running → x.stage ≠ .leaving .idle

theorem held_created (w : σ) (params : ParamTable) (config : LinkConfig) :
    (created w params config).Held := by
  constructor <;> simp [created, Driver.link?, Uplink.link?]

theorem Held.launchWith (h : x.Held) (net : Net σ) (params : ParamTable) :
    ({ x with driver := (x.driver.launchWith net params).1 } : Session σ).Held := by
  rcases x.driver.launchWith_cases net params with ⟨hlifecycle, hlaunched⟩ | ⟨-, hsame⟩
  · have hhead := h.fresh hlifecycle
    have hbusy : x.stage ≠ .leaving .idle := by simp [hhead]
    generalize x.driver.launchWith net params = r at hlaunched
    cases hlaunched with
    | running hopen =>
      refine ⟨fun s' hs' => ?_, fun _ => hhead, fun _ => hbusy⟩
      obtain rfl := Option.some.inj hs'
      simp [LinkState.guard, (Driver.fresh_of_openLink hopen).guards_eq]
    | refused | threadless | diedOpening | diedStarting =>
      exact ⟨by simp [Driver.link?, Uplink.link?], fun _ => hhead, fun _ => hbusy⟩
  · rw [hsame]
    exact h

theorem Held.tick (h : x.Held) (net : Net σ) : (x.tick net).Held := by
  unfold Session.tick
  cases hlink : x.driver.link? with
  | none =>
    rw [Driver.tick_of_link?_eq_none net hlink]
    exact ⟨h.guards, h.fresh, h.busy⟩
  | some s =>
    obtain ⟨scratch, died, htick⟩ := Driver.tick_of_link? net hlink
    rw [htick]
    refine ⟨fun s' hs' => ?_, h.fresh, h.busy⟩
    obtain rfl := Option.some.inj hs'
    exact (Driver.guards_sendCommand net x.driver s).trans (h.guards s hlink)

/-- With a guard alive the loop has one way less out of its rounds. -/
theorem Held.loop (h : x.Held) (hcoherent : x.driver.Coherent) (net : Net σ) {a : Action}
    (ha : ∀ n, a.guardsAfter n = n) : (x.loop net a).Held := by
  unfold Session.loop
  split
  next => exact h
  next y hy =>
    obtain ⟨s, hs, rfl⟩ := Option.map_eq_some_iff.1 hy
    have hrunning : x.driver.lifecycle = .running := hcoherent.link.1 (by rw [hs]; rfl)
    have hguards := h.guards s hs
    refine ⟨fun s' hs' => ?_, fun hnew => ?_, fun _ hleaving => ?_⟩
    · obtain rfl := Option.some.inj hs'
      exact (System.guards_step net _ a).trans ((ha _).trans hguards)
    · simp [hrunning] at hnew
    · rcases System.leaving_step hleaving with ⟨hbefore, -⟩ | hdeparts
      · exact h.busy hrunning hbefore
      · cases hdeparts with
        | idle _ hidle => simp [LinkState.isIdle, hguards] at hidle

theorem held_step (h : x.Held) (hcoherent : x.driver.Coherent) (net : Net σ)
    (action : SessionAction σ) : (x.step net action).Held := by
  cases action with
  | write w =>
    simp only [step, Driver.write_eq]
    exact ⟨h.guards, h.fresh, h.busy⟩
  | tick => exact h.tick net
  | launch =>
    simp only [step, Driver.launch_eq_launchWith]
    exact h.launchWith net x.driver.params
  | launchWith params => exact h.launchWith net params
  | shutdown join =>
    have hstopped := (hcoherent.shutdown net join).2
    have hnone := (hcoherent.shutdown net join).1.link?_eq_none (by simp [hstopped])
    refine ⟨fun s hs => ?_, fun hnew => ?_, fun hrunning => ?_⟩
    · simp [step, hnone] at hs
    · simp [step, hstopped] at hnew
    · simp [step, hstopped] at hrunning
  | proceed => exact h.loop hcoherent net fun _ => rfl
  | wake r => exact h.loop hcoherent net fun _ => rfl

theorem held_run (h : x.Held) (hcoherent : x.driver.Coherent) (net : Net σ)
    (actions : List (SessionAction σ)) : (x.run net actions).Held := by
  induction actions generalizing x with
  | nil => exact h
  | cons action rest ih =>
    exact ih (held_step h hcoherent net action) (coherent_step hcoherent net action).1

end Session

/-! ## All runs -/

namespace System

/-- In all runs of a link: its count of guards is the number of guards alive. The loop left its
rounds as it was asked to stop, as its wait failed, or as it found itself idle, and an end comes
only behind that. An idle loop has nothing left, so at its end it gives up only what was submitted
after it found itself idle. The link of a driver that runs has one guard, so its loop does not find
itself idle. -/
theorem loop_ends_for_cause {w₀ : σ} {near far : String} {config : LinkConfig} {y₀ : System σ}
    (hopened : opened? net near far config w₀ = some y₀) :
    (∀ uses : List GuardAction,
      let x := ({ system := y₀ } : Guarded σ).run net uses
      x.live.Nodup ∧ x.system.link.guards = x.live.length ∧
        ∃ actions, x.system = y₀.run net actions) ∧
    (∀ actions : List Action,
      let y := y₀.run net actions
      (∀ why, y.stage = .leaving why → y₀.Left net actions why) ∧
      (y.stage = .ended →
        ∃ why before rest, actions = before ++ .proceed :: rest ∧ y₀.Left net before why) ∧
      (y.stage.isLive = true → y.link.isIdle = true → y.Drained) ∧
      (y.stage = .resting → y.link.isIdle = true → ∀ after, .proceed ∉ after →
        let z := y.run net (.proceed :: after)
        z.stage = .leaving .idle ∧ y.GivesUpLater net z)) ∧
    (∀ (w : σ) (params : ParamTable) (config : LinkConfig) (actions : List (SessionAction σ)),
      let x := (Session.created w params config).run net actions
      x.driver.lifecycle = .running →
        (∃ s, x.driver.link? = some s ∧ s.guards = 1) ∧ x.stage ≠ .leaving .idle) := by
  have hreachable : Reachable net w₀ y₀ := .opened hopened
  obtain ⟨s, hfresh, rfl⟩ := LinkState.exists_fresh hopened
  refine ⟨fun uses => ?_, fun actions => ⟨fun why hwhy => ?_, fun hended => ?_,
    fun hlive hidle => ?_, fun hstage hidle after hafter => ?_⟩,
    fun w params config actions hrunning => ⟨?_, ?_⟩⟩
  · have hcounted : ({ system := { link := s } } : Guarded σ).Counted :=
      ⟨hfresh.guards_eq, List.nodup_nil, by simp⟩
    obtain ⟨hguards, hnodup, -⟩ := Guarded.counted_run net hcounted uses
    exact ⟨hnodup, hguards, Guarded.exists_system_run net _ uses⟩
  · exact left_of_leaving hreachable hfresh.stopped_eq rfl hwhy
  · exact exists_left_of_ended hreachable hfresh.stopped_eq rfl hended
  · exact (hreachable.run actions).drained hlive hidle
  · have hy := hreachable.run actions
    have hlive : (run net { link := s } actions).stage.isLive = true := by
      rw [hstage]
      rfl
    have hordered := hy.ordered (Stage.ne_died hlive)
    have hdeparting := (departing_proceed net hordered hstage hidle).run net hafter
    have hz := (hy.step .proceed).run after
    have hzlive : Stage.isLive (.leaving .idle) = true := rfl
    rw [← hdeparting.stage] at hzlive
    exact ⟨hdeparting.stage,
      hdeparting.givesUpLater (hy.drained hlive hidle) (hz.ordered (Stage.ne_died hzlive))⟩
  -- the guard of a running driver is its own, so its loop is never idle
  · have hcoherent := Session.coherent_run (Session.coherent_created w params config) net actions
    have hheld := Session.held_run (Session.held_created w params config)
      (Session.coherent_created w params config) net actions
    obtain ⟨s', hs'⟩ := Option.isSome_iff_exists.1 (hcoherent.link.2 hrunning)
    exact ⟨s', hs', hheld.guards s' hs'⟩
  · exact (Session.held_run (Session.held_created w params config)
      (Session.coherent_created w params config) net actions).busy hrunning

/-- A guard is cloned and dropped, and its clone is alive. After its only guard was dropped, a loop
sends a message and finds itself idle; the message that is submitted then is given up. The loop of
a driver without messages waits. -/
theorem loop_ends_for_cause_of_run :
    ∃ y₀ : System (List (Reply Nat)),
      opened? Net.scripted "tcp://127.0.0.1:0" "tcp://10.9.8.7:30010" {} [.ok 12] = some y₀ ∧
      (∃ x : Guarded (List (Reply Nat)), x.live = [1] ∧ x.system.link.guards = 1) ∧
      (∃ y : System (List (Reply Nat)), y.link.metrics.sent = 1 ∧ y.Drained ∧
        ((y.run Net.scripted [.proceed, .submit .bare]).step Net.scripted .proceed).stage = .ended ∧
        ((y.run Net.scripted [.proceed, .submit .bare]).step Net.scripted
          .proceed).history.discarded = [1]) ∧
      ∃ x : Session (List (Reply Nat)), x.driver.lifecycle = .running ∧ x.stage = .waiting ∧
        ∃ s, x.driver.link? = some s ∧ s.guards = 1 := by
  obtain ⟨y₀, hopened, hy⟩ := exists_opened_of_run Net.scripted [.ok 12]
    "tcp://127.0.0.1:0" "tcp://10.9.8.7:30010" {}
    (Action.firstRound ++ [.submit .bare, .proceed, .proceed, .dropGuard, .proceed])
    (fun y => y.stage == .resting && y.link.isIdle && y.link.metrics.sent == 1 &&
      y.history.accepted.length == 1 && y.history.discarded == [] &&
      (y.run Net.scripted [.proceed, .submit .bare]).history.accepted.length == 2) (by cbv)
  obtain ⟨hguards, hruns, hdriver⟩ := loop_ends_for_cause hopened
  simp only [Bool.and_eq_true, beq_iff_eq] at hy
  obtain ⟨⟨⟨⟨⟨hstage, hidle⟩, hsent⟩, hone⟩, hnone⟩, htwo⟩ := hy
  obtain ⟨-, -, hdrained, hlater⟩ := hruns
    (Action.firstRound ++ [.submit .bare, .proceed, .proceed, .dropGuard, .proceed])
  obtain ⟨-, hgivesUp⟩ := hlater hstage hidle [.submit .bare] (by simp)
  obtain ⟨-, hcount, -⟩ := hguards [.take, .clone 0, .drop 0]
  have hwaiting := hdriver [] {} {} [.launch, .proceed, .proceed, .proceed, .proceed] (by cbv)
  refine ⟨y₀, hopened, ⟨_, rfl, hcount⟩, ⟨_, hsent, ?_, hgivesUp.ended, ?_⟩,
    _, by cbv, by cbv, hwaiting.1⟩
  · exact hdrained (by rw [hstage]; rfl) hidle
  · rw [hgivesUp.discarded, hnone, hone, htwo]
    rfl

end System

end ArmStream
