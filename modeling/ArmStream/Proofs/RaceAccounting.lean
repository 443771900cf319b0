import Mathlib
import ArmStream.Proofs.Race
import ArmStream.Proofs.SendAccounting

/-!
# What is lost with the loop

Whatever the order of the steps of callers and of the loop, each message that the queue took or
refused is counted once, unless it is still in the queue when its receiving end goes. Such messages
are those of calls that looked at the flag before the loop set it and tried the queue after the loop
had looked into it for the last time.

## Main definitions

- `Race.held`: the messages that the loop has and that are not counted.
- `Race.Accounted`: the equation between the counters, the calls and these messages.

## Main statements

- `Race.Accounted.step`: each action keeps the equation.
- `Race.Reachable.conserved_iff`: all accepted messages are counted if and only if none is lost.
- `Race.Reachable.dropped_zero_of_late_call`: a message that is lost.
-/

namespace ArmStream

variable {σ : Type} {net : Net σ}

/-! ## Stages -/

namespace System

/-- What a stage does to the link does not depend on the history, and it accepts and refuses no
message. -/
theorem proceed_withHistory (net : Net σ) (s : LinkState σ) (stage : Stage) (h : History) :
    (proceed net ⟨s, stage, h⟩).link = (proceed net ⟨s, stage, {}⟩).link ∧
      (proceed net ⟨s, stage, h⟩).stage = (proceed net ⟨s, stage, {}⟩).stage ∧
      (proceed net ⟨s, stage, h⟩).history.accepted = h.accepted ∧
      (proceed net ⟨s, stage, h⟩).history.refused = h.refused := by
  cases stage with
  | handing =>
    simp only [proceed, enter]
    split <;> exact ⟨rfl, rfl, rfl, rfl⟩
  | reacting events =>
    cases events with
    | nil => exact ⟨rfl, rfl, rfl, rfl⟩
    | cons e rest =>
      simp only [proceed, enter]
      split <;> exact ⟨rfl, rfl, rfl, rfl⟩
  | reopening =>
    simp only [proceed, enter]
    split <;> exact ⟨rfl, rfl, rfl, rfl⟩
  | _ => exact ⟨rfl, rfl, rfl, rfl⟩

/-- The loop does not end in a stage of a round. -/
theorem stage_proceed_ne_ended (net : Net σ) {s : LinkState σ} {stage : Stage} {h : History}
    (hlive : stage.isLive = true) (hround : ∀ why, stage ≠ .leaving why) :
    (proceed net ⟨s, stage, h⟩).stage ≠ .ended := by
  unfold proceed enter
  grind [Stage.isLive]

theorem Sound.withHistory {y : System σ} (hy : y.Sound) (h : History) :
    System.Sound ⟨y.link, y.stage, h⟩ :=
  ⟨hy.alive, hy.streams, hy.stopped, hy.emptied⟩

/-- A stage of a round moves messages from one place to another. -/
theorem proceed_conserved {s : LinkState σ} {stage : Stage} (hlive : stage.isLive = true)
    (hround : ∀ why, stage ≠ .leaving why) (hy : System.Sound ⟨s, stage, {}⟩) {k : Nat}
    (hbalanced : s.metrics.submitted + k = s.metrics.sent + s.metrics.dropped + s.backlog)
    {y : System σ} (heq : proceed net ⟨s, stage, {}⟩ = y) (hdied : y.stage ≠ .died) :
    y.stage.isLive = true ∧ System.Sound ⟨y.link, y.stage, {}⟩ ∧
      y.link.metrics.submitted = s.metrics.submitted ∧
      y.link.metrics.submitted + k = y.link.metrics.sent + y.link.metrics.dropped +
        y.link.backlog := by
  subst heq
  -- a history in which as many messages were accepted and refused
  obtain ⟨h, haccepted, hrefused⟩ : ∃ h : History,
      h.accepted.length = s.metrics.submitted ∧ h.refused = k :=
    ⟨{ accepted := List.replicate s.metrics.submitted .empty, refused := k }, by simp, rfl⟩
  obtain ⟨hlink, hstage, haccepted', hrefused'⟩ := proceed_withHistory net s stage h
  have hy' := hy.withHistory h
  have hstep : Transition net ⟨s, stage, h⟩ (proceed net ⟨s, stage, h⟩) := transition_proceed hy'
  have hlive' : (proceed net ⟨s, stage, {}⟩).stage.isLive = true :=
    (Stage.live_or_ended hdied).resolve_right (stage_proceed_ne_ended net hlive hround)
  rw [← hstage] at hlive' hdied
  have hbalanced' : System.Balanced ⟨s, stage, h⟩ := .of_live hlive (hrefused ▸ hbalanced)
  have hafter := (hbalanced'.transition hy' hstep).live hlive'
  have hsubmitted := hstep.submitted_eq (fun _ => haccepted.symm) hdied
  rw [haccepted', haccepted, hlink] at hsubmitted
  rw [hrefused', hrefused, hlink] at hafter
  have hsound := (hy'.transition hstep).withHistory {}
  rw [hlink, hstage] at hsound
  rw [hstage] at hlive'
  exact ⟨hlive', hsound, hsubmitted, hafter⟩

end System

/-! ## Races -/

namespace Race

/-- The messages that the loop has and that are not counted. -/
def held (x : Race σ) : Nat :=
  match x.phase with
  | .round _ => x.link.backlog
  | .discarding dropped => x.link.queue.length + dropped + x.link.unsentFrames
  | .closing => x.link.queue.length
  | .gone => x.lost
  | .broken => 0

/-- The loop left its rounds and is still there. -/
def Phase.isEnding : Phase → Bool
  | .discarding _ => true
  | .closing => true
  | _ => false

/-- Each message that the queue took or refused is counted, or the loop has it, or the call that
submitted it has still to count it. -/
structure Accounted (x : Race σ) : Prop where
  conserved : x.phase ≠ .broken →
    x.link.metrics.submitted + x.calls.countP Call.isEnqueued + x.calls.countP Call.isRefused =
      x.link.metrics.sent + x.link.metrics.dropped + x.held
  accepted : x.phase ≠ .broken → x.link.metrics.submitted = x.calls.countP Call.isAccepted
  live : ∀ stage, x.phase = .round stage → stage.isLive = true
  sound : ∀ stage, x.phase = .round stage → System.Sound ⟨x.link, stage, {}⟩
  stopped : x.phase.isEnding = true → x.link.stopped = true
  closed : x.phase = .gone → x.link.receiving = false
  late : x.phase = .closing → x.link.queue.length + x.calls.countP Call.isAdmitted ≤ x.late
  lost : x.phase = .gone → x.link.loopDied = false → x.lost ≤ x.late

/-! ## Callers -/

structure Aside (s s' : LinkState σ) : Prop where
  carrier : s'.carrier = s.carrier
  outbox : s'.outbox = s.outbox
  receiving : s'.receiving = s.receiving
  loopDied : s'.loopDied = s.loopDied
  sent : s'.metrics.sent = s.metrics.sent
  stopped : s.stopped = true → s'.stopped = true
  queue : s.receiving = false → s'.queue = s.queue

/-- What callers do keeps the equation if it keeps it for the queue. -/
theorem Accounted.aside {x : Race σ} (h : x.Accounted) {s : LinkState σ} {calls : List Call}
    (haside : Aside x.link s)
    (hcount : s.metrics.submitted + calls.countP Call.isEnqueued + calls.countP Call.isRefused +
        (x.link.metrics.dropped + x.link.queue.length) =
      x.link.metrics.submitted + x.calls.countP Call.isEnqueued + x.calls.countP Call.isRefused +
        (s.metrics.dropped + s.queue.length))
    (haccepted : s.metrics.submitted + x.calls.countP Call.isAccepted =
      x.link.metrics.submitted + calls.countP Call.isAccepted)
    (hlate : x.link.stopped = true → s.queue.length + calls.countP Call.isAdmitted ≤
      x.link.queue.length + x.calls.countP Call.isAdmitted) :
    Accounted { x with link := s, calls := calls } := by
  have hsent := haside.sent
  have hbacklog : s.backlog + x.link.queue.length = x.link.backlog + s.queue.length := by
    simp only [LinkState.backlog, LinkState.unsentFrames_eq, haside.carrier, haside.outbox]
    omega
  have hframes : s.unsentFrames = x.link.unsentFrames := by
    simp only [LinkState.unsentFrames_eq, haside.carrier]
  constructor
  · intro hbroken
    have hconserved := h.conserved hbroken
    cases hphase : x.phase with
    | round stage =>
      simp only [held, hphase] at hconserved ⊢
      omega
    | discarding dropped =>
      simp only [held, hphase] at hconserved ⊢
      omega
    | closing =>
      simp only [held, hphase] at hconserved ⊢
      omega
    | gone =>
      -- with the receiving end gone, the queue stays as it is
      have hqueue := haside.queue (h.closed hphase)
      rw [hqueue] at hcount
      simp only [held, hphase] at hconserved ⊢
      omega
    | broken => exact absurd hphase hbroken
  · intro hbroken
    have hbefore := h.accepted hbroken
    change s.metrics.submitted = calls.countP Call.isAccepted
    omega
  · exact h.live
  · intro stage hphase
    have hlive := h.live stage hphase
    have hsound := h.sound stage hphase
    exact .of_live hlive (haside.loopDied.trans (hsound.alive hlive))
      fun t ht => hsound.streams hlive t (haside.carrier ▸ ht)
  · exact fun hending => haside.stopped (h.stopped hending)
  · exact fun hgone => haside.receiving.trans (h.closed hgone)
  · intro hclosing
    have hstopped := h.stopped (by rw [show x.phase = .closing from hclosing]; rfl)
    exact (hlate hstopped).trans (h.late hclosing)
  · exact fun hgone hlive => h.lost hgone (haside.loopDied ▸ hlive)

theorem Aside.refl (s : LinkState σ) : Aside s s := ⟨rfl, rfl, rfl, rfl, rfl, id, fun _ => rfl⟩

theorem aside_release (s : LinkState σ) (b : Builder) : Aside s (s.release b) := by
  obtain ⟨pool, hpool⟩ := s.exists_release b
  rw [hpool]
  exact ⟨rfl, rfl, rfl, rfl, rfl, id, fun _ => rfl⟩

structure Call.Advances (s s' : LinkState σ) (c c' : Call) : Prop where
  aside : Aside s s'
  count : s'.metrics.submitted + [c'].countP isEnqueued + [c'].countP isRefused +
      (s.metrics.dropped + s.queue.length) =
    s.metrics.submitted + [c].countP isEnqueued + [c].countP isRefused +
      (s'.metrics.dropped + s'.queue.length)
  accepted : s'.metrics.submitted + [c].countP isAccepted =
    s.metrics.submitted + [c'].countP isAccepted
  late : s.stopped = true →
    s'.queue.length + [c'].countP isAdmitted ≤ s.queue.length + [c].countP isAdmitted

/-- A call ends without the queue. -/
theorem Call.advances_release (s : LinkState σ) (b : Builder) {c : Call} {e : LinkError}
    (hc : c = .begun b ∨ c = .admitted b) (he : ∀ n, e ≠ .queueFull n) :
    Advances s (s.release b) c (.returned (.error e)) := by
  have hrefused : isRefused (.returned (.error e)) = false := by
    cases e <;> simp [isRefused] at he ⊢
  refine ⟨aside_release s b, ?_, ?_, fun _ => ?_⟩
  all_goals
    simp only [List.countP_singleton, hrefused, LinkState.release_metrics, LinkState.release_queue]
    rcases hc with rfl | rfl <;> simp [isEnqueued, isRefused, isAccepted, isAdmitted]

theorem Call.advances_step (net : Net σ) (s : LinkState σ) (c : Call) :
    Advances s (c.step net s).1 c (c.step net s).2 := by
  cases c with
  | begun b =>
    simp only [step]
    split
    next => exact advances_release s b (.inl rfl) fun _ => LinkError.noConfusion
    next =>
      split
      next => exact advances_release s b (.inl rfl) fun _ => LinkError.noConfusion
      next hgoing => exact ⟨.refl s, rfl, rfl, fun hstopped => absurd hstopped hgoing⟩
  | admitted b =>
    simp only [step, LinkState.enqueue]
    cases hreceiving : s.receiving with
    | false => exact advances_release s b (.inr rfl) fun _ => LinkError.noConfusion
    | true =>
      by_cases hfull : s.config.queueCapacity ≤ s.queue.length
      · simp only [hfull, Bool.not_true, Bool.false_eq_true, if_false, if_true]
        exact ⟨.refl s, rfl, rfl, fun _ => by simp [isAdmitted]⟩
      · simp only [hfull, Bool.not_true, Bool.false_eq_true, if_false]
        refine ⟨⟨rfl, rfl, hreceiving.symm, rfl, rfl, id, fun hgone => ?_⟩, ?_, rfl, fun _ => ?_⟩
        · simp [hreceiving] at hgone
        · simp [isEnqueued, isRefused]
          omega
        · simp [isAdmitted]
  | enqueued =>
    obtain ⟨w, died, -, hwake⟩ := s.countSubmitted.exists_wake net
    simp only [step, hwake]
    refine ⟨⟨rfl, rfl, rfl, rfl, rfl, id, fun _ => rfl⟩, ?_, ?_, fun _ => le_rfl⟩
    · simp [LinkState.countSubmitted, isEnqueued, isRefused]
    · simp [LinkState.countSubmitted, isAccepted]
  | overflowed b =>
    obtain ⟨pool, hpool⟩ := s.exists_release b
    simp only [step, hpool]
    refine ⟨⟨rfl, rfl, rfl, rfl, rfl, id, fun _ => rfl⟩, ?_, rfl, fun _ => le_rfl⟩
    simp [LinkState.countDropped, isEnqueued, isRefused]
    omega
  | returned r => exact ⟨.refl s, rfl, rfl, fun _ => le_rfl⟩

/-- When one call changes, each count changes as the count of this call. -/
theorem countP_set {calls : List Call} {i : Nat} {c : Call} (h : calls[i]? = some c) (c' : Call)
    (p : Call → Bool) :
    (calls.set i c').countP p + [c].countP p = calls.countP p + [c'].countP p := by
  induction calls generalizing i with
  | nil => simp at h
  | cons head rest ih =>
    cases i with
    | zero =>
      obtain rfl : head = c := by simpa using h
      simp only [List.set_cons_zero, List.countP_cons, List.countP_nil]
      omega
    | succ i =>
      have hrest := ih (i := i) (by simpa using h)
      simp only [List.set_cons_succ, List.countP_cons] at hrest ⊢
      omega

/-- A step of a call keeps the equation. -/
theorem Accounted.callStep {x : Race σ} (h : x.Accounted) (net : Net σ) (i : Nat) :
    (x.callStep net i).Accounted := by
  unfold Race.callStep
  split
  next => exact h
  next c hc =>
    have hadvances := c.advances_step net x.link
    have hset := countP_set hc (c.step net x.link).2
    refine h.aside hadvances.aside ?_ ?_ fun hstopped => ?_
    · have hcount := hadvances.count
      have henqueued := hset Call.isEnqueued
      have hrefused := hset Call.isRefused
      omega
    · have hcount := hadvances.accepted
      have haccepted := hset Call.isAccepted
      omega
    · have hlate := hadvances.late hstopped
      have hadmitted := hset Call.isAdmitted
      omega

/-- What has nothing to do with messages keeps the equation. -/
theorem Accounted.calm {x : Race σ} (h : x.Accounted) {s : LinkState σ} (haside : Aside x.link s)
    (hmetrics : s.metrics = x.link.metrics) (hqueue : s.queue = x.link.queue) :
    Accounted { x with link := s } := by
  refine h.aside haside ?_ ?_ fun _ => ?_
  · rw [hmetrics, hqueue]
  · rw [hmetrics]
  · rw [hqueue]

theorem Accounted.submit {x : Race σ} (h : x.Accounted) (b : Builder) :
    Accounted { x with calls := x.calls ++ [.begun b] } := by
  have hsame (p : Call → Bool) (hp : p (Call.begun b) = false) :
      (x.calls ++ [Call.begun b]).countP p = x.calls.countP p := by
    simp [hp]
  refine h.aside (.refl x.link) ?_ ?_ fun _ => ?_
  · rw [hsame Call.isEnqueued rfl, hsame Call.isRefused rfl]
  · rw [hsame Call.isAccepted rfl]
  · rw [hsame Call.isAdmitted rfl]

theorem calm_wake (net : Net σ) (s : LinkState σ) :
    Aside s (s.wake net) ∧ (s.wake net).metrics = s.metrics ∧ (s.wake net).queue = s.queue := by
  obtain ⟨w, died, -, hwake⟩ := s.exists_wake net
  rw [hwake]
  exact ⟨⟨rfl, rfl, rfl, rfl, rfl, id, fun _ => rfl⟩, rfl, rfl⟩

theorem Accounted.acquire {x : Race σ} (h : x.Accounted) :
    Accounted { x with link := x.link.acquire.2 } := by
  obtain ⟨pool, hpool⟩ := x.link.exists_acquire
  rw [hpool]
  exact h.calm ⟨rfl, rfl, rfl, rfl, rfl, id, fun _ => rfl⟩ rfl rfl

theorem Accounted.guard {x : Race σ} (h : x.Accounted) :
    Accounted { x with link := x.link.guard } :=
  h.calm ⟨rfl, rfl, rfl, rfl, rfl, id, fun _ => rfl⟩ rfl rfl

theorem Accounted.dropGuard {x : Race σ} (h : x.Accounted) (net : Net σ) :
    Accounted { x with link := x.link.dropGuard net } := by
  have hleft : Accounted { x with link := { x.link with guards := x.link.guards - 1 } } :=
    h.calm ⟨rfl, rfl, rfl, rfl, rfl, id, fun _ => rfl⟩ rfl rfl
  unfold LinkState.dropGuard
  dsimp only
  split
  next =>
    obtain ⟨haside, hmetrics, hqueue⟩ := calm_wake net { x.link with guards := x.link.guards - 1 }
    exact hleft.calm haside hmetrics hqueue
  next => exact hleft

theorem Accounted.stop {x : Race σ} (h : x.Accounted) (net : Net σ) :
    Accounted { x with link := x.link.stop net } := by
  have hstopped : Accounted { x with link := { x.link with stopped := true } } :=
    h.calm ⟨rfl, rfl, rfl, rfl, rfl, fun _ => rfl, fun _ => rfl⟩ rfl rfl
  obtain ⟨haside, hmetrics, hqueue⟩ := calm_wake net { x.link with stopped := true }
  exact hstopped.calm haside hmetrics hqueue

/-! ## The loop -/

section Loop

variable {s : LinkState σ} {calls : List Call} {lost late : Nat}

/-- What keeps the equation while the loop goes on with its rounds. -/
theorem Accounted.of_round {stage : Stage} (hlive : stage.isLive = true)
    (hsound : System.Sound ⟨s, stage, {}⟩)
    (hconserved : s.metrics.submitted + calls.countP Call.isEnqueued +
      calls.countP Call.isRefused = s.metrics.sent + s.metrics.dropped + s.backlog)
    (haccepted : s.metrics.submitted = calls.countP Call.isAccepted) :
    Accounted ⟨s, .round stage, calls, lost, late⟩ where
  conserved _ := hconserved
  accepted _ := haccepted
  live stage' hstage := by
    obtain rfl := Phase.round.inj hstage
    exact hlive
  sound stage' hstage := by
    obtain rfl := Phase.round.inj hstage
    exact hsound
  stopped := nofun
  closed := nofun
  late := nofun
  lost := nofun

/-- The loop goes on with another stage, and nothing else changes. -/
theorem Accounted.enter {stage next : Stage} (h : Accounted ⟨s, .round stage, calls, lost, late⟩)
    (hnext : next.isLive = true) : Accounted ⟨s, .round next, calls, lost, late⟩ :=
  have hlive := h.live stage rfl
  have hsound := h.sound stage rfl
  .of_round hnext (.of_live hnext (hsound.alive hlive) (hsound.streams hlive)) (h.conserved nofun)
    (h.accepted nofun)

/-- A stage of a round keeps the equation. -/
theorem Accounted.stageStep {stage : Stage} (h : Accounted ⟨s, .round stage, calls, lost, late⟩)
    (net : Net σ) (hround : ∀ why, stage ≠ .leaving why) :
    (Race.stageStep net ⟨s, .round stage, calls, lost, late⟩ stage).Accounted := by
  obtain ⟨y, hy⟩ : ∃ y, System.proceed net { link := s, stage := stage } = y := ⟨_, rfl⟩
  simp only [Race.stageStep, hy]
  split
  next =>
    exact ⟨fun hthere => absurd rfl hthere, fun hthere => absurd rfl hthere, nofun, nofun, nofun,
      nofun, nofun, nofun⟩
  next hdied =>
    have hconserved : s.metrics.submitted + calls.countP Call.isEnqueued +
        calls.countP Call.isRefused = s.metrics.sent + s.metrics.dropped + s.backlog :=
      h.conserved nofun
    have haccepted : s.metrics.submitted = calls.countP Call.isAccepted := h.accepted nofun
    obtain ⟨hlive, hsound, hsubmitted, hafter⟩ := System.proceed_conserved (s := s)
      (h.live stage rfl) hround (h.sound stage rfl)
      (k := calls.countP Call.isEnqueued + calls.countP Call.isRefused)
      (by omega) hy hdied
    exact .of_round hlive hsound (by omega) (hsubmitted.trans haccepted)

/-- The loop takes a message from the queue. -/
theorem Accounted.take (h : Accounted ⟨s, .round .taking, calls, lost, late⟩) {b : Builder}
    {rest : List Builder} (hqueue : s.queue = b :: rest) :
    Accounted ⟨(s.withQueue rest).take b, .round .taking, calls, lost, late⟩ := by
  have hconserved := h.conserved nofun
  have haccepted := h.accepted nofun
  have hsound := h.sound .taking rfl
  simp only [held, LinkState.backlog, LinkState.unsentFrames_eq, hqueue, List.length_cons]
    at hconserved
  obtain ⟨pool, hpool⟩ := ((s.withQueue rest).countDropped 1).exists_release b
  unfold LinkState.take
  split
  next =>
    rw [hpool]
    refine .of_round rfl (.of_live rfl (hsound.alive rfl) (hsound.streams rfl)) ?_ haccepted
    simp only [LinkState.countDropped, LinkState.withQueue, LinkState.backlog,
      LinkState.unsentFrames_eq]
    omega
  next =>
    refine .of_round rfl (.of_live rfl (hsound.alive rfl) (hsound.streams rfl)) ?_ haccepted
    simp only [LinkState.withQueue, LinkState.backlog, LinkState.unsentFrames_eq,
      List.length_append, List.length_singleton]
    omega

/-- The loop sets the flag and begins to discard. -/
theorem Accounted.leave {why : LinkState.Departure}
    (h : Accounted ⟨s, .round (.leaving why), calls, lost, late⟩) :
    Accounted ⟨{ s with stopped := true }, .discarding s.outbox.length, calls, lost, late⟩ := by
  have hconserved := h.conserved nofun
  refine ⟨fun _ => ?_, fun _ => h.accepted nofun, nofun, nofun, fun _ => rfl, nofun, nofun, nofun⟩
  simp only [held, LinkState.backlog, LinkState.unsentFrames_eq] at hconserved ⊢
  omega

/-- The loop discards a message from the queue. -/
theorem Accounted.discard {dropped : Nat}
    (h : Accounted ⟨s, .discarding dropped, calls, lost, late⟩) {b : Builder} {rest : List Builder}
    (hqueue : s.queue = b :: rest) :
    Accounted ⟨(s.withQueue rest).release b, .discarding (dropped + 1), calls, lost, late⟩ := by
  have hconserved := h.conserved nofun
  obtain ⟨pool, hpool⟩ := (s.withQueue rest).exists_release b
  rw [hpool]
  refine ⟨fun _ => ?_, fun _ => h.accepted nofun, nofun, nofun, fun _ => h.stopped rfl, nofun,
    nofun, nofun⟩
  simp only [held, LinkState.unsentFrames_eq, hqueue, List.length_cons] at hconserved
  simp only [held, LinkState.unsentFrames_eq, LinkState.withQueue]
  omega

/-- The loop finds the queue empty and counts what it discarded. From now on a call can put its
message into the queue only if it has looked at the flag already. -/
theorem Accounted.close {dropped : Nat} (h : Accounted ⟨s, .discarding dropped, calls, lost, late⟩)
    (hqueue : s.queue = []) :
    Accounted ⟨(s.outbox.foldl LinkState.release s.emptied).countDropped (dropped + s.unsentFrames),
      .closing, calls, lost, calls.countP Call.isAdmitted⟩ := by
  have hconserved := h.conserved nofun
  obtain ⟨pool, hpool⟩ := s.emptied.exists_foldl_release s.outbox
  rw [hpool]
  refine ⟨fun _ => ?_, fun _ => h.accepted nofun, nofun, nofun, fun _ => h.stopped rfl, nofun,
    fun _ => (Nat.zero_add _).le, nofun⟩
  simp only [held, hqueue, List.length_nil] at hconserved
  simp only [held, LinkState.countDropped, LinkState.emptied, List.length_nil]
  omega

/-- The loop goes, and with it what is in the queue. -/
theorem Accounted.vanish (h : Accounted ⟨s, .closing, calls, lost, late⟩) (net : Net σ) :
    Accounted ⟨s.vanish net, .gone, calls, s.queue.length, late⟩ :=
  ⟨fun _ => h.conserved nofun, fun _ => h.accepted nofun, nofun, nofun, nofun, fun _ => rfl, nofun,
    fun _ _ => le_of_add_le_left (h.late rfl)⟩

/-- A step of the loop keeps the equation. -/
theorem Accounted.proceed {x : Race σ} (h : x.Accounted) (net : Net σ) :
    (x.proceed net).Accounted := by
  obtain ⟨s, phase, calls, lost, late⟩ := x
  cases phase with
  | round stage =>
    cases stage with
    | taking =>
      simp only [Race.proceed]
      split
      next => exact h.enter rfl
      next hqueue => exact h.take hqueue
    | leaving why => exact h.leave
    | _ => exact h.stageStep net nofun
  | discarding dropped =>
    simp only [Race.proceed]
    split
    next hqueue => exact h.close hqueue
    next hqueue => exact h.discard hqueue
  | closing => exact h.vanish net
  | gone => exact h
  | broken => exact h

/-- A thread that ends while it waits takes all that it has with it. -/
theorem Accounted.perish (h : Accounted ⟨s, .round .waiting, calls, lost, late⟩) (net : Net σ) :
    Accounted ⟨{ s with loopDied := true }.vanish net, .gone, calls, s.backlog, late⟩ where
  conserved _ := h.conserved (by simp)
  accepted _ := h.accepted (by simp)
  live := by simp
  sound := by simp
  stopped := by simp [Phase.isEnding]
  closed _ := rfl
  late := by simp
  lost _ halive := by simp [LinkState.vanish] at halive

/-- The end of the wait keeps the equation. -/
theorem Accounted.answer {x : Race σ} (h : x.Accounted) (net : Net σ)
    (hphase : x.phase = .round .waiting) (r : Reply (List Event)) : (x.answer net r).Accounted := by
  obtain ⟨s, phase, calls, lost, late⟩ := x
  obtain rfl : phase = .round .waiting := hphase
  cases r with
  | ok events => exact h.enter rfl
  | fail e =>
    by_cases hagain : e = .interrupted
    · subst hagain
      exact h.enter rfl
    · have hleaves : Accounted ⟨s, .round (.leaving (.pollFailed e)), calls, lost, late⟩ :=
        h.enter rfl
      simpa [Race.answer, System.answer, hagain] using hleaves
  | fatal => exact h.perish net

end Loop

/-- Each action keeps the equation. -/
theorem Accounted.step {x : Race σ} (h : x.Accounted) (net : Net σ) (a : Action) :
    (x.step net a).Accounted := by
  cases a with
  | submit b => exact h.submit b
  | call i => exact h.callStep net i
  | acquire => exact h.acquire
  | guard => exact h.guard
  | dropGuard => exact h.dropGuard net
  | stop => exact h.stop net
  | proceed => exact h.proceed net
  | wake r =>
    simp only [Race.step]
    split
    next hphase => exact h.answer net hphase r
    next => exact h

/-! ## Races of a link -/

namespace Reachable

variable {w₀ : σ} {x : Race σ}

theorem accounted (h : Reachable net w₀ x) : x.Accounted := by
  induction h with
  | opened hopened =>
    have hreach := ArmStream.Reachable.opened hopened
    obtain ⟨s, hfresh, rfl⟩ := LinkState.exists_fresh hopened
    refine .of_round rfl hreach.sound ?_ ?_ <;>
      cases hfresh <;> simp [LinkState.backlog, LinkState.unsentFrames]
  | step a _ ih => exact ih.step net a

theorem run (h : Reachable net w₀ x) (actions : List Action) :
    Reachable net w₀ (x.run net actions) := by
  induction actions generalizing x with
  | nil => exact h
  | cons a rest ih => exact ih (h.step a)

/-- A property that can be checked after a given race holds in a reachable one. -/
theorem exists_of_run (net : Net σ) (w₀ : σ) (near far : String) (config : LinkConfig)
    (actions : List Action) (p : Race σ → Bool)
    (h : (System.opened? net near far config w₀).any
      (fun y => p (Race.run net { link := y.link } actions)) = true) :
    ∃ x, Reachable net w₀ x ∧ p x = true := by
  cases hopened : System.opened? net near far config w₀ with
  | none => simp [hopened] at h
  | some y =>
    exact ⟨Race.run net { link := y.link } actions, (opened hopened).run actions,
      by simpa [hopened] using h⟩

/-- When the loop is gone and all calls returned, the accepted and refused messages are those that
were sent or dropped and those that were lost with the loop. So all are counted if and only if none
was lost, as when the loop ended by itself and no call stood between its look at the flag and the
queue when the loop found the queue empty. -/
theorem conserved_iff (h : Reachable net w₀ x) (hgone : x.phase = .gone)
    (hreturned : ∀ c ∈ x.calls, c.isReturned = true) :
    x.link.metrics.submitted = x.calls.countP Call.isAccepted ∧
    x.link.metrics.submitted + x.calls.countP Call.isRefused =
      x.link.metrics.sent + x.link.metrics.dropped + x.lost ∧
    (x.link.metrics.submitted + x.calls.countP Call.isRefused =
        x.link.metrics.sent + x.link.metrics.dropped ↔ x.lost = 0) ∧
    (x.link.loopDied = false → x.lost ≤ x.late) := by
  have hthere : x.phase ≠ .broken := by simp [hgone]
  have hnone : x.calls.countP Call.isEnqueued = 0 := by
    rw [List.countP_eq_zero]
    intro c hc henqueued
    have hends := hreturned c hc
    cases c <;> simp [Call.isEnqueued, Call.isReturned] at henqueued hends
  have hconserved := h.accounted.conserved hthere
  simp only [held, hgone] at hconserved
  exact ⟨h.accounted.accepted hthere, by omega, by omega, h.accounted.lost hgone⟩

/-- A call looks at the flag before the loop sets it and tries the queue before the loop empties it.
Its message is dropped. -/
theorem conserved_iff_of_run :
    ∃ x : Race (List (Reply Nat)), Reachable Net.scripted [] x ∧ x.phase = .gone ∧
      (∀ c ∈ x.calls, c.isReturned = true) ∧ x.link.loopDied = false ∧ x.late = 0 ∧
      x.link.metrics.submitted = 1 ∧
      x.link.metrics.submitted + x.calls.countP Call.isRefused =
        x.link.metrics.sent + x.link.metrics.dropped := by
  obtain ⟨x, hreach, hx⟩ := exists_of_run Net.scripted []
    "tcp://127.0.0.1:0" "tcp://10.9.8.7:30010" {}
    [.guard, .submit .bare, .call 0, .stop, .proceed, .proceed, .call 0, .proceed, .call 0,
      .proceed, .proceed]
    (fun x => x.phase == .gone && x.calls.all Call.isReturned && !x.link.loopDied && x.late == 0 &&
      x.link.metrics.submitted == 1) (by cbv)
  simp only [Bool.and_eq_true, beq_iff_eq, Bool.not_eq_true', List.all_eq_true] at hx
  obtain ⟨⟨⟨⟨hgone, hreturned⟩, halive⟩, hlate⟩, hsubmitted⟩ := hx
  obtain ⟨-, -, hiff, hlost⟩ := hreach.conserved_iff hgone hreturned
  exact ⟨x, hreach, hgone, hreturned, halive, hlate, hsubmitted,
    hiff.2 (Nat.le_zero.1 (hlate ▸ hlost halive))⟩

/-- A call looks at the flag before the loop sets it, and tries the queue after the loop found it
empty. Its message is accepted, and neither sent nor dropped. The same happens to a message that
waits in the queue when a call of the system ends the thread of the loop. -/
theorem dropped_zero_of_late_call :
    (∃ x : Race (List (Reply Nat)), Reachable Net.scripted [] x ∧ x.phase = .gone ∧
      (∀ c ∈ x.calls, c.isReturned = true) ∧ x.link.loopDied = false ∧
      x.calls.countP Call.isAccepted = 1 ∧ x.link.metrics.submitted = 1 ∧
      x.link.metrics.sent = 0 ∧ x.link.metrics.dropped = 0) ∧
    ∃ x : Race (List (Reply Nat)), Reachable Net.scripted [] x ∧ x.phase = .gone ∧
      (∀ c ∈ x.calls, c.isReturned = true) ∧ x.link.loopDied = true ∧
      x.calls.countP Call.isAccepted = 1 ∧ x.link.metrics.submitted = 1 ∧
      x.link.metrics.sent = 0 ∧ x.link.metrics.dropped = 0 := by
  constructor
  · obtain ⟨x, hreach, hx⟩ := exists_of_run Net.scripted []
      "tcp://127.0.0.1:0" "tcp://10.9.8.7:30010" {}
      [.guard, .submit .bare, .call 0, .stop, .proceed, .proceed, .proceed, .call 0, .proceed,
        .call 0]
      (fun x => x.phase == .gone && x.calls.all Call.isReturned && !x.link.loopDied &&
        x.calls.countP Call.isAccepted == 1 && x.link.metrics.submitted == 1 &&
        x.link.metrics.sent == 0 && x.link.metrics.dropped == 0) (by cbv)
    simp only [Bool.and_eq_true, beq_iff_eq, Bool.not_eq_true', List.all_eq_true] at hx
    obtain ⟨⟨⟨⟨⟨⟨hgone, hreturned⟩, halive⟩, haccepted⟩, hsubmitted⟩, hsent⟩, hdropped⟩ := hx
    exact ⟨x, hreach, hgone, hreturned, halive, haccepted, hsubmitted, hsent, hdropped⟩
  · obtain ⟨x, hreach, hx⟩ := exists_of_run Net.scripted []
      "tcp://127.0.0.1:0" "tcp://10.9.8.7:30010" {}
      [.guard, .proceed, .proceed, .proceed, .proceed, .submit .bare, .call 0, .call 0, .call 0,
        .wake .fatal]
      (fun x => x.phase == .gone && x.calls.all Call.isReturned && x.link.loopDied &&
        x.calls.countP Call.isAccepted == 1 && x.link.metrics.submitted == 1 &&
        x.link.metrics.sent == 0 && x.link.metrics.dropped == 0) (by cbv)
    simp only [Bool.and_eq_true, beq_iff_eq, List.all_eq_true] at hx
    obtain ⟨⟨⟨⟨⟨⟨hgone, hreturned⟩, hdied⟩, haccepted⟩, hsubmitted⟩, hsent⟩, hdropped⟩ := hx
    exact ⟨x, hreach, hgone, hreturned, hdied, haccepted, hsubmitted, hsent, hdropped⟩

end Reachable

end Race

end ArmStream
