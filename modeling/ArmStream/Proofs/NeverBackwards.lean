import Mathlib
import ArmStream.Proofs.Delivery
import ArmStream.Proofs.Stamps

/-!
# A receiver never sees a command go back

The queue keeps the order of the messages, and so does the loop, whichever of them it gives up and
whatever peers it serves. So what one receiver gets is stamped in ascending order, and the writes
that it sees never go back, in any interleaving of writers, ticks and the loop.

## Main definitions

- `Interleaving.Orderly`: the messages stand in the order of their numbers.
- `Interleaving.Timed`: stamps are given when vectors are copied.
- `History.received`: what a receiver gets.

## Main statements

- `Interleaving.Orderly.step`: each action keeps the order.
- `Interleaving.timed_run`: when the vectors of messages were copied.
- `Interleaving.never_backwards`: what messages carry, and in which order a receiver gets them.
-/

namespace ArmStream

variable {σ : Type} {net : Net σ}

/-! ## The order of messages -/

namespace History

/-- The messages stand in the order of their numbers. -/
structure Ascending (h : History) : Prop where
  increasing : h.line.Pairwise (· < ·)
  bounded : ∀ m ∈ h.line, m < h.accepted.length

variable {h h' : History}

theorem Ascending.sublist (ha : h.Ascending) (hline : h'.line.Sublist h.line)
    (haccepted : h'.accepted = h.accepted) : h'.Ascending :=
  ⟨ha.increasing.sublist hline, fun m hm => haccepted ▸ ha.bounded m (hline.mem hm)⟩

theorem Ascending.submit (ha : h.Ascending) (b : Builder) : (h.submit b (.ok ())).Ascending := by
  have hline : (h.submit b (.ok ())).line = h.line ++ [h.accepted.length] := by
    simp [line, History.submit]
  constructor
  · rw [hline]
    exact List.pairwise_append.2
      ⟨ha.increasing, List.pairwise_singleton _ _, by simpa using ha.bounded⟩
  · intro m hm
    rw [hline, List.mem_append, List.mem_singleton] at hm
    simp only [History.submit, List.length_append, List.length_singleton]
    rcases hm with hm | rfl
    · exact Nat.lt_succ_of_lt (ha.bounded m hm)
    · exact Nat.lt_succ_self _

theorem map_message_zipWith (ms : List Nat) (rs : List Recipient) :
    (List.zipWith HandOver.mk ms rs).map HandOver.message = ms.take rs.length := by
  induction ms generalizing rs with
  | nil => simp
  | cons m ms ih =>
    cases rs with
    | nil => rfl
    | cons r rs => simp [ih]

theorem line_depart (h : History) (rs : List Recipient) : (h.depart rs).line = h.line := by
  simp only [line, depart, List.map_append, map_message_zipWith, List.append_assoc]
  rw [← List.append_assoc (h.pending.take rs.length), List.take_append_drop]

theorem line_draw (h : History) (kept : Bool) : (h.draw kept).line.Sublist h.line := by
  cases kept with
  | true =>
    have hsame : (h.draw true).line = h.line := by
      simp only [line, draw, if_true, List.append_assoc]
      rw [List.take_append_drop]
    rw [hsame]
  | false =>
    simpa [line, draw] using h.queued.tail_sublist

theorem line_giveUp (h : History) : h.giveUp.line.Sublist h.line := by
  simp [line, giveUp]

/-- The loop hands the messages on in their order and adds none. -/
theorem line_proceed (net : Net σ) (s : LinkState σ) (stage : Stage) (h : History) :
    (System.proceed net ⟨s, stage, h⟩).history.line.Sublist h.line := by
  cases stage with
  | taking => simpa [System.proceed, line, History.take] using List.take_sublist _ h.queued
  | handing =>
    simp only [System.proceed, System.enter]
    have hsame : ((h.depart (s.departures net)).offer (s.offers net)).line = h.line :=
      h.line_depart _
    split <;> exact hsame ▸ .refl _
  | reacting events =>
    cases events with
    | nil => exact .refl _
    | cons e rest =>
      simp only [System.proceed, System.enter]
      split <;> exact .refl _
  | reopening =>
    simp only [System.proceed, System.enter]
    split <;> exact .refl _
  | leaving why => exact h.line_giveUp
  | head | resting | waiting | ended | died => exact .refl _

theorem line_follow (net : Net σ) (x : Race σ) (h : History) :
    (h.follow net x).line.Sublist h.line := by
  unfold follow
  split
  next =>
    split
    next => exact .refl _
    next => exact h.line_draw _
  next => simp [line, abandon]
  next stage _ _ _ => exact h.line_proceed net x.link stage
  next =>
    split
    next => exact .refl _
    next => exact h.line_draw _
  next => exact h.line_giveUp
  next => exact .refl _
  next => exact .refl _

/-- The numbers of the messages that a receiver got: those that were handed to a stream, or those
that the datagram socket took. -/
def received (h : History) : Option Conn → List Nat
  | some c => h.messagesTo c
  | none => (h.handOvers.filter fun o => o.recipient = .datagram).map HandOver.message

theorem received_sublist (h : History) (receiver : Option Conn) :
    (h.received receiver).Sublist h.line := by
  cases receiver with
  | some c => exact h.messagesTo_sublist c
  | none =>
    have hsent := List.Sublist.map HandOver.message
      (List.filter_sublist (l := h.handOvers) (p := fun o => o.recipient = .datagram))
    exact hsent.trans (by simp [line])

/-- The loop draws a message from the queue. -/
theorem Ordered.draw {b : Builder} {rest outbox : List Builder} (ho : h.Ordered (b :: rest) outbox)
    (kept : Bool) : (h.draw kept).Ordered rest (if kept then outbox ++ [b] else outbox) := by
  obtain ⟨m, ms, hqueued, hm, hms⟩ := List.map_eq_cons_iff.1 ho.queue.symm
  have hsub := h.line_draw kept
  refine ⟨ho.ascending.sublist hsub, fun k hk => ho.bounded k (hsub.mem hk), ?_, ?_,
    ho.finished, ?_⟩
  · simp only [History.draw, hqueued, List.drop_one, List.tail_cons]
    exact hms.symm
  · cases kept with
    | true => simp [History.draw, hqueued, ho.outbox, History.message, ← hm]
    | false => exact ho.outbox
  · have htotal := ho.total
    cases kept <;> simp [line, History.draw, hqueued] at htotal ⊢ <;> omega

end History

/-! ## The messages of the loop -/

/-- A call changes the queue only when it tries it. -/
theorem Race.Call.queue_step (net : Net σ) (s : LinkState σ) {c : Call}
    (hc : c.isAdmitted = false) : (c.step net s).1.queue = s.queue := by
  cases c with
  | begun b =>
    simp only [step]
    split
    · exact s.release_queue b
    · split
      · exact s.release_queue b
      · rfl
  | admitted b => cases hc
  | enqueued => exact (calm_wake net s.countSubmitted).2.2
  | overflowed b => exact s.release_queue b
  | returned r => rfl

theorem Race.Call.queue_step_admitted (net : Net σ) (s : LinkState σ) (b : Builder) :
    ((Call.admitted b).step net s).1.queue = (s.enqueue b).1.queue := by
  rcases s.enqueue_cases b with henqueue | henqueue | henqueue
  · simp [step, henqueue]
  · simp [step, henqueue]
  · simp [step, henqueue]

/-- What the step of a call leaves alone, and what it does. -/
theorem Race.link_call {x : Race σ} (net : Net σ) {i : Nat} {c : Call} (hc : x.calls[i]? = some c) :
    (x.step net (.call i)).phase = x.phase ∧
      (x.step net (.call i)).link = (c.step net x.link).1 ∧
      (x.step net (.call i)).link.outbox = x.link.outbox := by
  have houtbox := (c.advances_step net x.link).aside.outbox
  simp [step, callStep, hc, houtbox]

namespace Interleaving

/-- The messages stand in the order of their numbers. As long as the loop goes its rounds, the queue
and the outbox hold the messages that wait. -/
structure Orderly (x : Interleaving σ) : Prop where
  ascending : x.history.Ascending
  ordered : ∀ stage, x.race.phase = .round stage →
    x.history.Ordered x.race.link.queue x.race.link.outbox

namespace Orderly

variable {x : Interleaving σ}

/-- What leaves the messages alone. -/
theorem aside {race race' : Race σ} {d d' : Driver σ} {control control' : Control}
    {history : History} {log log' : List ArmWrite} {stamps stamps' : List Stamp}
    (h : Orderly ⟨race, d, control, history, log, stamps⟩) (hphase : race'.phase = race.phase)
    (hqueue : race'.link.queue = race.link.queue) (houtbox : race'.link.outbox = race.link.outbox) :
    Orderly ⟨race', d', control', history, log', stamps'⟩ := by
  refine ⟨h.ascending, fun stage hstage => ?_⟩
  rw [hqueue, houtbox]
  exact h.ordered stage (hphase.symm.trans hstage)

/-- A call tries the queue. -/
theorem tried {race race' : Race σ} {d : Driver σ} {control : Control} {history : History}
    {log : List ArmWrite} {stamps stamps' : List Stamp} {b : Builder}
    (h : Orderly ⟨race, d, control, history, log, stamps⟩) (hb : b.finished = true)
    (hphase : race'.phase = race.phase)
    (hqueue : race'.link.queue = (race.link.enqueue b).1.queue)
    (houtbox : race'.link.outbox = race.link.outbox) :
    Orderly ⟨race', d, control, history.tried race.link b, log, stamps'⟩ := by
  rcases race.link.enqueue_cases b with henqueue | henqueue | henqueue
  · simp only [History.tried, henqueue] at hqueue ⊢
    exact h.aside hphase hqueue houtbox
  · simp only [History.tried, henqueue] at hqueue ⊢
    refine ⟨h.ascending.sublist (.refl _) rfl, fun stage hstage => ?_⟩
    rw [hqueue, houtbox]
    exact (h.ordered stage (hphase.symm.trans hstage)).refuse
  · simp only [History.tried, henqueue] at hqueue ⊢
    refine ⟨h.ascending.submit b, fun stage hstage => ?_⟩
    rw [hqueue, houtbox]
    exact (h.ordered stage (hphase.symm.trans hstage)).submit hb

theorem call (h : x.Orderly) (hstamped : x.Stamped) (net : Net σ) {i : Nat} {t : Stamp}
    (hcontrol : x.control = .calling i t) : (x.call net i t).Orderly := by
  obtain ⟨race, d, control, history, log, stamps⟩ := x
  obtain rfl : control = .calling i t := hcontrol
  unfold Interleaving.call
  split
  next => exact h
  next => exact h.aside rfl rfl rfl
  next b hb =>
    obtain ⟨hphase, hlink, houtbox⟩ := Race.link_call net hb
    have htells := hstamped.underway.2 _ hb b rfl
    refine h.tried htells.carries.finished hphase ?_ houtbox
    rw [hlink, Race.Call.queue_step_admitted]
  next c _ hadmitted hc =>
    obtain ⟨hphase, hlink, houtbox⟩ := Race.link_call net hc
    refine h.aside hphase ?_ houtbox
    rw [hlink, Race.Call.queue_step]
    cases c with
    | admitted b => exact absurd rfl (hadmitted b)
    | _ => rfl

theorem tick (h : x.Orderly) (hstamped : x.Stamped) (net : Net σ) : (x.tick net).Orderly := by
  obtain ⟨race, d, control, history, log, stamps⟩ := x
  cases control with
  | idle =>
    obtain ⟨pool, hpool⟩ := race.link.exists_acquire
    exact h.aside rfl (by simp [Race.step, hpool]) (by simp [Race.step, hpool])
  | begun b =>
    simp only [Interleaving.tick]
    split <;> exact h.aside rfl rfl rfl
  | halfway b first =>
    simp only [Interleaving.tick]
    split <;> exact h.aside rfl rfl rfl
  | calling i t => exact h.call hstamped net rfl

/-- A stage of a round keeps the order of the messages. -/
theorem stageStep {s : LinkState σ} {stage next : Stage} {h : History}
    (ho : h.Ordered s.queue s.outbox) (hs : System.Sound ⟨s, stage, {}⟩)
    (hnext : (if (System.proceed net ⟨s, stage, {}⟩).stage = .died then Race.Phase.broken
      else .round (System.proceed net ⟨s, stage, {}⟩).stage) = .round next) :
    (System.proceed net ⟨s, stage, h⟩).history.Ordered
      (System.proceed net ⟨s, stage, {}⟩).link.queue
      (System.proceed net ⟨s, stage, {}⟩).link.outbox := by
  obtain ⟨hlink, hstage, -, -⟩ := System.proceed_withHistory net s stage h
  have hdied : (System.proceed net ⟨s, stage, h⟩).stage ≠ .died := by
    intro hdied
    rw [hstage] at hdied
    simp [hdied] at hnext
  have htransition : Transition net ⟨s, stage, h⟩ (System.proceed net ⟨s, stage, h⟩) :=
    System.transition_proceed (hs.withHistory h)
  rw [← hlink]
  exact htransition.ordered (fun _ => ho) hdied

theorem proceed (h : x.Orderly) (hrace : x.race.Accounted) (net : Net σ) :
    (x.step net .proceed).Orderly := by
  have hline := x.history.line_follow net x.race
  refine ⟨h.ascending.sublist hline (x.history.accepted_follow net x.race), fun next hnext => ?_⟩
  obtain ⟨⟨s, phase, calls, lost, late⟩, d, control, history, log, stamps⟩ := x
  cases phase with
  | round stage =>
    have ho := h.ordered stage rfl
    have hs := hrace.sound stage rfl
    cases stage with
    | taking =>
      cases hqueue : s.queue with
      | nil => simpa [step, Race.step, Race.proceed, History.follow, hqueue] using ho
      | cons b rest =>
        rw [hqueue] at ho
        have hdrawn := ho.draw (s.outbox.length < s.config.pendingHighWaterMark)
        have hlink : Race.proceed net ⟨s, .round .taking, calls, lost, late⟩ =
            ⟨(s.withQueue rest).take b, .round .taking, calls, lost, late⟩ := by
          simp [Race.proceed, hqueue]
        simp only [step, Race.step, hlink, History.follow, hqueue]
        unfold LinkState.take
        by_cases hroom : s.outbox.length < s.config.pendingHighWaterMark
        · simpa [LinkState.withQueue, hroom, Nat.not_le.2 hroom] using hdrawn
        · simpa [LinkState.withQueue, LinkState.countDropped, hroom, Nat.le_of_not_lt hroom]
            using hdrawn
    | leaving why => cases hnext
    | _ => exact stageStep ho hs hnext
  | discarding dropped =>
    simp only [step, Race.step, Race.proceed] at hnext
    split at hnext <;> cases hnext
  | closing | gone | broken => cases hnext

theorem aside_wake (h : x.Orderly) (net : Net σ) {s : LinkState σ}
    (hqueue : s.queue = x.race.link.queue) (houtbox : s.outbox = x.race.link.outbox) :
    ({ x with race := { x.race with link := s.wake net } } : Interleaving σ).Orderly := by
  obtain ⟨haside, -, hsame⟩ := Race.calm_wake net s
  exact h.aside rfl (hsame.trans hqueue) (haside.outbox.trans houtbox)

theorem wake (h : x.Orderly) (net : Net σ) (r : Reply (List Event)) :
    (x.step net (.wake r)).Orderly := by
  obtain ⟨⟨s, phase, calls, lost, late⟩, d, control, history, log, stamps⟩ := x
  refine ⟨h.ascending, fun next hnext => ?_⟩
  simp only [step, Race.step] at hnext ⊢
  split at hnext
  next hwaiting =>
    have ho := h.ordered .waiting hwaiting
    rw [if_pos hwaiting]
    rcases r with events | e | _
    · exact ho
    · cases e <;> exact ho
    · cases hnext
  next hwaiting =>
    rw [if_neg hwaiting]
    exact h.ordered next hnext

theorem step (h : x.Orderly) (hrace : x.race.Accounted) (hstamped : x.Stamped) (net : Net σ)
    (a : Action) : (x.step net a).Orderly := by
  cases a with
  | write w => exact h.aside rfl rfl rfl
  | tick => exact h.tick hstamped net
  | guard => exact h.aside rfl rfl rfl
  | dropGuard =>
    simp only [Interleaving.step, Race.step, LinkState.dropGuard]
    split
    · exact h.aside_wake net rfl rfl
    · exact h.aside rfl rfl rfl
  | stop => exact h.aside_wake net rfl rfl
  | proceed => exact h.proceed hrace net
  | wake r => exact h.wake net r

end Orderly

/-! ## All interleavings -/

variable {x : Interleaving σ}

theorem accounted_step (h : x.race.Accounted) (net : Net σ) (a : Action) :
    (x.step net a).race.Accounted := by
  rcases x.race_step net a with hsame | ⟨b, hstep⟩
  · rw [hsame]
    exact h
  · rw [hstep]
    exact h.step net b

theorem kept_run (hrace : x.race.Accounted) (hstamped : x.Stamped) (horderly : x.Orderly)
    (net : Net σ) (actions : List Action) :
    (x.run net actions).Stamped ∧ (x.run net actions).Orderly := by
  induction actions generalizing x with
  | nil => exact ⟨hstamped, horderly⟩
  | cons a rest ih =>
    exact ih (accounted_step hrace net a) (hstamped.step net a)
      (horderly.step hrace hstamped net a)

/-- A link with the guard of its driver, before its loop did anything. -/
theorem accounted_of_fresh {w₀ w : σ} {s : LinkState σ} (h : s.Fresh net w₀) :
    Race.Accounted { link := { s.guard with world := w } } := by
  have hs := Reachable.sound_of_fresh h
  refine .of_round rfl (.of_live rfl (hs.alive rfl) (hs.streams rfl)) ?_ ?_ <;>
    cases h <;> simp [LinkState.guard, LinkState.backlog, LinkState.unsentFrames]

theorem orderly_of_fresh {w₀ w : σ} {s : LinkState σ} (h : s.Fresh net w₀) (d : Driver σ)
    (log : List ArmWrite) :
    Orderly { race := { link := { s.guard with world := w } }, driver := d, log := log } := by
  have hempty : s.queue = [] ∧ s.outbox = [] := by cases h <;> exact ⟨rfl, rfl⟩
  refine ⟨⟨.nil, by simp [History.line]⟩, fun stage _ => ?_⟩
  simp only [LinkState.guard, hempty]
  exact .empty

theorem kept_launched {w : σ} {params : ParamTable} {config : LinkConfig} {before : List ArmWrite}
    (h : launched? net w params config before = some x) :
    x.race.Accounted ∧ x.Stamped ∧ x.Orderly := by
  obtain ⟨s, hs, rfl⟩ := Option.map_eq_some_iff.1 h
  have htidy : ((Session.created w params config).driver.withArm (.latest before)).Tidy :=
    Driver.tidy_of_link?_eq_none rfl
  have hstamped : Stamped
      { race := { link := s }
        driver := (((Session.created w params config).driver.withArm (.latest before)).launch net).1
        log := before } := by
    refine ⟨?_, htidy.launch net s hs, .nil, .nil, trivial⟩
    rw [Driver.withArm_launch]
    rfl
  rw [Driver.launch_of_uninitialized net rfl] at hs hstamped ⊢
  have hlaunched := Driver.launched_connect net
    ((Session.created w params config).driver.withArm (.latest before))
  generalize Driver.connect net ((Session.created w params config).driver.withArm
    (.latest before)) = r at hs hstamped hlaunched ⊢
  cases hlaunched with
  | running hopen =>
    obtain rfl := Option.some.inj hs
    have hfresh := Driver.fresh_of_openLink hopen
    exact ⟨accounted_of_fresh hfresh, hstamped, orderly_of_fresh hfresh _ _⟩
  | refused | threadless | diedOpening | diedStarting => cases hs

theorem run_concat (net : Net σ) (x : Interleaving σ) (actions : List Action) (a : Action) :
    x.run net (actions ++ [a]) = (x.run net actions).step net a := by
  simp [run]

def writes (actions : List Action) : List ArmWrite :=
  actions.filterMap fun
    | .write w => some w
    | _ => none

theorem log_call (net : Net σ) (x : Interleaving σ) (i : Nat) (t : Stamp) :
    (x.call net i t).log = x.log := by
  unfold call
  split <;> rfl

theorem log_tick (net : Net σ) (x : Interleaving σ) : (x.tick net).log = x.log := by
  unfold tick
  split
  · rfl
  · dsimp only
    split <;> rfl
  · dsimp only
    split <;> rfl
  · exact log_call net x _ _

/-- The log holds all writes in their order. -/
theorem log_run (net : Net σ) (x : Interleaving σ) (actions : List Action) :
    (x.run net actions).log = x.log ++ writes actions := by
  induction actions generalizing x with
  | nil => simp [run, writes]
  | cons a rest ih =>
    have hrest : x.run net (a :: rest) = (x.step net a).run net rest := rfl
    rw [hrest, ih]
    cases a with
    | write w => simp [step, writes]
    | tick => rw [step, log_tick]; rfl
    | guard | dropGuard | stop | proceed | wake => rfl

/-! ## When the vectors were copied -/

def CopiedFirst (net : Net σ) (x₀ : Interleaving σ) (actions : List Action) (n : Nat) : Prop :=
  ∃ done b, done ++ [.tick] <+: actions ∧ (x₀.run net done).control = .begun b ∧
    (x₀.run net done).log.length = n

/-- In a run the control thread copied both vectors when the stamp says. -/
structure Copied (net : Net σ) (x₀ : Interleaving σ) (actions : List Action) (t : Stamp) :
    Prop where
  first : CopiedFirst net x₀ actions t.first
  second : ∃ done b, done ++ [.tick] <+: actions ∧
    (x₀.run net done).control = .halfway b t.first ∧ (x₀.run net done).log.length = t.second

/-- All stamps were given when the vectors were copied. -/
structure Timed (net : Net σ) (x₀ : Interleaving σ) (actions : List Action) (x : Interleaving σ) :
    Prop where
  halfway : ∀ b n, x.control = .halfway b n → CopiedFirst net x₀ actions n
  calling : ∀ i t, x.control = .calling i t → Copied net x₀ actions t
  stamps : ∀ t ∈ x.stamps, Copied net x₀ actions t

section Timed

variable {x₀ : Interleaving σ} {actions : List Action}

theorem CopiedFirst.concat {n : Nat} (h : CopiedFirst net x₀ actions n) (a : Action) :
    CopiedFirst net x₀ (actions ++ [a]) n := by
  obtain ⟨done, b, hdone, hcontrol, hlog⟩ := h
  exact ⟨done, b, hdone.trans (List.prefix_append _ _), hcontrol, hlog⟩

theorem Copied.concat {t : Stamp} (h : Copied net x₀ actions t) (a : Action) :
    Copied net x₀ (actions ++ [a]) t := by
  obtain ⟨done, b, hdone, hcontrol, hlog⟩ := h.second
  exact ⟨h.first.concat a, done, b, hdone.trans (List.prefix_append _ _), hcontrol, hlog⟩

theorem Timed.concat (h : Timed net x₀ actions x) (a : Action) : Timed net x₀ (actions ++ [a]) x :=
  ⟨fun b n hb => (h.halfway b n hb).concat a, fun i t ht => (h.calling i t ht).concat a,
    fun t ht => (h.stamps t ht).concat a⟩

/-- Only the control thread and the stamps matter. -/
theorem Timed.congr {y : Interleaving σ} (h : Timed net x₀ actions x)
    (hcontrol : y.control = x.control) (hstamps : y.stamps = x.stamps) :
    Timed net x₀ actions y :=
  ⟨fun b n hb => h.halfway b n (hcontrol ▸ hb), fun i t ht => h.calling i t (hcontrol ▸ ht),
    fun t ht => h.stamps t (hstamps ▸ ht)⟩

theorem Timed.idle {y : Interleaving σ} (h : Timed net x₀ actions x) (hcontrol : y.control = .idle)
    (hstamps : y.stamps = x.stamps) : Timed net x₀ actions y :=
  ⟨fun b n hb => by simp [hcontrol] at hb, fun i t ht => by simp [hcontrol] at ht,
    fun t ht => h.stamps t (hstamps ▸ ht)⟩

theorem timed_call (h : Timed net x₀ actions x) {i : Nat} {t : Stamp}
    (hcontrol : x.control = .calling i t) : Timed net x₀ actions (x.call net i t) := by
  unfold call
  split
  next => exact h
  next => exact h.idle rfl rfl
  next b hb =>
    refine ⟨h.halfway, h.calling, fun s hs => ?_⟩
    dsimp only at hs
    split at hs
    next =>
      rcases List.mem_append.1 hs with hold | hnew
      · exact h.stamps s hold
      · obtain rfl := List.mem_singleton.1 hnew
        exact h.calling i s hcontrol
    next => exact h.stamps s hs
  next => exact h.congr rfl rfl

theorem timed_tick (h : Timed net x₀ actions (x₀.run net actions)) :
    Timed net x₀ (actions ++ [.tick]) ((x₀.run net actions).tick net) := by
  have hlater := h.concat .tick
  unfold tick
  split
  next =>
    exact ⟨fun _ _ hb => (by cases hb), fun _ _ ht => (by cases ht), hlater.stamps⟩
  next b hb =>
    dsimp only
    split
    next => exact hlater.idle rfl rfl
    next =>
      refine ⟨fun b' n hb' => ?_, fun _ _ ht => (by cases ht), hlater.stamps⟩
      obtain ⟨-, rfl⟩ := Control.halfway.inj hb'
      exact ⟨actions, b, List.prefix_rfl, hb, rfl⟩
  next b first hb =>
    dsimp only
    split
    next => exact hlater.idle rfl rfl
    next =>
      refine ⟨fun _ _ hb' => (by cases hb'), fun i t ht => ?_, hlater.stamps⟩
      obtain ⟨-, rfl⟩ := Control.calling.inj ht
      exact ⟨hlater.halfway b first hb, actions, b, List.prefix_rfl, hb, rfl⟩
  next i t hcalling => exact timed_call hlater hcalling

/-- All stamps were given when the vectors were copied. -/
theorem timed_run (net : Net σ) (hidle : x₀.control = .idle) (hnone : x₀.stamps = [])
    (actions : List Action) : Timed net x₀ actions (x₀.run net actions) := by
  induction actions using List.reverseRecOn with
  | nil =>
    exact ⟨fun b n hb => by simp [run, hidle] at hb, fun i t ht => by simp [run, hidle] at ht,
      by simp [run, hnone]⟩
  | append_singleton actions a ih =>
    rw [run_concat]
    cases a with
    | tick => exact timed_tick ih
    | write | guard | dropGuard | stop | proceed | wake => exact (ih.concat _).congr rfl rfl

end Timed

/-! ## Receivers -/

def stamp (x : Interleaving σ) (m : Nat) : Stamp := x.stamps.getD m default

theorem Stamped.stamp_le (h : x.Stamped) {j k : Nat} (hlt : j < k)
    (hk : k < x.history.accepted.length) : x.stamp j ≤ x.stamp k := by
  have hk' : k < x.stamps.length := h.told.length_eq ▸ hk
  have hle := List.pairwise_iff_getElem.1 h.ascending j k (hlt.trans hk') hk' hlt
  simpa [stamp, hk', hlt.trans hk'] using hle

theorem Stamped.tells (h : x.Stamped) {k : Nat} {m : Builder}
    (hm : x.history.accepted[k]? = some m) : (x.stamp k).Tells x.log m ∧ x.stamp k ∈ x.stamps := by
  obtain ⟨hk, rfl⟩ := List.getElem?_eq_some_iff.1 hm
  have hk' : k < x.stamps.length := h.told.length_eq ▸ hk
  have hstamp : x.stamp k = x.stamps[k] := by simp [stamp, hk']
  rw [hstamp]
  exact ⟨h.told.get hk hk', List.getElem_mem hk'⟩

/-- In all interleavings of writers, ticks and the loop: each message that is submitted carries as
positions the vector of the latest write of positions before its first copy, and as accelerations
that of the latest write of torques before its second. In the order in which one stream, or the
datagram socket, got its messages, the numbers of the writes that they carry never go back. -/
theorem never_backwards {w : σ} {params : ParamTable} {config : LinkConfig}
    {before : List ArmWrite} {x₀ : Interleaving σ}
    (hlaunched : launched? net w params config before = some x₀) (actions : List Action) :
    let x := x₀.run net actions
    x.log = before ++ writes actions ∧
    (∀ i t m, x.control = .calling i t → x.race.calls[i]? = some (.begun m) →
      t.Tells x.log m ∧ Copied net x₀ actions t) ∧
    x.stamps.length = x.history.accepted.length ∧
    (∀ k m, x.history.accepted[k]? = some m →
      (x.stamp k).Tells x.log m ∧ Copied net x₀ actions (x.stamp k) ∧
      m.Carries ⟨ArmWrite.nth ArmWrite.angles? x.log ((x.stamp k).position x.log), [],
        ArmWrite.nth ArmWrite.measured? x.log ((x.stamp k).torque x.log)⟩) ∧
    (∀ stage, x.race.phase = .round stage →
      x.history.Ordered x.race.link.queue x.race.link.outbox) ∧
    ∀ receiver,
      (x.history.received receiver).Pairwise (· < ·) ∧
      (∀ k ∈ x.history.received receiver, k < x.history.accepted.length) ∧
      ((x.history.received receiver).map fun k => (x.stamp k).position x.log).Pairwise (· ≤ ·) ∧
      ((x.history.received receiver).map fun k => (x.stamp k).torque x.log).Pairwise (· ≤ ·) := by
  intro x
  obtain ⟨hrace, hstamped₀, horderly₀⟩ := kept_launched hlaunched
  obtain ⟨s, -, hx₀⟩ := Option.map_eq_some_iff.1 hlaunched
  obtain ⟨hstamped, horderly⟩ := kept_run hrace hstamped₀ horderly₀ net actions
  have htimed : Timed net x₀ actions x := timed_run net (by rw [← hx₀]) (by rw [← hx₀]) actions
  refine ⟨?_, fun i t m hcalling hm => ⟨?_, htimed.calling i t hcalling⟩,
    hstamped.told.length_eq.symm, fun k m hm => ?_, horderly.ordered, fun receiver => ?_⟩
  · rw [log_run, ← hx₀]
  · have hunderway := hstamped.underway
    rw [Underway, show (x₀.run net actions).control = .calling i t from hcalling] at hunderway
    exact hunderway.2 _ hm m rfl
  · obtain ⟨htells, hmem⟩ := hstamped.tells hm
    exact ⟨htells, htimed.stamps _ hmem, Stamp.shown_eq _ _ ▸ htells.carries⟩
  -- a receiver gets messages in the order of their numbers, in which stamps ascend
  · have hsub := x.history.received_sublist receiver
    have hascending := horderly.ascending.increasing.sublist hsub
    have hbounded : ∀ k ∈ x.history.received receiver, k < x.history.accepted.length :=
      fun k hk => horderly.ascending.bounded k (hsub.mem hk)
    have hstamps : (x.history.received receiver).Pairwise fun j k => x.stamp j ≤ x.stamp k :=
      hascending.imp_of_mem fun _ hk hlt => hstamped.stamp_le hlt (hbounded _ hk)
    refine ⟨hascending, hbounded, ?_, ?_⟩
    · exact List.pairwise_map.2 (hstamps.imp fun hle => Stamp.position_le hle x.log)
    · exact List.pairwise_map.2 (hstamps.imp fun hle => Stamp.torque_le hle x.log)

set_option maxRecDepth 2000 in
/-- Between the two copies of the first message both quantities are written. It carries the old
positions with the new torques, the second one the new positions, and the datagram socket gets both
in this order. -/
theorem never_backwards_of_write_between :
    ∃ (x₀ x : Interleaving (List (Reply Nat))) (m₀ m₁ : Builder),
      launched? Net.scripted [] { localTransportAddress := "udp://127.0.0.1:0"
                                  remoteTransportAddress := "udp://10.9.8.7:30010" } {}
        [.jointAngles [1]] = some x₀ ∧
      x.log = [.jointAngles [1], .jointAngles [2], .measure [9]] ∧
      x.history.accepted = [m₀, m₁] ∧ m₀.Carries ⟨[1], [], [9]⟩ ∧ m₁.Carries ⟨[2], [], [9]⟩ ∧
      x.history.received none = [0, 1] ∧
      ((x.history.received none).map fun k => (x.stamp k).position x.log) = [1, 2] ∧
      ((x.history.received none).map fun k => (x.stamp k).position x.log).Pairwise (· ≤ ·) := by
  obtain ⟨params, hparams⟩ : ∃ params : ParamTable, params =
      { localTransportAddress := "udp://127.0.0.1:0"
        remoteTransportAddress := "udp://10.9.8.7:30010" } := ⟨_, rfl⟩
  obtain ⟨actions, hactions⟩ : ∃ actions : List Action, actions =
      [.tick, .tick, .write (.jointAngles [2]), .write (.measure [9])] ++
        List.replicate 12 .tick ++ List.replicate 5 .proceed := ⟨_, rfl⟩
  have hrun : ((launched? Net.scripted ([] : List (Reply Nat)) params {}
      [.jointAngles [1]]).any fun x₀ =>
        (fun x => x.stamps == [⟨1, 3⟩, ⟨3, 3⟩] && x.history.received none == [0, 1])
          (x₀.run Net.scripted actions)) = true := by
    rw [hactions, hparams]
    cbv
  obtain ⟨x₀, hlaunched, hx⟩ := (Option.any_eq_true _ _).1 hrun
  obtain ⟨hstamps, hreceived⟩ := by simpa only [Bool.and_eq_true, beq_iff_eq] using hx
  obtain ⟨hlog, -, hlength, htells, -, hreceivers⟩ := never_backwards hlaunched actions
  have hwrites : (x₀.run Net.scripted actions).log =
      [.jointAngles [1], .jointAngles [2], .measure [9]] := by
    rw [hlog, hactions]
    rfl
  rw [hstamps] at hlength
  obtain ⟨m₀, m₁, haccepted⟩ := List.length_eq_two.1 hlength.symm
  obtain ⟨-, -, hfirst⟩ := htells 0 m₀ (by rw [haccepted]; rfl)
  obtain ⟨-, -, hsecond⟩ := htells 1 m₁ (by rw [haccepted]; rfl)
  rw [stamp, hstamps, hwrites] at hfirst hsecond
  obtain ⟨-, -, hpositions, -⟩ := hreceivers none
  refine ⟨x₀, _, m₀, m₁, hparams ▸ hlaunched, hwrites, haccepted, hfirst, hsecond, hreceived, ?_,
    hpositions⟩
  simp only [stamp, hstamps, hwrites, hreceived]
  rfl

end Interleaving

end ArmStream
