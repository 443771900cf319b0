import Mathlib
import ArmStream.Proofs.Lifecycle
import ArmStream.Proofs.RaceAccounting

/-!
# Ticks beside writers and the loop

While a driver runs, any thread writes to the state of the arm, one thread ticks, and the loop of
the link goes on. A write is done at once, and so is a copy of one vector, but a tick copies two,
and then it submits its message as any caller does. An interleaving is any order of writes, of the
steps of ticks, and of the steps of the loop.

All writes are kept in a log. A message is stamped with the length of the log at each of its two
copies.

## Main definitions

- `Stamp`: when the vectors of a message were copied.
- `Interleaving.Control`, `Interleaving.tick`: where a tick is, and its next step.
- `Interleaving`, `Interleaving.step`: a driver that runs, and one action.

## Main statements

- `Interleaving.exists_ticks_eq_tick`: undisturbed, the steps of a tick are `Driver.tick`.
- `Interleaving.race_step`: the link of an interleaving is that of a race.
-/

namespace ArmStream

variable {σ : Type} {net : Net σ}

/-- How many writes there were when the vectors of a message were copied. -/
structure Stamp where
  /-- At the copy of the positions. -/
  first : Nat
  /-- At the copy of the torques. -/
  second : Nat
  deriving DecidableEq, Repr, Inhabited

namespace History

/-- A call tried to put a message into the queue. -/
def tried (h : History) (s : LinkState σ) (b : Builder) : History :=
  match s.enqueue b with
  | (_, .queued) => h.submit b (.ok ())
  | (s, .full) => h.submit b (.error (.queueFull s.config.queueCapacity))
  | (_, .gone) => h

def draw (h : History) (kept : Bool) : History :=
  { h with
    queued := h.queued.drop 1
    pending := if kept then h.pending ++ h.queued.take 1 else h.pending
    discarded := if kept then h.discarded else h.discarded ++ h.queued.take 1 }

def abandon (h : History) : History :=
  { h with pending := [], discarded := h.discarded ++ h.pending }

def follow (net : Net σ) (x : Race σ) (h : History) : History :=
  match x.phase with
  | .round .taking =>
    match x.link.queue with
    | [] => h
    | _ :: _ => h.draw (x.link.outbox.length < x.link.config.pendingHighWaterMark)
  | .round (.leaving _) => h.abandon
  | .round stage => (System.proceed net ⟨x.link, stage, h⟩).history
  | .discarding _ =>
    match x.link.queue with
    | [] => h
    | _ :: _ => h.draw false
  | .closing => h.giveUp
  | .gone => h
  | .broken => h

end History

inductive Interleaving.Control where
  | idle
  /-- It has a builder and is about to copy the positions. -/
  | begun (b : Builder)
  /-- The positions are packed, and it is about to copy the torques. -/
  | halfway (b : Builder) (first : Nat)
  /-- The message is packed and stamped. Its submission is a call of the race. -/
  | calling (i : Nat) (stamp : Stamp)
  deriving DecidableEq, Repr, Inhabited

structure Interleaving (σ : Type) where
  /-- The link, with the calls of `submit` and its loop. -/
  race : Race σ
  /-- The driver, but for its link. -/
  driver : Driver σ
  control : Interleaving.Control := .idle
  history : History := {}
  /-- The writes so far. -/
  log : List ArmWrite := []
  /-- The stamps of the messages that the queue took. -/
  stamps : List Stamp := []

inductive Interleaving.Action where
  /-- Any thread writes to the state of the arm. -/
  | write (w : ArmWrite)
  /-- The control thread does its next step. -/
  | tick
  | guard
  | dropGuard
  | stop
  /-- The loop does its next step. -/
  | proceed
  /-- The wait of the loop ends. -/
  | wake (r : Reply (List Event))

namespace Interleaving

def whole (x : Interleaving σ) : Driver σ := { x.driver with uplink := .linked x.race.link }

def conclude (x : Interleaving σ) (r : Except DriverError Unit) : Interleaving σ :=
  { x with
    driver := { x.driver with
      metrics := match r with
        | .ok _ => x.driver.metrics.succeed
        | .error _ => x.driver.metrics.fail
      died := x.driver.died || x.race.link.callerDied }
    control := .idle }

/-- The call `i` of the control thread does its next step. If the queue takes the message, it keeps
its stamp. -/
def call (net : Net σ) (x : Interleaving σ) (i : Nat) (stamp : Stamp) : Interleaving σ :=
  match x.race.calls[i]? with
  | none => x
  | some (.returned r) => x.conclude (r.mapError .link)
  | some (.admitted b) =>
    { x with
      race := x.race.step net (.call i)
      history := x.history.tried x.race.link b
      stamps := if (x.race.link.enqueue b).2 = .queued then x.stamps ++ [stamp] else x.stamps }
  | some _ => { x with race := x.race.step net (.call i) }

def tick (net : Net σ) (x : Interleaving σ) : Interleaving σ :=
  match x.control with
  | .idle =>
    { x with
      race := x.race.step net .acquire
      driver := { x.driver with metrics := x.driver.metrics.attempt }
      control := .begun x.race.link.acquire.1 }
  | .begun b =>
    let d := x.driver.copyPosition
    match Driver.packPosition d.scratch b with
    | .error e => { x with driver := d }.conclude (.error (.badMessage e))
    | .ok b => { x with driver := d, control := .halfway b x.log.length }
  | .halfway b first =>
    let d := x.driver.copyTorque
    match Driver.packTorque d.scratch b with
    | .error e => { x with driver := d }.conclude (.error (.badMessage e))
    | .ok m =>
      { x with
        race := x.race.step net (.submit m)
        driver := d
        control := .calling x.race.calls.length ⟨first, x.log.length⟩ }
  | .calling i stamp => x.call net i stamp

def step (net : Net σ) (x : Interleaving σ) : Action → Interleaving σ
  | .write w => { x with driver := x.driver.write w, log := x.log ++ [w] }
  | .tick => x.tick net
  | .guard => { x with race := x.race.step net .guard }
  | .dropGuard => { x with race := x.race.step net .dropGuard }
  | .stop => { x with race := x.race.step net .stop }
  | .proceed =>
    { x with race := x.race.step net .proceed, history := x.history.follow net x.race }
  | .wake r => { x with race := x.race.step net (.wake r) }

def run (net : Net σ) (x : Interleaving σ) (actions : List Action) : Interleaving σ :=
  actions.foldl (step net) x

/-- A driver right after its launch. Before, the state of the arm was written already. -/
def launched? (net : Net σ) (w : σ) (params : ParamTable) (config : LinkConfig)
    (before : List ArmWrite) : Option (Interleaving σ) :=
  let d := (((Session.created w params config).driver.withArm (.latest before)).launch net).1
  d.link?.map fun s => { race := { link := s }, driver := d, log := before }

/-! ## A tick undisturbed -/

def ticks (net : Net σ) (x : Interleaving σ) (n : Nat) : Interleaving σ :=
  x.run net (List.replicate n .tick)

theorem ticks_succ (net : Net σ) (x : Interleaving σ) (n : Nat) :
    x.ticks net (n + 1) = (x.tick net).ticks net n := rfl

theorem ticks_add (net : Net σ) (x : Interleaving σ) (m n : Nat) :
    x.ticks net (m + n) = (x.ticks net m).ticks net n := by
  simp only [ticks, run, List.replicate_add, List.foldl_append]

/-- A call of the control thread that is the last of the race goes on. -/
theorem tick_calling {s : LinkState σ} {phase : Race.Phase} {calls : List Race.Call} {c : Race.Call}
    {lost late : Nat} {d : Driver σ} {stamp : Stamp} {h : History} {log : List ArmWrite}
    {stamps : List Stamp} (hc : c.isReturned = false) (hadmitted : c.isAdmitted = false) :
    tick net ⟨⟨s, phase, calls ++ [c], lost, late⟩, d, .calling calls.length stamp, h, log,
        stamps⟩ =
      ⟨⟨(c.step net s).1, phase, calls ++ [(c.step net s).2], lost, late⟩, d,
        .calling calls.length stamp, h, log, stamps⟩ := by
  cases c <;> simp [Race.Call.isReturned, Race.Call.isAdmitted] at hc hadmitted <;>
    simp [tick, call, Race.step, Race.callStep]

/-- Undisturbed, the control thread submits its message and ends its tick. -/
theorem exists_ticks_calling (net : Net σ) (s : LinkState σ) (phase : Race.Phase)
    (calls : List Race.Call) (m : Builder) (lost late : Nat) (d : Driver σ) (stamp : Stamp)
    (h : History) (log : List ArmWrite) (stamps : List Stamp) :
    ∃ n c stamps', ticks net ⟨⟨s, phase, calls ++ [.begun m], lost, late⟩, d,
        .calling calls.length stamp, h, log, stamps⟩ n =
      conclude ⟨⟨(s.submit net m).1, phase, calls ++ [c], lost, late⟩, d,
        .calling calls.length stamp, h.submit m (s.submit net m).2, log, stamps'⟩
        ((s.submit net m).2.mapError .link) := by
  -- the cases of `submit`, each with the steps that the call takes up to its answer
  unfold LinkState.submit
  cases hfinished : m.finished with
  | false =>
    refine ⟨2, .returned (.error (.badMessage .notFinished)), stamps, ?_⟩
    rw [ticks_succ, tick_calling rfl rfl]
    simp [ticks, run, step, tick, call, Race.Call.step, hfinished, History.submit]
  | true =>
    cases hstopped : s.stopped with
    | true =>
      refine ⟨2, .returned (.error .loopStopped), stamps, ?_⟩
      rw [ticks_succ, tick_calling rfl rfl]
      simp [ticks, run, step, tick, call, Race.Call.step, hfinished, hstopped, History.submit]
    | false =>
      rcases henqueue : s.enqueue m with ⟨s', answer⟩
      cases answer with
      | queued =>
        refine ⟨4, .returned (.ok ()), stamps ++ [stamp], ?_⟩
        rw [ticks_succ, tick_calling rfl rfl]
        simp [ticks, run, step, tick, call, Race.step, Race.callStep, Race.Call.step, hfinished,
          hstopped, henqueue, History.tried]
      | full =>
        refine ⟨4, .returned (.error (.queueFull s'.config.queueCapacity)), stamps, ?_⟩
        rw [ticks_succ, tick_calling rfl rfl]
        simp [ticks, run, step, tick, call, Race.step, Race.callStep, Race.Call.step, hfinished,
          hstopped, henqueue, History.tried]
      | gone =>
        refine ⟨3, .returned (.error .loopStopped), stamps, ?_⟩
        rw [ticks_succ, tick_calling rfl rfl]
        simp [ticks, run, step, tick, call, Race.step, Race.callStep, Race.Call.step, hfinished,
          hstopped, henqueue, History.tried, History.submit]

/-- Undisturbed, the control thread packs its message, as the driver does in one go, or ends its
tick. -/
theorem exists_ticks_packing (net : Net σ) (s : LinkState σ) (phase : Race.Phase)
    (calls : List Race.Call) (lost late : Nat) (d : Driver σ) (h : History) (log : List ArmWrite)
    (stamps : List Stamp) :
    ∃ n scratch r, (∀ d' : Driver σ, d'.arm = d.arm →
        d'.packCommand s.acquire.1 = ({ d' with scratch := scratch }, r)) ∧
      match r with
      | .error e =>
        ∃ control, ticks net ⟨⟨s, phase, calls, lost, late⟩, d, .idle, h, log, stamps⟩ n =
          conclude ⟨⟨s.acquire.2, phase, calls, lost, late⟩,
            { d with metrics := d.metrics.attempt, scratch := scratch }, control, h, log, stamps⟩
            (.error (.badMessage e))
      | .ok m =>
        ticks net ⟨⟨s, phase, calls, lost, late⟩, d, .idle, h, log, stamps⟩ n =
          ⟨⟨s.acquire.2, phase, calls ++ [.begun m], lost, late⟩,
            { d with metrics := d.metrics.attempt, scratch := scratch },
            .calling calls.length ⟨log.length, log.length⟩, h, log, stamps⟩ := by
  cases hposition : Driver.packPosition d.arm.commandedPosition s.acquire.1 with
  | error e =>
    refine ⟨2, d.arm.commandedPosition, .error e, fun d' harm => ?_, .begun s.acquire.1, ?_⟩
    · simp only [Driver.packCommand, Driver.copyPosition, harm, hposition]
    · simp only [ticks_succ, tick, Driver.copyPosition, hposition]
      rfl
  | ok b =>
    cases htorque : Driver.packTorque d.arm.torque b with
    | error e =>
      refine ⟨3, d.arm.torque, .error e, fun d' harm => ?_, .halfway b log.length, ?_⟩
      · simp only [Driver.packCommand, Driver.copyPosition, Driver.copyTorque, harm, hposition,
          htorque]
      · simp only [ticks_succ, tick, Driver.copyPosition, Driver.copyTorque, hposition, htorque]
        rfl
    | ok m =>
      refine ⟨3, d.arm.torque, .ok m, fun d' harm => ?_, ?_⟩
      · simp only [Driver.packCommand, Driver.copyPosition, Driver.copyTorque, harm, hposition,
          htorque]
      · simp only [ticks_succ, tick, Driver.copyPosition, Driver.copyTorque, hposition, htorque]
        rfl

/-- Undisturbed, the steps of a tick are the tick of the driver. -/
theorem exists_ticks_eq_tick (net : Net σ) (x : Interleaving σ) (hidle : x.control = .idle)
    (stage : Stage) :
    ∃ n, (x.ticks net n).control = .idle ∧
      Session.tick net ⟨x.whole, stage, x.history⟩ =
        ⟨(x.ticks net n).whole, stage, (x.ticks net n).history⟩ := by
  obtain ⟨⟨s, phase, calls, lost, late⟩, d, control, h, log, stamps⟩ := x
  obtain rfl : control = .idle := hidle
  obtain ⟨n, scratch, r, hpack, hticks⟩ :=
    exists_ticks_packing net s phase calls lost late d h log stamps
  have hwhole := fun m => hpack { d with uplink := .linked s, metrics := m } rfl
  cases r with
  | error e =>
    obtain ⟨control, hticks⟩ := hticks
    refine ⟨n, by rw [hticks]; rfl, ?_⟩
    simp only [Session.tick, whole, Driver.tick, Driver.sendCommand, Driver.submission?,
      Driver.link?, Uplink.link?, hwhole, hticks]
    rfl
  | ok m =>
    obtain ⟨k, c, stamps', hcalling⟩ := exists_ticks_calling net s.acquire.2 phase calls m lost
      late { d with metrics := d.metrics.attempt, scratch := scratch }
      ⟨log.length, log.length⟩ h log stamps
    have hall := (ticks_add net _ n k).trans ((congrArg (ticks net · k) hticks).trans hcalling)
    refine ⟨n + k, by rw [hall]; rfl, ?_⟩
    rw [hall]
    simp only [Session.tick, whole, Driver.tick, Driver.sendCommand, Driver.submission?,
      Driver.link?, Uplink.link?, hwhole]
    rcases s.acquire.2.submit net m with ⟨s', e | _⟩ <;> rfl

/-! ## The loop undisturbed -/

def proceeds (net : Net σ) (x : Interleaving σ) (n : Nat) : Interleaving σ :=
  x.run net (List.replicate n .proceed)

theorem proceeds_succ (net : Net σ) (x : Interleaving σ) (n : Nat) :
    x.proceeds net (n + 1) = (x.step net .proceed).proceeds net n := rfl

theorem proceeds_add (net : Net σ) (x : Interleaving σ) (m n : Nat) :
    x.proceeds net (m + n) = (x.proceeds net m).proceeds net n := by
  simp only [proceeds, run, List.replicate_add, List.foldl_append]

theorem race_proceeds (net : Net σ) (x : Interleaving σ) (n : Nat) :
    (x.proceeds net n).race = x.race.proceeds net n := by
  induction n generalizing x with
  | zero => rfl
  | succ n ih => rw [proceeds_succ, ih, Race.proceeds_succ]; rfl

/-- With nothing in the queue there is nothing to take. -/
theorem history_take_of_nil {h : History} (hnone : h.queued = []) (n : Nat) : h.take n = h := by
  obtain ⟨accepted, refused, queued, pending, discarded, handOvers, offers⟩ := h
  obtain rfl : queued = [] := hnone
  simp [History.take]

/-- One message is drawn, and the rest taken, as all are taken. -/
theorem take_draw {s : LinkState σ} {h : History} {m : Nat} {ms : List Nat}
    (hqueued : h.queued = m :: ms) (b : Builder) :
    (h.draw (s.outbox.length < s.config.pendingHighWaterMark)).take (s.take b).room =
      h.take s.room := by
  rw [s.room_take b]
  by_cases hroom : s.outbox.length < s.config.pendingHighWaterMark
  · obtain ⟨n, hn⟩ : ∃ n, s.room = n + 1 := ⟨s.room - 1, by unfold LinkState.room; omega⟩
    simp [History.take, History.draw, hroom, hqueued, hn]
  · have hfull : s.room = 0 := by unfold LinkState.room; omega
    simp [History.take, History.draw, hroom, hqueued, hfull]

/-- Message by message, the loop takes what it takes at once. -/
theorem history_proceeds_taking (net : Net σ) (x : Interleaving σ)
    (hphase : x.race.phase = .round .taking)
    (hlength : x.history.queued.length = x.race.link.queue.length) :
    (x.proceeds net (x.race.link.queue.length + 1)).history =
      x.history.take x.race.link.room := by
  obtain ⟨⟨s, phase, calls, lost, late⟩, d, control, h, log, stamps⟩ := x
  obtain rfl : phase = .round .taking := hphase
  dsimp only at hlength ⊢
  generalize hqueue : s.queue = queue at hlength ⊢
  induction queue generalizing s h with
  | nil =>
    have hnone : h.queued = [] := List.length_eq_zero_iff.1 hlength
    rw [history_take_of_nil hnone]
    simp [proceeds, run, step, History.follow, hqueue]
  | cons b rest ih =>
    obtain ⟨m, ms, hqueued⟩ := List.exists_cons_of_length_eq_add_one hlength
    have hstep : step net ⟨⟨s, .round .taking, calls, lost, late⟩, d, control, h, log, stamps⟩
        .proceed = ⟨⟨(s.take b).withQueue rest, .round .taking, calls, lost, late⟩, d, control,
          h.draw (s.outbox.length < s.config.pendingHighWaterMark), log, stamps⟩ := by
      simp [step, Race.step, Race.proceed, hqueue, History.follow, LinkState.take_withQueue]
    rw [List.length_cons, proceeds_succ, hstep, ih _ _ rfl]
    · exact take_draw hqueued b
    · simpa [History.draw, hqueued] using hlength

/-- Message by message, the loop gives up what is in the queue. -/
theorem proceeds_discarding (net : Net σ) (x : Interleaving σ) {dropped : Nat}
    (hphase : x.race.phase = .discarding dropped)
    (hlength : x.history.queued.length = x.race.link.queue.length) :
    (x.proceeds net (x.race.link.queue.length + 1)).race.phase = .closing ∧
      (x.proceeds net (x.race.link.queue.length + 1)).history = x.history.take 0 := by
  obtain ⟨⟨s, phase, calls, lost, late⟩, d, control, h, log, stamps⟩ := x
  obtain rfl : phase = .discarding dropped := hphase
  dsimp only at hlength ⊢
  generalize hqueue : s.queue = queue at hlength ⊢
  induction queue generalizing s h dropped with
  | nil =>
    have hnone : h.queued = [] := List.length_eq_zero_iff.1 hlength
    rw [history_take_of_nil hnone]
    simp [proceeds, run, step, Race.step, Race.proceed, History.follow, hqueue]
  | cons b rest ih =>
    obtain ⟨m, ms, hqueued⟩ := List.exists_cons_of_length_eq_add_one hlength
    have hstep : step net ⟨⟨s, .discarding dropped, calls, lost, late⟩, d, control, h, log, stamps⟩
        .proceed = ⟨⟨(s.release b).withQueue rest, .discarding (dropped + 1), calls, lost, late⟩,
          d, control, h.draw false, log, stamps⟩ := by
      simp [step, Race.step, Race.proceed, hqueue, History.follow, LinkState.release_withQueue]
    have hrest : (h.draw false).queued.length = rest.length := by
      simpa [History.draw, hqueued] using hlength
    have htake : (h.draw false).take 0 = h.take 0 := by
      simp [History.take, History.draw, hqueued]
    rw [List.length_cons, proceeds_succ, hstep, ← htake]
    exact ih _ _ rfl hrest

/-- The stage that is split into steps at the end of the loop. -/
theorem history_proceeds_leaving (net : Net σ) (x : Interleaving σ) {why : LinkState.Departure}
    (hphase : x.race.phase = .round (.leaving why))
    (hlength : x.history.queued.length = x.race.link.queue.length) :
    (x.proceeds net (x.race.link.queue.length + 3)).history = x.history.giveUp := by
  have hfirst : (x.step net .proceed).race.phase = .discarding x.race.link.outbox.length ∧
      (x.step net .proceed).race.link.queue = x.race.link.queue ∧
      (x.step net .proceed).history = x.history.abandon := by
    simp [step, Race.step, Race.proceed, History.follow, hphase]
  obtain ⟨hdiscarding, hqueue, habandon⟩ := hfirst
  obtain ⟨hclosing, hhistory⟩ := proceeds_discarding net (x.step net .proceed) hdiscarding
    (by rw [hqueue, habandon]; exact hlength)
  rw [hqueue] at hclosing hhistory
  have hsteps : x.race.link.queue.length + 3 = 1 + (x.race.link.queue.length + 1) + 1 := by omega
  have hlast (y : Interleaving σ) (hy : y.race.phase = .closing) :
      (y.proceeds net 1).history = y.history.giveUp := by
    simp [proceeds, run, step, History.follow, hy]
  rw [hsteps, proceeds_add, proceeds_add]
  refine (hlast _ hclosing).trans ?_
  rw [hhistory, habandon]
  simp [History.take, History.abandon, History.giveUp]

/-- Undisturbed, the steps of the loop are its stages. -/
theorem exists_proceeds_eq_proceed (net : Net σ) (x : Interleaving σ) {stage : Stage}
    (hphase : x.race.phase = .round stage)
    (hlength : x.history.queued.length = x.race.link.queue.length) :
    ∃ n, (x.proceeds net n).race.link =
        (System.proceed net ⟨x.race.link, stage, x.history⟩).link ∧
      (x.proceeds net n).history =
        (System.proceed net ⟨x.race.link, stage, x.history⟩).history ∧
      ((System.proceed net ⟨x.race.link, stage, x.history⟩).stage.isLive = true →
        (x.proceeds net n).race.phase =
          .round (System.proceed net ⟨x.race.link, stage, x.history⟩).stage) := by
  obtain ⟨hlink, hstage, -⟩ := System.proceed_withHistory net x.race.link stage x.history
  -- the stages that draw from the queue take a step for each message, the others just one
  cases stage with
  | taking =>
    have hrace := Race.proceeds_taking net x.race hphase
    refine ⟨x.race.link.queue.length + 1, ?_, ?_, fun _ => ?_⟩
    · rw [race_proceeds, hrace]
      rfl
    · obtain ⟨pool, htaken⟩ := x.race.link.takeSubmissions_eq
      rw [history_proceeds_taking net x hphase hlength, ← x.history.take_min, hlength]
      simp [System.proceed, htaken]
    · rw [race_proceeds, hrace]
      rfl
  | leaving why =>
    refine ⟨x.race.link.queue.length + 3, ?_, history_proceeds_leaving net x hphase hlength, ?_⟩
    · rw [race_proceeds, Race.proceeds_leaving net x.race hphase]
      rfl
    · simp [System.proceed, Stage.isLive]
  | _ =>
    refine ⟨1, ?_, ?_, fun hlive => ?_⟩
    · rw [race_proceeds, hlink]
      simp [Race.proceeds, Race.run, Race.step, Race.proceed, Race.stageStep, hphase]
    · simp [proceeds, run, step, History.follow, hphase]
    · have hdied := Stage.ne_died hlive
      rw [hstage] at hdied ⊢
      simp [race_proceeds, Race.proceeds, Race.run, Race.step, Race.proceed, Race.stageStep, hphase,
        hdied]

/-! ## The race -/

/-- The link of an interleaving is that of a race. -/
theorem race_step (net : Net σ) (x : Interleaving σ) (a : Action) :
    (x.step net a).race = x.race ∨ ∃ b, (x.step net a).race = x.race.step net b := by
  cases a with
  | write w => exact .inl rfl
  | tick =>
    simp only [step, tick]
    split
    next => exact .inr ⟨.acquire, rfl⟩
    next =>
      split
      next => exact .inl rfl
      next => exact .inl rfl
    next =>
      split
      next => exact .inl rfl
      next m _ => exact .inr ⟨.submit m, rfl⟩
    next i stamp _ =>
      unfold call
      split
      next => exact .inl rfl
      next => exact .inl rfl
      next => exact .inr ⟨.call i, rfl⟩
      next => exact .inr ⟨.call i, rfl⟩
  | guard => exact .inr ⟨.guard, rfl⟩
  | dropGuard => exact .inr ⟨.dropGuard, rfl⟩
  | stop => exact .inr ⟨.stop, rfl⟩
  | proceed => exact .inr ⟨.proceed, rfl⟩
  | wake r => exact .inr ⟨.wake r, rfl⟩

end Interleaving

end ArmStream
