import Mathlib
import ArmStream.Proofs.Operations
import ArmStream.Proofs.Session

/-!
# The life of a driver

A driver is uninitialized, running or stopped, in this order and never back. It has a link, a guard
and a thread exactly while it runs. Launching it has one of a few outcomes; one that fails leaves
the driver as it was, whatever failed, so it can be launched again, with the same parameters or with
others.

## Main definitions

- `Lifecycle.Leads`: where a stage can lead.
- `Driver.Coherent`: a link, a guard and a thread exactly while the driver runs.
- `Driver.openLink`, `Driver.Launched`: the steps of a launch, and what it can come to.

## Main statements

- `Driver.launched_connect`: what launching comes to.
- `Driver.shutdown_shutdown`: a second shutdown does nothing.
- `Session.coherent_step`: what each action keeps.
- `Session.lifecycle_of_run`: the life of a driver in all sessions.
-/

namespace ArmStream

/-- Where a stage in the life of a driver can lead: on, or nowhere. -/
inductive Lifecycle.Leads : Lifecycle → Lifecycle → Prop where
  | refl (l : Lifecycle) : Leads l l
  | launched : Leads .uninitialized .running
  | retired : Leads .uninitialized .stopped
  | ended : Leads .running .stopped

def DriverMetrics.record (m : DriverMetrics) : Except DriverError Unit → DriverMetrics
  | .ok _ => m.attempt.succeed
  | .error _ => m.attempt.fail

namespace Driver

variable {σ : Type} {net : Net σ} {d : Driver σ}

/-! ## Launching -/

/-- Opens the link of a driver: first the channel, then what the loop needs. -/
def openLink (net : Net σ) (d : Driver σ) : Opened (LinkState σ) × σ :=
  match Channel.openBetween net d.params.localTransportAddress d.params.remoteTransportAddress
      d.uplink.world with
  | (.died, w) => (.died, w)
  | (.refused e, w) => (.refused e, w)
  | (.done channel, w) => LinkState.ofChannel net channel d.config w

/-- A link that was opened is as new. -/
theorem fresh_of_openLink {s : LinkState σ} {w : σ}
    (h : d.openLink net = (.done s, w)) : s.Fresh net d.uplink.world := by
  unfold openLink at h
  split at h
  next => simp at h
  next => simp at h
  next channel w' hchannel => exact LinkState.fresh_of_ofChannel hchannel h

inductive Launched (net : Net σ) (d : Driver σ) : Driver σ × Except DriverError Unit → Prop where
  /-- The link is open and its loop runs. -/
  | running {s : LinkState σ} {w₁ w₂ : σ} :
      d.openLink net = (.done s, w₁) → net.startThread s.world = (.ok (), w₂) →
      Launched net d ({ d with
        uplink := .linked { s.guard with world := w₂ }
        hasGuard := true
        hasThread := true
        lifecycle := .running }, .ok ())
  /-- The link cannot be opened. -/
  | refused {cause : LinkError} {w : σ} :
      d.openLink net = (.refused cause, w) →
      Launched net d ({ d with uplink := .idle w },
        .error (.connection d.params.localTransportAddress d.params.remoteTransportAddress cause))
  /-- The link is open, but its loop has no thread. -/
  | threadless {s : LinkState σ} {e : IoError} {w₁ w₂ w : σ} {died : Bool} :
      d.openLink net = (.done s, w₁) → net.startThread s.world = (.fail e, w₂) →
      Launched net d ({ d with uplink := .idle w, died := died },
        .error (.ioThread ("Failed to spawn IO thread: " ++ e.message)))
  /-- A call of the system ended the thread of the caller while it opened the link. -/
  | diedOpening {w : σ} :
      d.openLink net = (.died, w) →
      Launched net d ({ d with uplink := .idle w, died := true }, .ok ())
  /-- The same while it started the thread of the loop. -/
  | diedStarting {s : LinkState σ} {w₁ w₂ : σ} :
      d.openLink net = (.done s, w₁) → net.startThread s.world = (.fatal, w₂) →
      Launched net d ({ d with uplink := .idle w₂, died := true }, .ok ())

theorem connect_eq (net : Net σ) (d : Driver σ) :
    d.connect net =
      match d.openLink net with
      | (.died, w) => ({ d.without w with died := true }, .ok ())
      | (.refused e, w) => (d.without w, .error (d.connectionError e))
      | (.done s, _) => d.start net s := by
  unfold connect openLink
  dsimp only
  rcases Channel.openBetween net d.params.localTransportAddress d.params.remoteTransportAddress
    d.uplink.world with ⟨channel | e | _, w⟩ <;> rfl

theorem launched_connect (net : Net σ) (d : Driver σ) : Launched net d (d.connect net) := by
  rw [connect_eq]
  split
  next w hopen => exact .diedOpening hopen
  next e w hopen => exact .refused hopen
  next s w hopen =>
    unfold start
    dsimp only
    split
    next w' hthread => exact .running hopen hthread
    next e w' hthread => exact .threadless hopen hthread
    next w' hthread => exact .diedStarting hopen hthread

/-- Nothing that happened before stands in the way of a launch. -/
theorem connect_of_openLink {s : LinkState σ} {w₁ w₂ : σ} (hopen : d.openLink net = (.done s, w₁))
    (hthread : net.startThread s.world = (.ok (), w₂)) :
    (d.connect net).2 = .ok () ∧ (d.connect net).1.lifecycle = .running := by
  have hthread' : net.startThread s.guard.world = (.ok (), w₂) := hthread
  simp [connect_eq, hopen, start, hthread']

theorem launch_of_uninitialized (net : Net σ) (h : d.lifecycle = .uninitialized) :
    d.launch net = d.connect net := by
  simp [launch, refusal?, h]

theorem launchWith_of_uninitialized (net : Net σ) (h : d.lifecycle = .uninitialized)
    (params : ParamTable) :
    d.launchWith net params = ({ d with params := params } : Driver σ).connect net := by
  simp [launchWith, launch, refusal?, h]

theorem launch_of_refusal (net : Net σ) {e : DriverError} (h : refusal? d.lifecycle = some e)
    (params : ParamTable) :
    d.launch net = (d, .error e) ∧ d.launchWith net params = (d, .error e) := by
  simp [launch, launchWith, h]

/-- Launching is launching with the same parameters. -/
theorem launch_eq_launchWith (net : Net σ) (d : Driver σ) :
    d.launch net = d.launchWith net d.params := by
  unfold launchWith
  split
  next h => simp [launch, h]
  next => rfl

/-- Only an uninitialized driver is launched. -/
theorem launchWith_cases (net : Net σ) (d : Driver σ) (params : ParamTable) :
    d.lifecycle = .uninitialized ∧
      Launched net { d with params := params } (d.launchWith net params) ∨
    d.lifecycle ≠ .uninitialized ∧ (d.launchWith net params).1 = d := by
  by_cases hlifecycle : d.lifecycle = .uninitialized
  · rw [launchWith_of_uninitialized net hlifecycle]
    exact .inl ⟨hlifecycle, launched_connect net _⟩
  · obtain ⟨e, hrefusal⟩ : ∃ e, refusal? d.lifecycle = some e := by
      cases hstage : d.lifecycle with
      | uninitialized => exact absurd hstage hlifecycle
      | running => exact ⟨_, rfl⟩
      | stopped => exact ⟨_, rfl⟩
    rw [(launch_of_refusal net hrefusal params).2]
    exact .inr ⟨hlifecycle, rfl⟩

/-! ## A link, a guard and a thread -/

/-- The driver has a link, a guard and a thread exactly while it runs. -/
structure Coherent (d : Driver σ) : Prop where
  link : d.link?.isSome ↔ d.lifecycle = .running
  guard : d.hasGuard ↔ d.lifecycle = .running
  thread : d.hasThread ↔ d.lifecycle = .running

theorem Coherent.congr {d' : Driver σ} (h : d.Coherent) (hlink : d'.link?.isSome = d.link?.isSome)
    (hguard : d'.hasGuard = d.hasGuard) (hthread : d'.hasThread = d.hasThread)
    (hlifecycle : d'.lifecycle = d.lifecycle) : d'.Coherent := by
  constructor
  · rw [hlink, hlifecycle, h.link]
  · rw [hguard, hlifecycle, h.guard]
  · rw [hthread, hlifecycle, h.thread]

theorem Coherent.link?_eq_none (h : d.Coherent) (hlifecycle : d.lifecycle ≠ .running) :
    d.link? = none := by
  rw [← Option.not_isSome_iff_eq_none, h.link]
  exact hlifecycle

theorem Coherent.launched {r : Driver σ × Except DriverError Unit} (h : d.Coherent)
    (hlifecycle : d.lifecycle = .uninitialized) (hr : Launched net d r) :
    r.1.Coherent ∧ d.lifecycle.Leads r.1.lifecycle := by
  have hnone := h.link?_eq_none (by simp [hlifecycle])
  have hidle {w : σ} {died : Bool} :
      ({ d with uplink := .idle w, died := died } : Driver σ).Coherent :=
    h.congr (by rw [hnone]; rfl) rfl rfl rfl
  cases hr with
  | running => exact ⟨by constructor <;> simp [link?, Uplink.link?], hlifecycle ▸ .launched⟩
  | refused | threadless | diedOpening | diedStarting => exact ⟨hidle, .refl _⟩

theorem Coherent.launchWith (h : d.Coherent) (net : Net σ) (params : ParamTable) :
    (d.launchWith net params).1.Coherent ∧
      d.lifecycle.Leads (d.launchWith net params).1.lifecycle := by
  rcases d.launchWith_cases net params with ⟨hlifecycle, hlaunched⟩ | ⟨-, hsame⟩
  · have hd : ({ d with params := params } : Driver σ).Coherent := h.congr rfl rfl rfl rfl
    exact hd.launched hlifecycle hlaunched
  · rw [hsame]
    exact ⟨h, .refl _⟩

/-! ## Other calls -/

theorem packCommand_fst (d : Driver σ) (b : Builder) :
    ∃ scratch, (d.packCommand b).1 = { d with scratch := scratch } := by
  unfold packCommand
  dsimp only [copyPosition, copyTorque]
  split <;> exact ⟨_, rfl⟩

/-- Submitting a message changes nothing of a driver but its scratch buffer. -/
theorem sendCommand_fst (net : Net σ) (d : Driver σ) (s : LinkState σ) :
    ∃ scratch, (sendCommand net d s).1 = { d with scratch := scratch } := by
  obtain ⟨scratch, hpack⟩ := d.packCommand_fst s.acquire.1
  refine ⟨scratch, ?_⟩
  unfold sendCommand
  dsimp only
  rcases hr : d.packCommand s.acquire.1 with ⟨d', e | m⟩
  · rw [hr] at hpack
    exact hpack
  · rw [hr] at hpack
    dsimp only
    split <;> exact hpack

theorem tick_of_link?_eq_none (net : Net σ) (h : d.link? = none) : d.tick net = (d, false) := by
  unfold tick
  split
  next => rfl
  next s hlinked => simp [link?, Uplink.link?, hlinked] at h

theorem sendCommand_withMetrics (net : Net σ) (d : Driver σ) (s : LinkState σ)
    (m : DriverMetrics) :
    sendCommand net { d with metrics := m } s =
      ({ (sendCommand net d s).1 with metrics := m }, (sendCommand net d s).2) := by
  have hpack : ({ d with metrics := m } : Driver σ).packCommand s.acquire.1 =
      ({ (d.packCommand s.acquire.1).1 with metrics := m }, (d.packCommand s.acquire.1).2) := by
    unfold packCommand
    dsimp only [copyPosition, copyTorque]
    split <;> rfl
  unfold sendCommand
  dsimp only
  rw [hpack]
  rcases d.packCommand s.acquire.1 with ⟨d', e | b⟩
  · rfl
  · dsimp only
    split <;> rfl

/-- A tick submits a message and counts how that ended. -/
theorem tick_of_link? (net : Net σ) {s : LinkState σ} (h : d.link? = some s) :
    ∃ scratch died, (d.tick net).1 = { d with
      uplink := .linked (sendCommand net d s).2.1
      metrics := d.metrics.record (sendCommand net d s).2.2
      scratch := scratch
      died := died } := by
  obtain ⟨scratch, hsent⟩ := sendCommand_fst net d s
  refine ⟨scratch, d.died || (sendCommand net d s).2.1.callerDied, ?_⟩
  unfold tick
  split
  next w hidle => simp [uplink_of_link? h] at hidle
  next s' hlinked =>
    obtain rfl := Uplink.linked.inj ((uplink_of_link? h).symm.trans hlinked)
    rw [sendCommand_withMetrics, hsent]
    rcases (sendCommand net d s).2 with ⟨s', e | _⟩ <;> rfl

theorem Coherent.tick (h : d.Coherent) (net : Net σ) :
    (d.tick net).1.Coherent ∧ (d.tick net).1.lifecycle = d.lifecycle := by
  cases hlink : d.link? with
  | none =>
    rw [tick_of_link?_eq_none net hlink]
    exact ⟨h, rfl⟩
  | some s =>
    obtain ⟨scratch, died, htick⟩ := tick_of_link? net hlink
    rw [htick]
    refine ⟨h.congr ?_ rfl rfl rfl, rfl⟩
    rw [hlink]
    rfl

theorem Coherent.write (h : d.Coherent) (a : ArmWrite) : (d.write a).Coherent := by
  rw [write_eq]
  exact h.congr rfl rfl rfl rfl

/-- A driver that was shut down has nothing left. -/
theorem shutdown_cases (net : Net σ) (join : LinkState σ → LinkState σ) (d : Driver σ) :
    d.lifecycle = .stopped ∧ d.shutdown net join = d ∨
    d.lifecycle ≠ .stopped ∧ ∃ w died, d.shutdown net join = { d with
      uplink := .idle w
      lifecycle := .stopped
      hasGuard := false
      hasThread := false
      died := died } := by
  unfold shutdown
  split
  next h => exact .inl ⟨h, rfl⟩
  next h =>
    refine .inr ⟨h, ?_⟩
    split
    next w huplink => exact ⟨w, d.died, by rw [← huplink]⟩
    next => exact ⟨_, _, rfl⟩

theorem Coherent.shutdown (h : d.Coherent) (net : Net σ) (join : LinkState σ → LinkState σ) :
    (d.shutdown net join).Coherent ∧ (d.shutdown net join).lifecycle = .stopped := by
  rcases d.shutdown_cases net join with ⟨hstopped, heq⟩ | ⟨-, w, died, heq⟩
  · rw [heq]
    exact ⟨h, hstopped⟩
  · rw [heq]
    exact ⟨by constructor <;> simp [link?, Uplink.link?], rfl⟩

/-- A second shutdown does nothing. -/
theorem shutdown_shutdown (net : Net σ) (join join' : LinkState σ → LinkState σ) (d : Driver σ) :
    (d.shutdown net join).shutdown net join' = d.shutdown net join := by
  have hstopped : (d.shutdown net join).lifecycle = .stopped := by
    rcases d.shutdown_cases net join with ⟨hstopped, heq⟩ | ⟨-, w, died, heq⟩
    · rwa [heq]
    · rw [heq]
  rcases (d.shutdown net join).shutdown_cases net join' with ⟨-, heq⟩ | ⟨hne, -⟩
  · exact heq
  · exact absurd hstopped hne

end Driver

/-! ## Sessions -/

namespace Session

variable {σ : Type} {net : Net σ} {x : Session σ}

def created (w : σ) (params : ParamTable) (config : LinkConfig) : Session σ where
  driver := { uplink := .idle w, params := params, config := config }

theorem coherent_created (w : σ) (params : ParamTable) (config : LinkConfig) :
    (created w params config).driver.Coherent := by
  constructor <;> simp [created, Driver.link?, Uplink.link?]

theorem coherent_loop (h : x.driver.Coherent) (net : Net σ) (action : Action) :
    (x.loop net action).driver.Coherent ∧
      (x.loop net action).driver.lifecycle = x.driver.lifecycle := by
  unfold loop
  split
  next => exact ⟨h, rfl⟩
  next y hy =>
    obtain ⟨s, hs, -⟩ := Option.map_eq_some_iff.1 hy
    refine ⟨h.congr ?_ rfl rfl rfl, rfl⟩
    rw [hs]
    rfl

/-- Each action keeps a driver coherent and leads on in its life, if anywhere. -/
theorem coherent_step (h : x.driver.Coherent) (net : Net σ) (action : SessionAction σ) :
    (x.step net action).driver.Coherent ∧
      x.driver.lifecycle.Leads (x.step net action).driver.lifecycle := by
  have hsame {d : Driver σ} (hd : d.Coherent ∧ d.lifecycle = x.driver.lifecycle) :
      d.Coherent ∧ x.driver.lifecycle.Leads d.lifecycle := ⟨hd.1, hd.2 ▸ .refl _⟩
  cases action with
  | write a =>
    refine hsame ⟨h.write a, ?_⟩
    simp only [step, Driver.write_eq]
  | tick => exact hsame (h.tick net)
  | launch =>
    simp only [step, Driver.launch_eq_launchWith]
    exact h.launchWith net x.driver.params
  | launchWith params => exact h.launchWith net params
  | shutdown join =>
    obtain ⟨hcoherent, hstopped⟩ := h.shutdown net join
    refine ⟨hcoherent, ?_⟩
    simp only [step, hstopped]
    cases x.driver.lifecycle with
    | uninitialized => exact .retired
    | running => exact .ended
    | stopped => exact .refl _
  | proceed => exact hsame (coherent_loop h net .proceed)
  | wake r => exact hsame (coherent_loop h net (.wake r))

theorem coherent_run (h : x.driver.Coherent) (net : Net σ) (actions : List (SessionAction σ)) :
    (x.run net actions).driver.Coherent := by
  induction actions generalizing x with
  | nil => exact h
  | cons action rest ih => exact ih (coherent_step h net action).1

/-- After any calls, and whatever the loop did: a driver has a link, a guard and a thread exactly
while it runs, and its life only leads on. Launching a driver that runs or was stopped is refused
and changes nothing. Otherwise it has one of the outcomes of a launch, which do not depend on those
of earlier launches, and one that fails leaves the driver as it was, with the parameters that it was
given. A second shutdown does nothing, and neither does a tick of a driver that does not run. -/
theorem lifecycle_of_run (net : Net σ) (w : σ) (params : ParamTable) (config : LinkConfig)
    (actions : List (SessionAction σ)) :
    let x := (created w params config).run net actions
    let d := x.driver
    d.Coherent ∧
    (∀ action, d.lifecycle.Leads (x.step net action).driver.lifecycle) ∧
    (d.lifecycle = .running → ∀ p, d.launch net = (d, .error .alreadyRunning) ∧
      d.launchWith net p = (d, .error .alreadyRunning)) ∧
    (d.lifecycle = .stopped → ∀ p, d.launch net = (d, .error .stopped) ∧
      d.launchWith net p = (d, .error .stopped)) ∧
    (d.lifecycle = .uninitialized → Driver.Launched net d (d.launch net) ∧
      ∀ p, Driver.Launched net { d with params := p } (d.launchWith net p) ∧
        ∀ s w₁ w₂, Driver.openLink net { d with params := p } = (.done s, w₁) →
          net.startThread s.world = (.ok (), w₂) →
          (d.launchWith net p).2 = .ok () ∧ (d.launchWith net p).1.lifecycle = .running) ∧
    (∀ join join', (d.shutdown net join).shutdown net join' = d.shutdown net join) ∧
    (d.lifecycle ≠ .running → d.tick net = (d, false)) := by
  intro x d
  have hcoherent : d.Coherent := coherent_run (coherent_created w params config) net actions
  refine ⟨hcoherent, fun action => (coherent_step hcoherent net action).2, fun h p => ?_,
    fun h p => ?_, fun h => ⟨?_, fun p => ?_⟩,
    fun join join' => Driver.shutdown_shutdown net join join' d, fun h => ?_⟩
  · exact Driver.launch_of_refusal net (by rw [h]; rfl) p
  · exact Driver.launch_of_refusal net (by rw [h]; rfl) p
  · rw [Driver.launch_of_uninitialized net h]
    exact Driver.launched_connect net d
  · rw [Driver.launchWith_of_uninitialized net h]
    exact ⟨Driver.launched_connect net _, fun s w₁ w₂ => Driver.connect_of_openLink⟩
  · exact Driver.tick_of_link?_eq_none net (hcoherent.link?_eq_none h)

/-- A launch fails, as the near address is none. With other parameters the driver is launched. -/
theorem lifecycle_of_run_of_refused :
    ∃ x : Session (List (Reply Nat)),
      x = created [] { localTransportAddress := "nowhere" } {} ∧
      (x.driver.launch Net.scripted).2 = .error (.connection "nowhere" "tcp://172.31.1.147:30010"
        (.invalidEndpoint "nowhere" "missing scheme")) ∧
      (x.step Net.scripted .launch).driver.lifecycle = .uninitialized ∧
      ((x.step Net.scripted .launch).driver.launchWith Net.scripted {}).2 = .ok () ∧
      ((x.step Net.scripted .launch).driver.launchWith Net.scripted {}).1.lifecycle = .running := by
  obtain ⟨-, -, -, -, hagain, -, -⟩ := lifecycle_of_run Net.scripted ([] : List (Reply Nat))
    { localTransportAddress := "nowhere" } {} [.launch]
  have hfailed : ((created ([] : List (Reply Nat)) { localTransportAddress := "nowhere" } {}).step
      Net.scripted .launch).driver.lifecycle = .uninitialized := by
    cbv
  have hopen : ∃ s, (Driver.openLink Net.scripted { ((created ([] : List (Reply Nat))
      { localTransportAddress := "nowhere" } {}).step Net.scripted .launch).driver with
      params := {} }).1 = .done s := by
    cbv
    exact ⟨_, rfl⟩
  obtain ⟨s, hs⟩ := hopen
  exact ⟨_, rfl, by cbv, hfailed, ((hagain hfailed).2 {}).2 s _ _ (Prod.ext hs rfl) rfl⟩

end Session

end ArmStream
