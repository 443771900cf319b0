import Mathlib
import ArmStream.Proofs.Lifecycle

/-!
# Health counters

Each tick of a driver that has a link is an attempt, which succeeds or fails. The driver counts its
attempts, the link counts what its queue took, and the two agree at all times: whatever the loop
does, even when it leaves or its thread ends, it changes neither count.

## Main definitions

- `Driver.outcome?`: how a tick ends, if there is a link.
- `DriverMetrics.Counts`: the counters are those of a list of outcomes.
- `Session.outcomes`: the outcomes of the ticks of a run.
- `Driver.Agrees`: driver and link agree on what was submitted.

## Main statements

- `Driver.sendCommand_eq_error_iff`: when a tick fails.
- `Session.agrees_step`: each action keeps driver and link in agreement.
- `Session.health_of_run`: the counters in all sessions.
-/

namespace ArmStream

/-! ## Counting outcomes -/

namespace DriverMetrics

variable {m : DriverMetrics} {rs : List (Except DriverError Unit)}

/-- The counters are those of attempts that ended so, the first one first. -/
structure Counts (m : DriverMetrics) (rs : List (Except DriverError Unit)) : Prop where
  attempted : m.attempted = rs.length
  succeeded : m.succeeded = rs.countP Except.isOk
  failed : m.failed = rs.countP fun r => !r.isOk
  /-- The failures in a row are those behind the last success. -/
  consecutive : m.consecutiveFailures = (rs.reverse.takeWhile fun r => !r.isOk).length

theorem Counts.record (h : m.Counts rs) (r : Except DriverError Unit) :
    (m.record r).Counts (rs ++ [r]) := by
  obtain ⟨hattempted, hsucceeded, hfailed, hconsecutive⟩ := h
  cases r <;> constructor <;>
    simp [DriverMetrics.record, attempt, succeed, fail, Except.isOk, Except.toBool, hattempted,
      hsucceeded, hfailed, hconsecutive]

theorem Counts.attempted_eq (h : m.Counts rs) : m.attempted = m.succeeded + m.failed := by
  rw [h.attempted, h.succeeded, h.failed, List.length_eq_countP_add_countP Except.isOk]
  simp

end DriverMetrics

/-! ## Submitting -/

/-- The link counts the messages that its queue took. -/
theorem LinkState.submitted_submit {σ : Type} (net : Net σ) (s : LinkState σ) (b : Builder) :
    (s.submit net b).1.metrics.submitted =
      s.metrics.submitted + if (s.submit net b).2.isOk then 1 else 0 := by
  rcases s.submit_cases net b with ⟨-, h⟩ | ⟨-, -, h⟩ | ⟨-, -, -, -, h⟩ | ⟨-, -, -, -, h⟩
  · simp [h, Except.isOk, Except.toBool]
  · simp [h, Except.isOk, Except.toBool]
  · simp [h, Except.isOk, Except.toBool, countDropped]
  · simp [h, Except.isOk, Except.toBool, queued, countSubmitted]

namespace Driver

variable {σ : Type} {net : Net σ} {d : Driver σ} {s : LinkState σ}

/-- How the next tick ends; nothing without a link. -/
def outcome? (net : Net σ) (d : Driver σ) : Option (Except DriverError Unit) :=
  d.link?.map fun s => (sendCommand net d s).2.2

theorem finished_of_packCommand {b m : Builder} (h : (d.packCommand b).2 = .ok m) :
    m.finished = true := by
  unfold packCommand packTorque Builder.finish at h
  dsimp only at h
  grind

/-- A finished message is refused only if the queue is full or the loop gone. -/
theorem cause_of_submit (net : Net σ) {m : Builder} (hm : m.finished = true) {cause : LinkError}
    (h : (s.submit net m).2 = .error cause) :
    cause = .queueFull s.config.queueCapacity ∨ cause = .loopStopped := by
  rcases s.submit_cases net m with ⟨hopen, -⟩ | ⟨-, -, heq⟩ | ⟨-, -, -, -, heq⟩ | ⟨-, -, -, -, heq⟩
  · simp [hm] at hopen
  · exact .inr (by simpa [heq, eq_comm] using h)
  · exact .inl (by simpa [heq, eq_comm] using h)
  · simp [heq] at h

/-- A tick fails if its message cannot be packed, or if the queue is full or the loop gone. -/
theorem sendCommand_eq_error_iff (net : Net σ) (d : Driver σ) (s : LinkState σ) (e : DriverError) :
    (sendCommand net d s).2.2 = .error e ↔
      (∃ cause, (d.packCommand s.acquire.1).2 = .error cause ∧ e = .badMessage cause) ∨
      ∃ m cause, (d.packCommand s.acquire.1).2 = .ok m ∧
        (s.acquire.2.submit net m).2 = .error cause ∧
        (cause = .queueFull s.config.queueCapacity ∨ cause = .loopStopped) ∧ e = .link cause := by
  have hconfig : s.acquire.2.config = s.config := by
    obtain ⟨pool, hacquire⟩ := s.exists_acquire
    rw [hacquire]
  unfold sendCommand
  rcases hpack : d.packCommand s.acquire.1 with ⟨d', cause | m⟩
  · simp [hpack, eq_comm]
  · have hm : m.finished = true := finished_of_packCommand (congrArg Prod.snd hpack)
    rcases hsubmit : s.acquire.2.submit net m with ⟨s', cause | _⟩
    · have hcause := cause_of_submit net hm (congrArg Prod.snd hsubmit)
      rw [hconfig] at hcause
      constructor
      · intro h
        exact .inr ⟨m, cause, by simp, by simp [hsubmit], hcause,
          by simpa [hpack, hsubmit, eq_comm] using h⟩
      · rintro (⟨_, herror, -⟩ | ⟨m', cause', hm', hcause', -, rfl⟩)
        · simp at herror
        · obtain rfl : m = m' := by simpa [hpack] using hm'
          obtain rfl : cause = cause' := by simpa [hsubmit] using hcause'
          simp [hpack, hsubmit]
    · simp [hpack, hsubmit]

theorem submitted_sendCommand (net : Net σ) (d : Driver σ) (s : LinkState σ) :
    (sendCommand net d s).2.1.metrics.submitted =
      s.metrics.submitted + if (sendCommand net d s).2.2.isOk then 1 else 0 := by
  have hmetrics : s.acquire.2.metrics = s.metrics := by
    obtain ⟨pool, hacquire⟩ := s.exists_acquire
    rw [hacquire]
  unfold sendCommand
  rcases hpack : d.packCommand s.acquire.1 with ⟨d', cause | m⟩
  · simp [hpack, hmetrics, Except.isOk, Except.toBool]
  · have hsubmitted := s.acquire.2.submitted_submit net m
    rw [hmetrics] at hsubmitted
    rcases hsubmit : s.acquire.2.submit net m with ⟨s', cause | _⟩ <;>
      simpa [hpack, hsubmit, Except.isOk, Except.toBool] using hsubmitted

/-! ## Agreement of driver and link -/

/-- Driver and link agree on what was submitted: all of it went through this link. -/
structure Agrees (d : Driver σ) : Prop where
  linked : ∀ s, d.link? = some s → s.metrics.submitted = d.metrics.succeeded
  uninitialized : d.lifecycle = .uninitialized → d.metrics.succeeded = 0

theorem Agrees.of_idle {d' : Driver σ} (h : d.Agrees) {w : σ} (hidle : d'.uplink = .idle w)
    (hlifecycle : d'.lifecycle = .uninitialized → d.lifecycle = .uninitialized)
    (hmetrics : d'.metrics = d.metrics) : d'.Agrees where
  linked s hs := by simp [link?, Uplink.link?, hidle] at hs
  uninitialized hd' := by rw [hmetrics, h.uninitialized (hlifecycle hd')]

/-- An open link has counted nothing yet. -/
theorem metrics_of_openLink {w : σ} (h : d.openLink net = (.done s, w)) : s.metrics = {} := by
  unfold openLink LinkState.ofChannel at h
  split at h
  next => cases h
  next => cases h
  next =>
    split at h
    next => cases h
    next => cases h
    next =>
      cases h
      rfl

theorem Agrees.launched {r : Driver σ × Except DriverError Unit} (h : d.Agrees)
    (hlifecycle : d.lifecycle = .uninitialized) (hr : Launched net d r) : r.1.Agrees := by
  cases hr with
  | running hopen _ =>
    refine ⟨fun s hs => ?_, fun hr => by cases hr⟩
    obtain rfl := Option.some.inj hs
    simp [LinkState.guard, metrics_of_openLink hopen, h.uninitialized hlifecycle]
  | refused | threadless | diedOpening | diedStarting => exact h.of_idle rfl id rfl

theorem Agrees.launchWith (h : d.Agrees) (net : Net σ) (params : ParamTable) :
    (d.launchWith net params).1.Agrees := by
  rcases d.launchWith_cases net params with ⟨hlifecycle, hlaunched⟩ | ⟨-, hsame⟩
  · have hd : ({ d with params := params } : Driver σ).Agrees := ⟨h.linked, h.uninitialized⟩
    exact hd.launched hlifecycle hlaunched
  · rwa [hsame]

theorem metrics_write (d : Driver σ) (a : ArmWrite) : (d.write a).metrics = d.metrics := by
  rw [write_eq]

theorem metrics_shutdown (net : Net σ) (join : LinkState σ → LinkState σ) (d : Driver σ) :
    (d.shutdown net join).metrics = d.metrics := by
  rcases d.shutdown_cases net join with ⟨-, heq⟩ | ⟨-, w, died, heq⟩ <;> rw [heq]

theorem metrics_launchWith (net : Net σ) (d : Driver σ) (params : ParamTable) :
    (d.launchWith net params).1.metrics = d.metrics := by
  rcases d.launchWith_cases net params with ⟨-, hlaunched⟩ | ⟨-, hsame⟩
  · generalize d.launchWith net params = r at hlaunched
    cases hlaunched <;> rfl
  · rw [hsame]

/-- Both count a submission that succeeds, and neither counts another. -/
theorem Agrees.tick (h : d.Agrees) (hcoherent : d.Coherent) (net : Net σ) :
    (d.tick net).1.Agrees := by
  cases hlink : d.link? with
  | none =>
    rwa [tick_of_link?_eq_none net hlink]
  | some s =>
    obtain ⟨scratch, died, htick⟩ := tick_of_link? net hlink
    have hsubmitted := submitted_sendCommand net d s
    have hrunning : d.lifecycle = .running := hcoherent.link.1 (by simp [hlink])
    rw [htick]
    refine ⟨fun s' hs' => ?_, fun huninitialized => ?_⟩
    · obtain rfl := Option.some.inj hs'
      rw [hsubmitted, h.linked s hlink]
      cases (sendCommand net d s).2.2 <;>
        simp [DriverMetrics.record, DriverMetrics.attempt, DriverMetrics.succeed,
          DriverMetrics.fail, Except.isOk, Except.toBool]
    · simp [hrunning] at huninitialized

theorem Agrees.shutdown (h : d.Agrees) (net : Net σ) (join : LinkState σ → LinkState σ) :
    (d.shutdown net join).Agrees := by
  rcases d.shutdown_cases net join with ⟨-, heq⟩ | ⟨-, w, died, heq⟩
  · rwa [heq]
  · rw [heq]
    exact h.of_idle rfl (fun hstopped => by cases hstopped) rfl

end Driver

/-! ## Sessions -/

namespace Session

variable {σ : Type} {net : Net σ} {x : Session σ}

def outcome? (net : Net σ) (x : Session σ) : SessionAction σ → Option (Except DriverError Unit)
  | .tick => x.driver.outcome? net
  | _ => none

/-- How the ticks of a run ended, of those made while the driver had a link. -/
def outcomes (net : Net σ) : Session σ → List (SessionAction σ) → List (Except DriverError Unit)
  | _, [] => []
  | x, action :: rest => (x.outcome? net action).toList ++ outcomes net (x.step net action) rest

theorem metrics_loop (net : Net σ) (x : Session σ) (action : Action) :
    (x.loop net action).driver.metrics = x.driver.metrics := by
  unfold loop
  split <;> rfl

/-- The loop only gives builders back, also when it leaves or its thread ends. -/
theorem agrees_loop (h : x.driver.Agrees) {action : Action}
    (hreturns : ∀ y : System σ, y.link.Returns (y.step net action).link) :
    (x.loop net action).driver.Agrees := by
  unfold loop
  split
  next => exact h
  next y hy =>
    obtain ⟨s, hs, rfl⟩ := Option.map_eq_some_iff.1 hy
    refine ⟨fun s' hs' => ?_, h.uninitialized⟩
    obtain rfl := Option.some.inj hs'
    have hsame := (hreturns ⟨s, x.stage, x.history⟩).callerSide_eq
    have hsubmitted := congrArg CallerSide.submitted hsame
    exact hsubmitted.trans (h.linked s hs)

/-- Each action keeps driver and link in agreement. -/
theorem agrees_step (h : x.driver.Agrees) (hcoherent : x.driver.Coherent) (net : Net σ)
    (action : SessionAction σ) : (x.step net action).driver.Agrees := by
  cases action with
  | write a =>
    simp only [step, Driver.write_eq]
    exact ⟨h.linked, h.uninitialized⟩
  | tick => exact h.tick hcoherent net
  | launch =>
    simp only [step, Driver.launch_eq_launchWith]
    exact h.launchWith net x.driver.params
  | launchWith params => exact h.launchWith net params
  | shutdown join => exact h.shutdown net join
  | proceed => exact agrees_loop h (System.returns_proceed net)
  | wake r => exact agrees_loop h fun y => System.returns_wake net y r

/-- Only a tick with a link is counted. -/
theorem counts_step {rs : List (Except DriverError Unit)} (h : x.driver.metrics.Counts rs)
    (net : Net σ) (action : SessionAction σ) :
    (x.step net action).driver.metrics.Counts (rs ++ (x.outcome? net action).toList) := by
  have hsame {d : Driver σ} (hd : d.metrics = x.driver.metrics) : d.metrics.Counts (rs ++ []) := by
    rwa [hd, List.append_nil]
  cases action with
  | write a => exact hsame (x.driver.metrics_write a)
  | tick =>
    simp only [outcome?, Driver.outcome?]
    cases hlink : x.driver.link? with
    | none => exact hsame (congrArg (·.1.metrics) (Driver.tick_of_link?_eq_none net hlink))
    | some s =>
      obtain ⟨scratch, died, htick⟩ := Driver.tick_of_link? net hlink
      simp only [step, tick, htick]
      exact h.record _
  | launch =>
    simp only [step, Driver.launch_eq_launchWith]
    exact hsame (Driver.metrics_launchWith net _ _)
  | launchWith params => exact hsame (Driver.metrics_launchWith net _ _)
  | shutdown join => exact hsame (x.driver.metrics_shutdown net join)
  | proceed => exact hsame (metrics_loop net x _)
  | wake r => exact hsame (metrics_loop net x _)

/-- The counters after a run are those of its outcomes. -/
theorem counts_run {rs : List (Except DriverError Unit)} (h : x.driver.metrics.Counts rs)
    (net : Net σ) (actions : List (SessionAction σ)) :
    (x.run net actions).driver.metrics.Counts (rs ++ x.outcomes net actions) := by
  induction actions generalizing x rs with
  | nil => simpa [outcomes, run] using h
  | cons action rest ih =>
    have hrest := ih (counts_step h net action)
    rwa [List.append_assoc] at hrest

theorem agrees_run (h : x.driver.Agrees) (hcoherent : x.driver.Coherent) (net : Net σ)
    (actions : List (SessionAction σ)) : (x.run net actions).driver.Agrees := by
  induction actions generalizing x with
  | nil => exact h
  | cons action rest ih =>
    exact ih (agrees_step h hcoherent net action) (coherent_step hcoherent net action).1

/-- In every session, whatever the loop does between the ticks: the ticks that are counted are those
made while the driver had a link; each of them succeeded or failed; the failures in a row are those
behind the last success. While the driver runs, its successes are the messages that the queue of its
link took, and its next tick fails if and only if the message cannot be packed, or the queue is
full, or the loop was stopped or is gone. -/
theorem health_of_run (net : Net σ) (w : σ) (params : ParamTable) (config : LinkConfig)
    (actions : List (SessionAction σ)) :
    let x := (created w params config).run net actions
    let d := x.driver
    let results := (created w params config).outcomes net actions
    d.metrics.attempted = d.metrics.succeeded + d.metrics.failed ∧
    d.metrics.attempted = results.length ∧
    d.metrics.succeeded = results.countP Except.isOk ∧
    d.metrics.consecutiveFailures = (results.reverse.takeWhile fun r => !r.isOk).length ∧
    (d.lifecycle = .running → ∃ s, d.link? = some s ∧
      d.metrics.succeeded = s.metrics.submitted ∧
      ∀ e, d.outcome? net = some (.error e) ↔
        (∃ cause, (d.packCommand s.acquire.1).2 = .error cause ∧ e = .badMessage cause) ∨
        ∃ m cause, (d.packCommand s.acquire.1).2 = .ok m ∧
          (s.acquire.2.submit net m).2 = .error cause ∧
          (cause = .queueFull s.config.queueCapacity ∨ cause = .loopStopped) ∧
          e = .link cause) := by
  intro x d results
  have hcoherent := coherent_created w params config
  have hstart : (created w params config).driver.Agrees :=
    ⟨fun s hs => by simp [created, Driver.link?, Uplink.link?] at hs, fun _ => rfl⟩
  have hnone : (created w params config).driver.metrics.Counts [] := ⟨rfl, rfl, rfl, rfl⟩
  have hcounts : d.metrics.Counts results := counts_run hnone net actions
  have hagrees : d.Agrees := agrees_run hstart hcoherent net actions
  refine ⟨hcounts.attempted_eq, hcounts.attempted, hcounts.succeeded, hcounts.consecutive,
    fun hrunning => ?_⟩
  have hlink : d.link?.isSome := (coherent_run hcoherent net actions).link.2 hrunning
  obtain ⟨s, hs⟩ := Option.isSome_iff_exists.1 hlink
  refine ⟨s, hs, (hagrees.linked s hs).symm, fun e => ?_⟩
  rw [← Driver.sendCommand_eq_error_iff]
  simp [Driver.outcome?, hs, d, x]

/-- With room for one message in the queue and a loop that does nothing, the second tick fails. -/
theorem health_of_run_of_full :
    ∃ (params : ParamTable) (x : Session (List (Reply Nat))),
      params.localTransportAddress = "udp://127.0.0.1:0" ∧
      x = (created [] params { queueCapacity := 1 }).run Net.scripted [.launch, .tick, .tick] ∧
      x.driver.lifecycle = .running ∧
      x.driver.metrics =
        { attempted := 2, succeeded := 1, failed := 1, consecutiveFailures := 1 } ∧
      ∃ s, x.driver.link? = some s ∧ s.metrics.submitted = 1 := by
  obtain ⟨params, hparams⟩ : ∃ params : ParamTable, params =
      { localTransportAddress := "udp://127.0.0.1:0"
        remoteTransportAddress := "udp://10.9.8.7:30010" } := ⟨_, rfl⟩
  obtain ⟨-, -, -, -, hlink⟩ := health_of_run Net.scripted ([] : List (Reply Nat)) params
    { queueCapacity := 1 } [.launch, .tick, .tick]
  have hrunning : ((created ([] : List (Reply Nat)) params { queueCapacity := 1 }).run Net.scripted
      [.launch, .tick, .tick]).driver.lifecycle = .running := by
    rw [hparams]
    cbv
  have hmetrics : ((created ([] : List (Reply Nat)) params { queueCapacity := 1 }).run Net.scripted
      [.launch, .tick, .tick]).driver.metrics =
        { attempted := 2, succeeded := 1, failed := 1, consecutiveFailures := 1 } := by
    rw [hparams]
    cbv
  obtain ⟨s, hs, hsubmitted, -⟩ := hlink hrunning
  rw [hmetrics] at hsubmitted
  exact ⟨params, _, by rw [hparams], rfl, hrunning, hmetrics, s, hs, hsubmitted.symm⟩

end Session

end ArmStream
