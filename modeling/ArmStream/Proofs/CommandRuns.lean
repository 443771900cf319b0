import Mathlib
import ArmStream.Command.Run
import ArmStream.Proofs.Health
import ArmStream.Proofs.Values

/-!
# Runs of a command

A run writes its values once and then ticks. Nothing writes to the arm between the ticks, so each
tick sends the values of the command line, whatever happened to the messages before. The loop counts
its ticks, the driver its attempts, and each tick is one attempt; so the report agrees with what was
sent, also if submissions fail.

## Main definitions

- `Surroundings.Loops`: between ticks the loop of the link goes on.
- `afterTicks`, `moment`: the driver and the time of the next tick after some ticks.
- `Passes`: a tick does not break off the run.

## Main statements

- `loopFrom_of_passes`, `loopFrom_of_not_passes`: the ticks of a loop.
- `stream_eq_reported_iff`, `stream_eq_brokeOff_iff`: how a run ends, and what it reports.
- `Driver.tick_submits`: what a tick submits.
- `run_reports`: what a run sends and what it reports.
-/

namespace ArmStream

/-! ## One tick -/

namespace Driver

variable {σ : Type} {d : Driver σ} {s : LinkState σ}

/-- Only vectors that fit can be packed. -/
theorem fits_of_packCommand {b m : Builder} (h : (d.packCommand b).2 = .ok m) :
    d.arm.outgoing.Fits := by
  rw [JointState.fits_iff]
  unfold packCommand packPosition packTorque at h
  dsimp only [copyPosition, copyTorque] at h
  cases hposition : b.push ⟨.position, d.arm.commandedPosition⟩ with
  | error e => simp [hposition] at h
  | ok b₁ =>
    cases hvelocity : b₁.push ⟨.velocity, []⟩ with
    | error e => simp [hposition, hvelocity] at h
    | ok b₂ =>
      cases htorque : b₂.push ⟨.acceleration, d.arm.torque⟩ with
      | error e => simp [hposition, hvelocity, htorque] at h
      | ok b₃ =>
        exact ⟨(Builder.push_eq_ok hposition).2.2.1, (Builder.push_eq_ok hvelocity).2.2.1,
          (Builder.push_eq_ok htorque).2.2.1⟩

/-- A tick submits a message that reads as the state of the arm. If the vectors are too long for a
message it submits nothing. -/
theorem tick_submits (net : Net σ) (hlink : d.link? = some s) (htidy : s.Tidy) :
    (∃ m, m.Carries d.arm.outgoing ∧
      (d.tick net).1.link? = some (s.acquire.2.submit net m).1) ∨
    ¬d.arm.outgoing.Fits ∧ (d.tick net).1.link? = some s.acquire.2 := by
  by_cases hfits : d.arm.outgoing.Fits
  · obtain ⟨m, hencode, hbuilt, hfinished⟩ := JointState.exists_encodeInto hfits
    rw [← htidy.acquire_eq_empty] at hencode
    exact .inl ⟨m, ⟨m.buffer, Builder.bytes_of_finished hfinished,
      JointState.decode_of_built hbuilt hfinished⟩, (tick_of_encodeInto net hlink hencode).2⟩
  · refine .inr ⟨hfits, ?_⟩
    obtain ⟨scratch, died, htick⟩ := tick_of_link? net hlink
    have hsent : (sendCommand net d s).2.1 = s.acquire.2 := by
      unfold sendCommand
      rcases hpack : d.packCommand s.acquire.1 with ⟨d', e | m⟩
      · simp [hpack]
      · exact absurd (fits_of_packCommand (congrArg Prod.snd hpack)) hfits
    rw [htick, hsent]
    rfl

end Driver

namespace Command

variable {σ : Type} {env : Surroundings σ} {d : Driver σ}

/-! ## Ticks -/

/-- Between two ticks the loop of the link goes on: it performs stages, and its waits end. -/
def Surroundings.Loops (env : Surroundings σ) : Prop :=
  ∀ s, ∃ (y : System σ) (actions : List Action), y.link = s ∧
    (∀ a ∈ actions, a.isCallers = false) ∧ (y.run env.net actions).link = env.meanwhile s

/-- The driver after so many ticks and what happened until the next. -/
def afterTicks (env : Surroundings σ) (d : Driver σ) : Nat → Driver σ
  | 0 => d
  | k + 1 => wait env ((afterTicks env d k).tick env.net).1

/-- The time that is set for the tick after so many others. -/
def moment (env : Surroundings σ) (period : Nat) (d : Driver σ) : Nat → Nat
  | 0 => clock env.net d
  | k + 1 => max (moment env period d k + period)
    (clock env.net ((afterTicks env d k).tick env.net).1)

def outcomes (env : Surroundings σ) (d : Driver σ) (n : Nat) : List (Except DriverError Unit) :=
  (List.range n).filterMap fun k => (afterTicks env d k).outcome? env.net

theorem arm_wait (env : Surroundings σ) (d : Driver σ) : (wait env d).arm = d.arm := by
  unfold wait
  split <;> rfl

theorem metrics_wait (env : Surroundings σ) (d : Driver σ) :
    (wait env d).metrics = d.metrics := by
  unfold wait
  split <;> rfl

theorem link?_wait (env : Surroundings σ) (d : Driver σ) :
    (wait env d).link? = d.link?.map env.meanwhile := by
  unfold wait Driver.link?
  split
  next h => simp [h, Uplink.link?]
  next h => simp [h, Uplink.link?]

/-- A tick leaves the state of the arm as it is, and keeps the link. -/
theorem tick_keeps (net : Net σ) (d : Driver σ) :
    (d.tick net).1.arm = d.arm ∧ (d.tick net).1.link?.isSome = d.link?.isSome := by
  cases hlink : d.link? with
  | none => simp [Driver.tick_of_link?_eq_none net hlink, hlink]
  | some s =>
    obtain ⟨scratch, died, htick⟩ := Driver.tick_of_link? net hlink
    rw [htick]
    exact ⟨rfl, rfl⟩

theorem arm_afterTicks (env : Surroundings σ) (d : Driver σ) (k : Nat) :
    (afterTicks env d k).arm = d.arm := by
  induction k with
  | zero => rfl
  | succ k ih => rw [afterTicks, arm_wait, (tick_keeps env.net _).1, ih]

theorem isSome_link?_afterTicks (env : Surroundings σ) (h : d.link?.isSome) (k : Nat) :
    (afterTicks env d k).link?.isSome := by
  induction k with
  | zero => exact h
  | succ k ih => rwa [afterTicks, link?_wait, Option.isSome_map, (tick_keeps env.net _).2]

/-- The loop keeps the pool of the link tidy. -/
theorem Surroundings.Loops.tidy (h : env.Loops) {s : LinkState σ} (hs : s.Tidy) :
    (env.meanwhile s).Tidy := by
  obtain ⟨y, actions, rfl, -, hrun⟩ := h s
  rw [← hrun]
  clear hrun
  induction actions generalizing y with
  | nil => exact hs
  | cons a actions ih => exact ih (y.step env.net a) (System.tidy_step env.net hs a)

theorem tidy_afterTicks (h : env.Loops) (hd : d.Tidy) (k : Nat) : (afterTicks env d k).Tidy := by
  induction k with
  | zero => exact hd
  | succ k ih =>
    intro s hs
    rw [afterTicks, link?_wait, Option.map_eq_some_iff] at hs
    obtain ⟨s, hticked, rfl⟩ := hs
    exact h.tidy (ih.tick env.net s hticked)

/-- The counters are those of the ticks. -/
theorem counts_afterTicks (env : Surroundings σ) (h : d.metrics.Counts []) (k : Nat) :
    (afterTicks env d k).metrics.Counts (outcomes env d k) := by
  induction k with
  | zero => exact h
  | succ k ih =>
    simp only [outcomes, List.range_succ, List.filterMap_append] at ih ⊢
    rw [afterTicks, metrics_wait]
    cases hlink : (afterTicks env d k).link? with
    | none => simpa [Driver.outcome?, hlink, Driver.tick_of_link?_eq_none env.net hlink] using ih
    | some s =>
      obtain ⟨scratch, died, htick⟩ := Driver.tick_of_link? env.net hlink
      simpa [Driver.outcome?, hlink, htick] using ih.record _

/-- Each tick of a driver with a link is an attempt. -/
theorem length_outcomes (env : Surroundings σ) (h : d.link?.isSome) (k : Nat) :
    (outcomes env d k).length = k := by
  induction k with
  | zero => rfl
  | succ k ih =>
    obtain ⟨s, hs⟩ := Option.isSome_iff_exists.1 (isSome_link?_afterTicks env h k)
    have hlast : (afterTicks env d k).outcome? env.net =
        some (Driver.sendCommand env.net (afterTicks env d k) s).2.2 := by
      simp [Driver.outcome?, hs]
    simp only [outcomes, List.range_succ, List.filterMap_append, List.length_append] at ih ⊢
    simp only [ih, List.filterMap_cons, hlast, List.filterMap_nil, List.length_singleton]

/-! ## The loop -/

variable {period fuel k n : Nat} {limit interruption : Option Nat}

/-- The tick after so many others does not break off the loop. -/
structure Passes (env : Surroundings σ) (period : Nat) (d : Driver σ) (k : Nat) : Prop where
  /-- The clock shows the time of the next. -/
  shown : moment env period d k + period < Pace.clockEnd
  /-- No call of the system ends the thread. -/
  alive : ((afterTicks env d k).tick env.net).1.died = false

theorem reached_iff {bound : Option Nat} : reached bound k = true ↔ ∃ n ∈ bound, n ≤ k := by
  cases bound <;> simp [reached]

/-- A loop ends at its limit or at the interruption, whichever comes first. -/
theorem reached_or_iff (h : Option.merge min limit interruption = some n) :
    (reached interruption k || reached limit k) = true ↔ n ≤ k := by
  rw [Bool.or_eq_true, reached_iff, reached_iff]
  cases limit <;> cases interruption <;> simp at h ⊢ <;> omega

def loopFrom (env : Surroundings σ) (period : Nat) (limit interruption : Option Nat)
    (d : Driver σ) (fuel k : Nat) : Option Nat × Driver σ :=
  controlLoop env period limit interruption fuel k (moment env period d k) (afterTicks env d k)

theorem loopFrom_succ (h : Option.merge min limit interruption = some n) (hk : k < n)
    (hpass : Passes env period d k) :
    loopFrom env period limit interruption d (fuel + 1) k =
      loopFrom env period limit interruption d fuel (k + 1) := by
  have hopen : ¬(reached interruption k || reached limit k) = true := by
    rw [reached_or_iff h]
    omega
  unfold loopFrom
  rw [controlLoop, if_neg hopen, Pace.later?, if_pos hpass.shown]
  simp only [hpass.alive]
  rfl

theorem loopFrom_eq_none (h : Option.merge min limit interruption = some n) (hk : k < n)
    (hpass : ¬Passes env period d k) :
    (loopFrom env period limit interruption d (fuel + 1) k).1 = none := by
  have hopen : ¬(reached interruption k || reached limit k) = true := by
    rw [reached_or_iff h]
    omega
  unfold loopFrom
  rw [controlLoop, if_neg hopen, Pace.later?]
  by_cases hshown : moment env period d k + period < Pace.clockEnd
  · have hdied : ((afterTicks env d k).tick env.net).1.died = true := by
      by_contra hdied
      exact hpass ⟨hshown, by simpa using hdied⟩
    simp [hshown, hdied]
  · simp [hshown]

/-- If all ticks pass, the loop ends with them. -/
theorem loopFrom_of_passes (h : Option.merge min limit interruption = some n) (hk : k ≤ n)
    (hfuel : n ≤ k + fuel) (hpass : ∀ j, k ≤ j → j < n → Passes env period d j) :
    loopFrom env period limit interruption d fuel k = (some n, afterTicks env d n) := by
  induction fuel generalizing k with
  | zero =>
    obtain rfl : k = n := by omega
    rfl
  | succ fuel ih =>
    by_cases hlast : k = n
    · subst hlast
      rw [loopFrom, controlLoop, if_pos ((reached_or_iff h).2 (Nat.le_refl k))]
    · have hlt : k < n := by omega
      rw [loopFrom_succ h hlt (hpass k (Nat.le_refl k) hlt)]
      exact ih (by omega) (by omega) fun j hj => hpass j (by omega)

/-- If a tick breaks off the loop, the loop has no number of ticks. -/
theorem loopFrom_of_not_passes (h : Option.merge min limit interruption = some n)
    (hfuel : n ≤ k + fuel) {j : Nat} (hj : k ≤ j) (hjn : j < n) (hpass : ¬Passes env period d j) :
    (loopFrom env period limit interruption d fuel k).1 = none := by
  induction fuel generalizing k with
  | zero => omega
  | succ fuel ih =>
    by_cases hfirst : Passes env period d k
    · have hne : k ≠ j := by
        rintro rfl
        exact hpass hfirst
      rw [loopFrom_succ h (by omega) hfirst]
      exact ih (by omega) (by omega)
    · exact loopFrom_eq_none h (by omega) hfirst

/-! ## Streams -/

variable {a : RunArguments}

theorem stream_of_unmeasured (h : Pace.period? a.rate = none) :
    (stream env a interruption d).1 = .brokeOff := by
  simp [stream, h]

theorem stream_of_unbounded (hperiod : Pace.period? a.rate = some period)
    (h : Option.merge min a.ticks interruption = none) :
    (stream env a interruption d).1 =
      if (Pace.later? (clock env.net d) period).isSome then .endless else .brokeOff := by
  have hnone : a.ticks.or interruption = none := by
    cases hticks : a.ticks <;> cases interruption <;> simp [hticks] at h ⊢
  simp [stream, hperiod, hnone]

/-- What bounds the ticks is enough fuel for the loop. -/
theorem exists_bound (h : Option.merge min limit interruption = some n) :
    ∃ bound, limit.or interruption = some bound ∧ n ≤ bound := by
  cases limit <;> cases interruption <;> simp at h ⊢ <;> omega

theorem stream_of_passes (hperiod : Pace.period? a.rate = some period)
    (h : Option.merge min a.ticks interruption = some n) (hpass : ∀ k < n, Passes env period d k) :
    stream env a interruption d =
      (if ((afterTicks env d n).shutdown env.net env.join).died then .brokeOff
        else .reported ⟨n, (afterTicks env d n).metrics⟩,
      (afterTicks env d n).shutdown env.net env.join) := by
  obtain ⟨bound, hbound, hn⟩ := exists_bound h
  have hloop : controlLoop env period a.ticks interruption bound 0 (clock env.net d) d =
      (some n, afterTicks env d n) :=
    loopFrom_of_passes h (Nat.zero_le n) (by omega) fun k _ => hpass k
  simp only [stream, hperiod, hbound, hloop]

theorem stream_of_not_passes (hperiod : Pace.period? a.rate = some period)
    (h : Option.merge min a.ticks interruption = some n) (hk : k < n)
    (hpass : ¬Passes env period d k) : (stream env a interruption d).1 = .brokeOff := by
  obtain ⟨bound, hbound, hn⟩ := exists_bound h
  have hloop : (controlLoop env period a.ticks interruption bound 0 (clock env.net d) d).1 = none :=
    loopFrom_of_not_passes h (by omega) (Nat.zero_le k) hk hpass
  rcases hend : controlLoop env period a.ticks interruption bound 0 (clock env.net d) d with
    ⟨ticks | ticks, d'⟩
  · simp only [stream, hperiod, hbound, hend]
  · simp [hend] at hloop

/-- A stream is reported if its period can be measured, it has an end, all its ticks pass and no
call of the system ends the thread while the driver is shut down. It reports the number of its ticks
and the counters after them. -/
theorem stream_eq_reported_iff {r : Report} :
    (stream env a interruption d).1 = .reported r ↔
      ∃ period n, Pace.period? a.rate = some period ∧
        Option.merge min a.ticks interruption = some n ∧ (∀ k < n, Passes env period d k) ∧
        ((afterTicks env d n).shutdown env.net env.join).died = false ∧
        r = ⟨n, (afterTicks env d n).metrics⟩ := by
  constructor
  · intro h
    cases hperiod : Pace.period? a.rate with
    | none => simp [stream_of_unmeasured hperiod] at h
    | some period =>
      cases hmerge : Option.merge min a.ticks interruption with
      | none =>
        rw [stream_of_unbounded hperiod hmerge] at h
        split at h <;> cases h
      | some n =>
        by_cases hpass : ∀ k < n, Passes env period d k
        · rw [stream_of_passes hperiod hmerge hpass] at h
          split at h
          next => cases h
          next hdied =>
            exact ⟨period, n, rfl, rfl, hpass, by simpa using hdied, (RunEnd.reported.inj h).symm⟩
        · push Not at hpass
          obtain ⟨k, hk, hfail⟩ := hpass
          rw [stream_of_not_passes hperiod hmerge hk hfail] at h
          cases h
  · rintro ⟨period, n, hperiod, hmerge, hpass, hdied, rfl⟩
    simp [stream_of_passes hperiod hmerge hpass, hdied]

/-- A stream with an end breaks off if its period cannot be measured, if one of its ticks does not
pass, or if a call of the system ends the thread while the driver is shut down. -/
theorem stream_eq_brokeOff_iff
    (hmerge : Option.merge min a.ticks interruption = some n) :
    (stream env a interruption d).1 = .brokeOff ↔ Pace.period? a.rate = none ∨
      ∃ period, Pace.period? a.rate = some period ∧ ((∃ k < n, ¬Passes env period d k) ∨
        ((afterTicks env d n).shutdown env.net env.join).died = true) := by
  cases hperiod : Pace.period? a.rate with
  | none => simp [stream_of_unmeasured hperiod]
  | some period =>
    by_cases hpass : ∀ k < n, Passes env period d k
    · rw [stream_of_passes hperiod hmerge hpass]
      have hnone : ¬∃ k < n, ¬Passes env period d k := by
        push Not
        exact hpass
      cases ((afterTicks env d n).shutdown env.net env.join).died <;> simp [hnone]
    · push Not at hpass
      obtain ⟨k, hk, hfail⟩ := hpass
      rw [stream_of_not_passes hperiod hmerge hk hfail]
      simp only [true_iff]
      exact .inr ⟨period, rfl, .inl ⟨k, hk, hfail⟩⟩

/-! ## Runs -/

/-- A driver that was launched has a link with a tidy pool, and has counted nothing. -/
theorem launched_of_launch {net : Net σ} {params : ParamTable} {w : σ} {d : Driver σ}
    (h : ({ uplink := .idle w, params := params } : Driver σ).launch net = (d, .ok ()))
    (halive : d.died = false) : d.link?.isSome ∧ d.Tidy ∧ d.metrics.Counts [] := by
  have htidy := (Driver.tidy_of_link?_eq_none (d := { uplink := .idle w, params := params })
    rfl).launch net
  have hlaunched := Driver.launched_connect net { uplink := .idle w, params := params }
  rw [← Driver.launch_of_uninitialized net rfl, h] at hlaunched
  rw [h] at htidy
  cases hlaunched with
  | running => exact ⟨rfl, htidy, ⟨rfl, rfl, rfl, rfl⟩⟩
  | diedOpening => cases halive
  | diedStarting => cases halive

/-- The values of a command are those of its texts. -/
theorem parsesTo_of_commandOf {joints torques : List Pattern}
    (h : commandOf a = .ok (joints, torques)) :
    ParsesTo a.joints.toList (.ok joints) ∧ ParsesTo a.torques.toList (.ok torques) := by
  unfold commandOf at h
  split at h
  next => cases h
  next =>
    split at h
    next => cases h
    next joints' hjoints =>
      split at h
      next => cases h
      next torques' htorques =>
        obtain ⟨rfl, rfl⟩ := Prod.mk.inj (Except.ok.inj h)
        exact ⟨parseValues_eq_iff.1 hjoints, parseValues_eq_iff.1 htorques⟩

/-- A run whose driver was launched is a stream of the values it was given. -/
theorem run_eq_stream {params : ParamTable} {w : σ} {joints torques : List Pattern} {d₀ : Driver σ}
    (hcommand : commandOf a = .ok (joints, torques))
    (hlaunch : ({ uplink := .idle w, params := params } : Driver σ).launch env.net = (d₀, .ok ()))
    (halive : d₀.died = false) : run env params a interruption w =
      stream env a interruption ((d₀.set .jointAngle joints).setTorque torques) := by
  simp [run, hcommand, hlaunch, halive]

/-- Each tick submits a message with the state of the arm before the first, if that fits. -/
theorem tick_sends (hloops : env.Loops) (hlink : d.link?.isSome) (htidy : d.Tidy) (k : Nat) :
    ∃ s, (afterTicks env d k).link? = some s ∧
      ((∃ m, m.Carries d.arm.outgoing ∧
          ((afterTicks env d k).tick env.net).1.link? = some (s.acquire.2.submit env.net m).1) ∨
        ¬d.arm.outgoing.Fits ∧
          ((afterTicks env d k).tick env.net).1.link? = some s.acquire.2) := by
  obtain ⟨s, hs⟩ := Option.isSome_iff_exists.1 (isSome_link?_afterTicks env hlink k)
  have hsubmits := Driver.tick_submits env.net hs (tidy_afterTicks hloops htidy k s hs)
  rw [arm_afterTicks] at hsubmits
  exact ⟨s, hs, hsubmits⟩

/-- The report of a stream agrees with its ticks. -/
theorem stream_reports {r : Report} (hlink : d.link?.isSome) (hcounts : d.metrics.Counts [])
    (hr : (stream env a interruption d).1 = .reported r) :
    (∀ n ∈ a.ticks, r.ticks ≤ n ∧ (interruption = none → r.ticks = n)) ∧
      (∀ n ∈ interruption, r.ticks ≤ n) ∧
      r.metrics.attempted = r.ticks ∧ r.ticks = r.metrics.succeeded + r.metrics.failed ∧
      r.metrics = (afterTicks env d r.ticks).metrics ∧
      r.metrics.Counts (outcomes env d r.ticks) ∧
      (stream env a interruption d).2 = (afterTicks env d r.ticks).shutdown env.net env.join := by
  obtain ⟨period, n, hperiod, hmerge, hpass, -, rfl⟩ := stream_eq_reported_iff.1 hr
  have hmetrics := counts_afterTicks env hcounts n
  have hattempted : (afterTicks env d n).metrics.attempted = n := by
    rw [hmetrics.attempted, length_outcomes env hlink]
  refine ⟨fun limit hlimit => ?_, fun bound hbound => ?_, hattempted, ?_, rfl, hmetrics,
    congrArg Prod.snd (stream_of_passes hperiod hmerge hpass)⟩
  · cases interruption <;> simp [Option.mem_def.1 hlimit] at hmerge ⊢ <;> omega
  · have hle : n ≤ bound := by
      cases hticks : a.ticks <;> simp [Option.mem_def.1 hbound, hticks] at hmerge <;> omega
    exact hle
  · rw [← hmetrics.attempted_eq, hattempted]

/-- A run sends the values of its texts in each tick, and in the report each tick is an attempt that
succeeded or failed. A list of values comes to what its pieces spell, or to its first piece that is
no numeral. The limit bounds the ticks, and without an interruption there are as many. -/
theorem run_reports (env : Surroundings σ) (hloops : env.Loops) (params : ParamTable)
    (a : RunArguments) (interruption : Option Nat) (w : σ) {joints torques : List Pattern}
    {d₀ : Driver σ} (hcommand : commandOf a = .ok (joints, torques))
    (hlaunch : ({ uplink := .idle w, params := params } : Driver σ).launch env.net = (d₀, .ok ()))
    (halive : d₀.died = false) :
    let d := (d₀.set .jointAngle joints).setTorque torques
    (∀ text r, parseValues text = r ↔ ParsesTo text.toList r) ∧
    (∀ piece value, (∀ c ∈ piece, Text.isBlank c = true) → ¬Spells piece value) ∧
    parseValues a.joints = .ok joints ∧ parseValues a.torques = .ok torques ∧
    (∀ k, ∃ s, (afterTicks env d k).link? = some s ∧
      ((∃ m, m.Carries ⟨joints, [], torques⟩ ∧
          ((afterTicks env d k).tick env.net).1.link? = some (s.acquire.2.submit env.net m).1) ∨
        ¬(⟨joints, [], torques⟩ : JointState).Fits ∧
          ((afterTicks env d k).tick env.net).1.link? = some s.acquire.2)) ∧
    ∀ r, (run env params a interruption w).1 = .reported r →
      (∀ n ∈ a.ticks, r.ticks ≤ n ∧ (interruption = none → r.ticks = n)) ∧
      (∀ n ∈ interruption, r.ticks ≤ n) ∧
      r.metrics.attempted = r.ticks ∧ r.ticks = r.metrics.succeeded + r.metrics.failed ∧
      r.metrics = (afterTicks env d r.ticks).metrics ∧
      r.metrics.Counts (outcomes env d r.ticks) ∧
      (run env params a interruption w).2 =
        (afterTicks env d r.ticks).shutdown env.net env.join := by
  intro d
  obtain ⟨hlink, htidy, hcounts⟩ := launched_of_launch hlaunch halive
  obtain ⟨hjoints, htorques⟩ := parsesTo_of_commandOf hcommand
  have hlink' : d.link?.isSome := hlink
  refine ⟨fun _ _ => parseValues_eq_iff, fun _ value h => not_spells_of_blank h value,
    parseValues_eq_iff.2 hjoints, parseValues_eq_iff.2 htorques, tick_sends hloops hlink' htidy, ?_⟩
  rw [run_eq_stream hcommand hlaunch halive]
  exact fun r hr => stream_reports hlink' hcounts hr

/-- On the scripted network a loop takes three steps between two ticks. -/
def Surroundings.scripted : Surroundings (List (Reply Nat)) where
  net := Net.scripted
  meanwhile s := ((⟨s, .head, {}⟩ : System _).run Net.scripted [.proceed, .proceed, .proceed]).link
  join := id

/-- A run of two ticks. -/
theorem run_reports_of_two_ticks :
    ∃ (a : RunArguments) (d₀ : Driver (List (Reply Nat))) (r : Report),
      a.ticks = some 2 ∧ Surroundings.scripted.Loops ∧
      commandOf a = .ok ([0x3fe0000000000000, 0x3ff0000000000000], []) ∧
      ({ uplink := .idle [] } : Driver _).launch Surroundings.scripted.net = (d₀, .ok ()) ∧
      d₀.died = false ∧ parseValues a.joints = .ok [0x3fe0000000000000, 0x3ff0000000000000] ∧
      (run Surroundings.scripted .default a none []).1 = .reported r ∧ r.ticks = 2 ∧
      r.metrics.attempted = r.ticks ∧ r.ticks = r.metrics.succeeded + r.metrics.failed ∧
      r.metrics.failed = 0 := by
  let a : RunArguments := { ticks := some 2, joints := " 0.5,1 " }
  have hloops : Surroundings.scripted.Loops := fun s =>
    ⟨⟨s, .head, {}⟩, [.proceed, .proceed, .proceed], rfl, by simp [Action.isCallers], rfl⟩
  have hcommand : commandOf a = .ok ([0x3fe0000000000000, 0x3ff0000000000000], []) := by
    decide +kernel
  have hrun : (run Surroundings.scripted .default a none []).1 =
      .reported ⟨2, ⟨2, 2, 0, 0⟩⟩ := by
    decide +kernel
  obtain ⟨d, hd⟩ : ∃ d : Driver (List (Reply Nat)), d =
      (({ uplink := .idle [] } : Driver _).launch Surroundings.scripted.net).1 := ⟨_, rfl⟩
  have hopened : (({ uplink := .idle [] } : Driver (List (Reply Nat))).launch
      Surroundings.scripted.net).2 = .ok () := by
    decide +kernel
  have hlaunch : ({ uplink := .idle [] } : Driver _).launch Surroundings.scripted.net =
      (d, .ok ()) := Prod.ext hd.symm hopened
  have halive : d.died = false := by
    rw [hd]
    decide +kernel
  obtain ⟨-, -, hjoints, -, -, hreport⟩ :=
    run_reports Surroundings.scripted hloops .default a none [] hcommand hlaunch halive
  obtain ⟨hlimit, -, hattempted, htotal, -⟩ := hreport _ hrun
  exact ⟨a, d, _, rfl, hloops, hcommand, hlaunch, halive, hjoints, hrun, (hlimit 2 rfl).2 rfl,
    hattempted, htotal, rfl⟩

end Command

end ArmStream
