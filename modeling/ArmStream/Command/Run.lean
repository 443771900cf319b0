import ArmStream.Command.Arguments
import ArmStream.Command.Values
import ArmStream.Driver

/-!
# Sending commands to the arm

A run launches a driver, writes one command and ticks at a fixed rate until a limit is reached
or the run is interrupted. Then it shuts the driver down and reports the ticks and how many of
them the link accepted.

## Main definitions

- `Pace.period?`, `Pace.later?`: the time between ticks, and a moment that much later.
- `Surroundings`: the world and what the loop of the link does meanwhile.
- `controlLoop`: the ticks.
- `run`: the whole run.
-/

namespace ArmStream.Command

namespace Pace

/-- The rate is positive and finite. -/
def isUsable (rate : Pattern) : Bool := 0 < rate && rate < 0x7ff0000000000000

/-- The seconds between two ticks. -/
def seconds (rate : Pattern) : Pattern := (1.0 / Float.ofBits rate).toBits

/-- The pattern of the first number of seconds that no duration holds, two to the power of 64.
Patterns of positive numbers have the order of the numbers. -/
def measureLimit : Pattern := 0x43f0000000000000

/-- A second in nanoseconds. -/
def second : Nat := 1000000000

/-- The nanoseconds between two ticks, rounded to the nearest; `none` if no duration holds them. -/
def period? (rate : Pattern) : Option Nat :=
  if measureLimit ≤ seconds rate then none
  else
    let (num, den) := Number.magnitude (seconds rate)
    some (Number.roundDiv (second * num) den)

/-- The first moment that the clock does not show, in nanoseconds: two to the power of 63
seconds. -/
def clockEnd : Nat := 0x8000000000000000 * second

/-- The moment that is `period` later, if the clock shows it. -/
def later? (moment period : Nat) : Option Nat :=
  if moment + period < clockEnd then some (moment + period) else none

/-- The ticks that begin within so many milliseconds, the first of them at once. No two begin in
the same microsecond. -/
def ticksWithin (milliseconds : Nat) (rate : Pattern) : Nat :=
  let periods := (Float.ofNat milliseconds * Float.ofBits rate / 1000.0).floor
  min periods.toUInt64.toNat (1000 * milliseconds) + 1

end Pace

structure Surroundings (σ : Type) where
  net : Net σ
  /-- What the loop of a link does while the caller waits for the next tick. -/
  meanwhile : LinkState σ → LinkState σ
  /-- What the loop does from a stop until it ended. -/
  join : LinkState σ → LinkState σ

structure Report where
  ticks : Nat
  metrics : DriverMetrics
  deriving DecidableEq, Repr, Inhabited

/-- The text of a report. Failures are only mentioned if there are any. -/
def Report.text (r : Report) : String :=
  let m := r.metrics
  s!"发送周期: {r.ticks}\n提交成功: {m.succeeded} / {m.attempted} ({m.successPercent})\n"
    ++ if 0 < m.failed then s!"提交失败: {m.failed}\n" else ""

inductive RunError where
  | unusableRate
  | badJoints (cause : BadValue)
  | badTorques (cause : BadValue)
  | noConnection (cause : DriverError)
  deriving DecidableEq, Repr, Inhabited

inductive RunEnd where
  | reported (r : Report)
  | refused (e : RunError)
  /-- The run breaks off in the middle. -/
  | brokeOff
  /-- Neither a limit nor an interruption ends the run. -/
  | endless
  deriving DecidableEq, Repr, Inhabited

def reached (bound : Option Nat) (ticks : Nat) : Bool :=
  match bound with
  | none => false
  | some n => n ≤ ticks

variable {σ : Type}

def clock (net : Net σ) (d : Driver σ) : Nat := 1000000 * net.now d.uplink.world

def wait (env : Surroundings σ) (d : Driver σ) : Driver σ :=
  match d.uplink with
  | .idle _ => d
  | .linked s => { d with uplink := .linked (env.meanwhile s) }

/-- Ticks until the limit is reached or the interruption has come, each given as a number of ticks;
gives back the number of ticks. Each tick first sets the time of the next, counted from that of
the tick before, or from the clock after it if that is later. The loop breaks off (`none`) if the
clock does not show that time, or if a call of the system ends the thread. `fuel` bounds the
ticks. -/
def controlLoop (env : Surroundings σ) (period : Nat) (limit interruption : Option Nat) :
    (fuel ticks moment : Nat) → Driver σ → Option Nat × Driver σ
  | 0, ticks, _, d => (some ticks, d)
  | fuel + 1, ticks, moment, d =>
    if reached interruption ticks || reached limit ticks then (some ticks, d)
    else
      match Pace.later? moment period with
      | none => (none, d)
      | some next =>
        let d := (d.tick env.net).1
        if d.died then (none, d)
        else
          controlLoop env period limit interruption fuel (ticks + 1) (max next (clock env.net d))
            (wait env d)

/-- The joints and torques that a run sends. A bad rate is reported first, then bad joints. -/
def commandOf (a : RunArguments) : Except RunError (List Pattern × List Pattern) :=
  if !Pace.isUsable a.rate then .error .unusableRate
  else
    match parseValues a.joints with
    | .error e => .error (.badJoints e)
    | .ok joints =>
      match parseValues a.torques with
      | .error e => .error (.badTorques e)
      | .ok torques => .ok (joints, torques)

/-- The ticks of a running driver, and its shutdown. The interruption comes when so many ticks have
begun, if it comes; the tick under way is finished. A rate whose period cannot be measured breaks
off the run at once, also if there is nothing to do. -/
def stream (env : Surroundings σ) (a : RunArguments) (interruption : Option Nat) (d : Driver σ) :
    RunEnd × Driver σ :=
  match Pace.period? a.rate with
  | none => (.brokeOff, d)
  | some period =>
    match a.ticks.or interruption with
    | none => (if (Pace.later? (clock env.net d) period).isSome then .endless else .brokeOff, d)
    | some bound =>
      match controlLoop env period a.ticks interruption bound 0 (clock env.net d) d with
      | (none, d) => (.brokeOff, d)
      | (some ticks, d) =>
        let metrics := d.metrics
        let d := d.shutdown env.net env.join
        (if d.died then .brokeOff else .reported ⟨ticks, metrics⟩, d)

/-- A run. The interruption comes when so many ticks have begun, if it comes. -/
def run (env : Surroundings σ) (params : ParamTable) (a : RunArguments)
    (interruption : Option Nat) (w : σ) : RunEnd × Driver σ :=
  let d : Driver σ := { uplink := .idle w, params := params }
  match commandOf a with
  | .error e => (.refused e, d)
  | .ok (joints, torques) =>
    match d.launch env.net with
    | (d, .error e) => (.refused (.noConnection e), d)
    | (d, .ok _) =>
      if d.died then (.brokeOff, d)
      else stream env a interruption ((d.set .jointAngle joints).setTorque torques)

end ArmStream.Command
