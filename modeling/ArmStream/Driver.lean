import ArmStream.Arm.State
import ArmStream.Driver.Error
import ArmStream.Driver.Metrics
import ArmStream.Link.Open
import ArmStream.Link.Submit
import ArmStream.Message.JointState

/-!
# The driver of the arm

A driver holds the parameters, the state of the arm and, while it runs, a link with a guard and
the thread of its loop. It is uninitialized, running or stopped, in this order and never back.
Values can be written at any time. A tick of the control loop packs the last commanded positions
and the last measured torques into a message and submits it; without a link it does nothing.

## Main definitions

- `Driver.launch`, `Driver.launchWith`: opening the link and starting its loop.
- `Driver.tick`: one tick.
- `Driver.shutdown`: ending the loop.
-/

namespace ArmStream

inductive Lifecycle where
  | uninitialized
  | running
  | stopped
  deriving DecidableEq, Repr, Inhabited

def Lifecycle.name : Lifecycle → String
  | .uninitialized => "Uninitialized"
  | .running => "Running"
  | .stopped => "Stopped"

/-- The way of a driver to the arm: the world alone, or a link in it. -/
inductive Uplink (σ : Type) where
  | idle (world : σ)
  | linked (link : LinkState σ)
  deriving Inhabited

namespace Uplink

variable {σ : Type}

def world : Uplink σ → σ
  | .idle w => w
  | .linked s => s.world

def link? : Uplink σ → Option (LinkState σ)
  | .idle _ => none
  | .linked s => some s

end Uplink

structure Driver (σ : Type) where
  uplink : Uplink σ
  params : ParamTable := .default
  config : LinkConfig := {}
  arm : ArmState := {}
  metrics : DriverMetrics := {}
  lifecycle : Lifecycle := .uninitialized
  /-- The driver keeps the loop of its link alive. -/
  hasGuard : Bool := false
  /-- The thread of the loop was started and not yet joined. -/
  hasThread : Bool := false
  /-- Where the vectors of a message are copied before they are packed. -/
  scratch : List Pattern := []
  /-- The thread of the caller ended inside a call. -/
  died : Bool := false
  deriving Inhabited

namespace Driver

variable {σ : Type}

def link? (d : Driver σ) : Option (LinkState σ) := d.uplink.link?

/-- Why a driver cannot be launched in a stage of its life. -/
def refusal? : Lifecycle → Option DriverError
  | .uninitialized => none
  | .running => some .alreadyRunning
  | .stopped => some .stopped

def connectionError (d : Driver σ) (cause : LinkError) : DriverError :=
  .connection d.params.localTransportAddress d.params.remoteTransportAddress cause

def without (d : Driver σ) (w : σ) : Driver σ := { d with uplink := .idle w }

/-- Starts the thread of a link's loop, with a guard taken before. -/
def start (net : Net σ) (d : Driver σ) (s : LinkState σ) : Driver σ × Except DriverError Unit :=
  let s := s.guard
  match net.startThread s.world with
  | (.ok _, w) =>
    ({ d with
      uplink := .linked { s with world := w }
      hasGuard := true
      hasThread := true
      lifecycle := .running }, .ok ())
  | (.fail e, w) =>
    let s := (({ s with world := w } : LinkState σ).vanish net).dropGuard net
    ({ d.without s.world with died := s.callerDied },
      .error (.ioThread ("Failed to spawn IO thread: " ++ e.message)))
  | (.fatal, w) => ({ d.without w with died := true }, .ok ())

/-- Opens the link of an uninitialized driver and starts its loop. -/
def connect (net : Net σ) (d : Driver σ) : Driver σ × Except DriverError Unit :=
  let p := d.params
  match Channel.openBetween net p.localTransportAddress p.remoteTransportAddress d.uplink.world with
  | (.died, w) => ({ d.without w with died := true }, .ok ())
  | (.refused e, w) => (d.without w, .error (d.connectionError e))
  | (.done channel, w) =>
    match LinkState.ofChannel net channel d.config w with
    | (.died, w) => ({ d.without w with died := true }, .ok ())
    | (.refused e, w) => (d.without w, .error (d.connectionError e))
    | (.done s, _) => d.start net s

/-- Opens the link and starts its loop. After an error the driver is as before. -/
def launch (net : Net σ) (d : Driver σ) : Driver σ × Except DriverError Unit :=
  match refusal? d.lifecycle with
  | some e => (d, .error e)
  | none => d.connect net

/-- The same with other parameters, which stay also after an error of the link. -/
def launchWith (net : Net σ) (d : Driver σ) (params : ParamTable) :
    Driver σ × Except DriverError Unit :=
  match refusal? d.lifecycle with
  | some e => (d, .error e)
  | none => launch net { d with params := params }

def set (d : Driver σ) (kind : CommandKind) (values : List Pattern) : Driver σ :=
  { d with arm := d.arm.command kind values }

def setTorque (d : Driver σ) (values : List Pattern) : Driver σ :=
  { d with arm := d.arm.measure values }

def setLimits (d : Driver σ) (lower upper : List Pattern) : Driver σ :=
  { d with arm := d.arm.limit lower upper }

/-- Reading angles back from the arm: there is no way to. -/
def readBack (_ : Driver σ) : Except DriverError (List Pattern) :=
  .error (.notImplemented "joint angle read-back from the robot")

def copyPosition (d : Driver σ) : Driver σ := { d with scratch := d.arm.commandedPosition }

def copyTorque (d : Driver σ) : Driver σ := { d with scratch := d.arm.torque }

/-- Packs the first part of a message: the positions in the scratch buffer, and no velocities. -/
def packPosition (scratch : List Pattern) (b : Builder) : Except MessageError Builder :=
  match b.push ⟨.position, scratch⟩ with
  | .error e => .error e
  | .ok b => b.push ⟨.velocity, []⟩

/-- Packs the rest of a message: the torques in the scratch buffer, in the place of
accelerations. -/
def packTorque (scratch : List Pattern) (b : Builder) : Except MessageError Builder :=
  match b.push ⟨.acceleration, scratch⟩ with
  | .error e => .error e
  | .ok b => b.finish .jointState

def packCommand (d : Driver σ) (b : Builder) : Driver σ × Except MessageError Builder :=
  let d := d.copyPosition
  match packPosition d.scratch b with
  | .error e => (d, .error e)
  | .ok b =>
    let d := d.copyTorque
    (d, packTorque d.scratch b)

/-- Takes a builder, packs the state of the arm into it and submits it. A builder that cannot be
packed is lost to the pool. -/
def sendCommand (net : Net σ) (d : Driver σ) (s : LinkState σ) :
    Driver σ × LinkState σ × Except DriverError Unit :=
  let (b, s) := s.acquire
  match d.packCommand b with
  | (d, .error e) => (d, s, .error (.badMessage e))
  | (d, .ok b) =>
    match s.submit net b with
    | (s, .error e) => (d, s, .error (.link e))
    | (s, .ok _) => (d, s, .ok ())

/-- One tick: an attempt to submit the state of the arm, counted as success or failure. The
answer, whether new data arrived, is always no. -/
def tick (net : Net σ) (d : Driver σ) : Driver σ × Bool :=
  match d.uplink with
  | .idle _ => (d, false)
  | .linked s =>
    match sendCommand net { d with metrics := d.metrics.attempt } s with
    | (d, s, r) =>
      let metrics := match r with
        | .ok _ => d.metrics.succeed
        | .error _ => d.metrics.fail
      ({ d with uplink := .linked s, metrics := metrics, died := d.died || s.callerDied }, false)

def signal (net : Net σ) (d : Driver σ) (s : LinkState σ) : LinkState σ :=
  (if d.hasGuard then s.dropGuard net else s).stop net

/-- Ends the loop and waits for it. `join` is what the loop does from then on. A second shutdown
does nothing. -/
def shutdown (net : Net σ) (join : LinkState σ → LinkState σ) (d : Driver σ) : Driver σ :=
  if d.lifecycle = .stopped then d
  else
    match d.uplink with
    | .idle _ => { d with lifecycle := .stopped, hasGuard := false, hasThread := false }
    | .linked s =>
      let s := d.signal net s
      let s := if d.hasThread && !s.callerDied then join s else s
      { d with
        uplink := .idle s.world
        lifecycle := .stopped
        hasGuard := false
        hasThread := false
        died := d.died || s.callerDied }

def localAddress? (d : Driver σ) : Option SocketAddress := d.link?.map (·.boundAddress)

end Driver

end ArmStream
