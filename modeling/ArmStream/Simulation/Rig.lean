import ArmStream.Simulation.Trial

/-!
# Trying out a driver

A rig holds a driver in a simulated world. The loop of its link runs whenever it can, as in a
trial.

## Main definitions

- `Rig.settle`: letting the loop run.
- `Rig.launch`, `Rig.tick`, `Rig.shutdown`: what the owner of the driver does.
-/

namespace ArmStream.Simulation

structure Rig where
  driver : Driver World
  phase : LoopPhase := .unstarted
  /-- The loop stays in its wait. -/
  held : Bool := false
  deriving Inhabited

namespace Rig

def trial? (r : Rig) : Option Trial :=
  r.driver.link?.map fun s => { link := s, phase := r.phase, held := r.held }

def withTrial (r : Rig) (t : Trial) : Rig :=
  { r with driver := { r.driver with uplink := .linked t.link }, phase := t.phase }

/-- Lets the loop run until it waits with nothing to do, or has ended. -/
def settle (r : Rig) : Rig :=
  match r.trial? with
  | none => r
  | some t => r.withTrial t.settle

def happen (r : Rig) (i : Incident) : Outcome × Rig :=
  match r.driver.uplink with
  | .idle w =>
    let (o, w) := w.happen i
    (o, { r with driver := { r.driver with uplink := .idle w } })
  | .linked s =>
    let (o, w) := s.world.happen i
    (o, { r with driver := { r.driver with uplink := .linked { s with world := w } } })

def begun (r : Rig) (d : Driver World) : Rig :=
  { r with
    driver := d
    phase := if d.link?.isSome && r.phase == .unstarted then .ready else r.phase }

def launch (r : Rig) : Except DriverError Unit × Rig :=
  let (d, e) := r.driver.launch World.net
  (e, r.begun d)

def launchWith (r : Rig) (params : ParamTable) : Except DriverError Unit × Rig :=
  let (d, e) := r.driver.launchWith World.net params
  (e, r.begun d)

/-- So many ticks in a row; counts those that brought new data. -/
def tick (r : Rig) : (times : Nat) → (fresh : Nat) → Nat × Rig
  | 0, fresh => (fresh, r)
  | times + 1, fresh =>
    let (d, new) := r.driver.tick World.net
    tick { r with driver := d } times (if new then fresh + 1 else fresh)

def shutdown (r : Rig) : Rig :=
  let join (s : LinkState World) : LinkState World :=
    (Trial.settle { link := s, phase := r.phase, held := r.held }).link
  { r with driver := r.driver.shutdown World.net join, phase := .unstarted }

end Rig

end ArmStream.Simulation
