import Mathlib
import ArmStream.Driver
import ArmStream.Proofs.Pool
import ArmStream.Proofs.Writes

/-!
# Sessions of a driver

In a session the owner of a driver launches it, writes values, lets it tick and shuts it down, while
the loop of its link goes on. Each tick takes a builder from the pool and packs the last commanded
positions and the last measured torques into it. Nothing of what the builder or the scratch buffer
held before, and nothing of the other values, gets into the message.

## Main definitions

- `Builder.Carries`: a message reads as a joint state.
- `Session`, `Session.step`: a driver with the loop of its link, and one action.

## Main statements

- `Driver.withArm_tick`: a tick reads only what is sent.
- `Session.exists_tick`: a tick takes a builder and submits the state of the arm in it.
- `Session.ticks_carry_latest`: each tick of a session submits what was written last.
-/

namespace ArmStream

/-! ## Messages -/

/-- The message is finished and reads as this joint state, bit for bit. -/
def Builder.Carries (m : Builder) (s : JointState) : Prop :=
  ∃ bytes, m.bytes = .ok bytes ∧ JointState.decode bytes.toList = .ok s

namespace Driver

variable {σ : Type} {d : Driver σ}

def write (d : Driver σ) : ArmWrite → Driver σ
  | .command kind values => d.set kind values
  | .jointAngles values => d.set .jointAngle values
  | .jointTorques values => d.set .jointTorque values
  | .cartesianWrench values => d.set .cartesianWrench values
  | .measure values => d.setTorque values
  | .limit lower upper => d.setLimits lower upper

theorem write_eq (d : Driver σ) (w : ArmWrite) : d.write w = { d with arm := d.arm.apply w } := by
  cases w <;> rfl

/-- Packing pushes the fields of a joint state and finishes it. -/
theorem packCommand_of_encodeInto {b m : Builder} (h : d.arm.outgoing.encodeInto b = (m, none)) :
    d.packCommand b = ({ d with scratch := d.arm.torque }, .ok m) := by
  simp only [JointState.encodeInto, JointState.fields, ArmState.outgoing, Builder.pushAll] at h
  simp only [packCommand, packPosition, packTorque, copyPosition, copyTorque, Builder.push]
  grind

/-! ## Ticks -/

theorem uplink_of_link? {s : LinkState σ} (h : d.link? = some s) : d.uplink = .linked s := by
  cases huplink : d.uplink with
  | idle w => simp [link?, Uplink.link?, huplink] at h
  | linked s' => simpa [link?, Uplink.link?, huplink] using h

/-- What a tick submits, and the answer; nothing without a link. -/
def submission? (net : Net σ) (d : Driver σ) : Option (Builder × Except LinkError Unit) :=
  match d.link? with
  | none => none
  | some s =>
    match (d.packCommand s.acquire.1).2 with
    | .error _ => none
    | .ok m => some (m, (s.acquire.2.submit net m).2)

def withArm (d : Driver σ) (a : ArmState) : Driver σ := { d with arm := a }

theorem withArm_connect (net : Net σ) (d : Driver σ) (a : ArmState) :
    (d.withArm a).connect net = ((d.connect net).1.withArm a, (d.connect net).2) := by
  unfold connect
  dsimp only [withArm]
  split
  next => rfl
  next => rfl
  next =>
    split
    next => rfl
    next => rfl
    next =>
      unfold start
      dsimp only
      split <;> rfl

theorem withArm_launch (net : Net σ) (d : Driver σ) (a : ArmState) :
    (d.withArm a).launch net = ((d.launch net).1.withArm a, (d.launch net).2) := by
  unfold launch
  rw [withArm_connect]
  dsimp only [withArm]
  split <;> rfl

theorem withArm_launchWith (net : Net σ) (d : Driver σ) (a : ArmState) (params : ParamTable) :
    (d.withArm a).launchWith net params =
      ((d.launchWith net params).1.withArm a, (d.launchWith net params).2) := by
  have hlaunch := withArm_launch net { d with params := params } a
  unfold launchWith
  dsimp only [withArm] at hlaunch ⊢
  rw [hlaunch]
  split <;> rfl

theorem withArm_shutdown (net : Net σ) (join : LinkState σ → LinkState σ) (d : Driver σ)
    (a : ArmState) : (d.withArm a).shutdown net join = (d.shutdown net join).withArm a := by
  obtain ⟨uplink, _, _, _, _, lifecycle, _, _, _, _⟩ := d
  cases lifecycle <;> cases uplink <;> rfl

theorem withArm_packCommand {d : Driver σ} {a : ArmState} (h : a.outgoing = d.arm.outgoing)
    (b : Builder) :
    (d.withArm a).packCommand b = ((d.packCommand b).1.withArm a, (d.packCommand b).2) := by
  obtain ⟨hposition, htorque⟩ := by simpa [ArmState.outgoing] using h
  unfold packCommand
  dsimp only [withArm, copyPosition, copyTorque]
  rw [hposition, htorque]
  split <;> rfl

theorem withArm_sendCommand (net : Net σ) {d : Driver σ} {a : ArmState}
    (h : a.outgoing = d.arm.outgoing) (s : LinkState σ) :
    sendCommand net (d.withArm a) s =
      ((sendCommand net d s).1.withArm a, (sendCommand net d s).2) := by
  unfold sendCommand
  dsimp only
  rw [withArm_packCommand h]
  rcases d.packCommand s.acquire.1 with ⟨d', e | m⟩
  · rfl
  · dsimp only
    split <;> rfl

/-- A tick leaves the state of the arm as it is, and reads only what is sent. -/
theorem withArm_tick (net : Net σ) {d : Driver σ} {a : ArmState} (h : a.outgoing = d.arm.outgoing) :
    (d.withArm a).tick net = ((d.tick net).1.withArm a, (d.tick net).2) := by
  unfold tick
  dsimp only [withArm]
  split
  next => rfl
  next s _ =>
    have hsent := withArm_sendCommand net
      (d := { d with metrics := d.metrics.attempt }) h s
    dsimp only [withArm] at hsent
    rw [hsent]

theorem withArm_submission? (net : Net σ) {d : Driver σ} {a : ArmState}
    (h : a.outgoing = d.arm.outgoing) :
    (d.withArm a).submission? net = d.submission? net := by
  unfold submission?
  simp only [withArm_packCommand h]
  rfl

/-- A builder that can be packed is submitted. -/
theorem sendCommand_of_encodeInto (net : Net σ) {s : LinkState σ} {m : Builder}
    (hencode : d.arm.outgoing.encodeInto s.acquire.1 = (m, none)) :
    sendCommand net d s = ({ d with scratch := d.arm.torque }, (s.acquire.2.submit net m).1,
      (s.acquire.2.submit net m).2.mapError DriverError.link) := by
  have hpack := packCommand_of_encodeInto hencode
  simp only [sendCommand, hpack]
  rcases s.acquire.2.submit net m with ⟨s', e | _⟩ <;> rfl

/-- A tick whose builder can be packed submits it. -/
theorem tick_of_encodeInto (net : Net σ) {s : LinkState σ} {m : Builder} (hlink : d.link? = some s)
    (hencode : d.arm.outgoing.encodeInto s.acquire.1 = (m, none)) :
    d.submission? net = some (m, (s.acquire.2.submit net m).2) ∧
      (d.tick net).1.link? = some (s.acquire.2.submit net m).1 := by
  have hpack := packCommand_of_encodeInto hencode
  have hsent := sendCommand_of_encodeInto net
    (d := { d with metrics := d.metrics.attempt }) hencode
  have huplink := uplink_of_link? hlink
  constructor
  · simp only [submission?, hlink, hpack]
  · unfold tick
    simp only [huplink] at hsent ⊢
    rw [hsent]
    rfl

/-! ## The pool -/

def Tidy (d : Driver σ) : Prop := ∀ s, d.link? = some s → s.Tidy

theorem tidy_of_link?_eq_none (h : d.link? = none) : d.Tidy := by
  intro s hs
  rw [h] at hs
  cases hs

theorem tidy_connect (net : Net σ) (d : Driver σ) : (d.connect net).1.Tidy := by
  unfold connect
  dsimp only
  split
  next => exact tidy_of_link?_eq_none rfl
  next => exact tidy_of_link?_eq_none rfl
  next =>
    split
    next => exact tidy_of_link?_eq_none rfl
    next => exact tidy_of_link?_eq_none rfl
    next s _ hlink =>
      have hpool : s.pool = [] := by
        unfold LinkState.ofChannel at hlink
        split at hlink
        next => cases hlink
        next => cases hlink
        next =>
          cases hlink
          rfl
      unfold start
      dsimp only
      split
      next =>
        intro s' hs'
        obtain rfl := Option.some.inj hs'
        exact .of_pool_eq_nil hpool
      next => exact tidy_of_link?_eq_none rfl
      next => exact tidy_of_link?_eq_none rfl

theorem Tidy.write (h : d.Tidy) (w : ArmWrite) : (d.write w).Tidy := by
  rw [write_eq]
  exact h

theorem Tidy.tick (h : d.Tidy) (net : Net σ) : (d.tick net).1.Tidy := by
  unfold Driver.tick
  split
  next => exact h
  next s huplink =>
    have hs := h s (by simp [link?, Uplink.link?, huplink])
    intro s' hs'
    obtain rfl : (sendCommand net { d with metrics := d.metrics.attempt } s).2.1 = s' :=
      Option.some.inj hs'
    unfold sendCommand
    dsimp only
    split
    next => exact hs.acquire
    next b _ =>
      have hsubmitted := hs.acquire.submit net b
      split
      next hsubmit => simpa [hsubmit] using hsubmitted
      next hsubmit => simpa [hsubmit] using hsubmitted

theorem Tidy.launch (h : d.Tidy) (net : Net σ) : (d.launch net).1.Tidy := by
  unfold Driver.launch
  split
  next => exact h
  next => exact tidy_connect net d

theorem Tidy.launchWith (h : d.Tidy) (net : Net σ) (params : ParamTable) :
    (d.launchWith net params).1.Tidy := by
  have hd : { d with params := params }.Tidy := h
  unfold Driver.launchWith
  split
  next => exact h
  next => exact hd.launch net

theorem Tidy.shutdown (h : d.Tidy) (net : Net σ) (join : LinkState σ → LinkState σ) :
    (d.shutdown net join).Tidy := by
  unfold Driver.shutdown
  split
  next => exact h
  next =>
    split
    next huplink => exact tidy_of_link?_eq_none (by simp [link?, Uplink.link?, huplink])
    next => exact tidy_of_link?_eq_none rfl

end Driver

/-! ## Sessions -/

/-- A driver, where the loop of its link stands, and what happened to its messages. -/
structure Session (σ : Type) where
  driver : Driver σ
  stage : Stage := .head
  history : History := {}

inductive SessionAction (σ : Type) where
  | write (w : ArmWrite)
  | tick
  | launch
  | launchWith (params : ParamTable)
  /-- The driver is shut down. `join` is what its loop does from then on. -/
  | shutdown (join : LinkState σ → LinkState σ)
  /-- The loop performs its next stage. -/
  | proceed
  /-- The wait of the loop ends. -/
  | wake (r : Reply (List Event))

namespace SessionAction

variable {σ : Type}

def write? : SessionAction σ → Option ArmWrite
  | .write w => some w
  | _ => none

/-- The action is no write, or it writes something that is sent. -/
def isSent (a : SessionAction σ) : Bool := a.write?.all ArmWrite.isSent

end SessionAction

namespace Session

variable {σ : Type} {x : Session σ}

def system? (x : Session σ) : Option (System σ) :=
  x.driver.link?.map fun s => { link := s, stage := x.stage, history := x.history }

/-- One tick. What it submits is recorded. -/
def tick (net : Net σ) (x : Session σ) : Session σ :=
  { x with
    driver := (x.driver.tick net).1
    history := match x.driver.submission? net with
      | none => x.history
      | some (m, r) => x.history.submit m r }

def loop (net : Net σ) (x : Session σ) (a : Action) : Session σ :=
  match x.system? with
  | none => x
  | some y =>
    { driver := { x.driver with uplink := .linked (y.step net a).link }
      stage := (y.step net a).stage
      history := (y.step net a).history }

def step (net : Net σ) (x : Session σ) : SessionAction σ → Session σ
  | .write w => { x with driver := x.driver.write w }
  | .tick => x.tick net
  | .launch => { x with driver := (x.driver.launch net).1 }
  | .launchWith params => { x with driver := (x.driver.launchWith net params).1 }
  | .shutdown join => { x with driver := x.driver.shutdown net join }
  | .proceed => x.loop net .proceed
  | .wake r => x.loop net (.wake r)

def run (net : Net σ) (x : Session σ) (actions : List (SessionAction σ)) : Session σ :=
  actions.foldl (step net) x

/-- A driver with given parameters that was not launched. -/
def fresh (w : σ) (params : ParamTable) (scratch : List Pattern) : Session σ where
  driver := { uplink := .idle w, params := params, scratch := scratch }

theorem arm_fresh (w : σ) (params : ParamTable) (scratch : List Pattern) :
    (fresh w params scratch).driver.arm = {} := rfl

theorem tidy_fresh (w : σ) (params : ParamTable) (scratch : List Pattern) :
    (fresh w params scratch).driver.Tidy := Driver.tidy_of_link?_eq_none rfl

def writes (actions : List (SessionAction σ)) : List ArmWrite :=
  actions.filterMap SessionAction.write?

/-! ## The state of the arm -/

def withArm (x : Session σ) (a : ArmState) : Session σ :=
  { x with driver := x.driver.withArm a }

theorem withArm_loop (net : Net σ) (x : Session σ) (a : ArmState) (action : Action) :
    (x.withArm a).loop net action = (x.loop net action).withArm a := by
  have hsystem : (x.withArm a).system? = x.system? := rfl
  unfold loop
  rw [hsystem]
  split <;> rfl

theorem withArm_tick (net : Net σ) {a : ArmState} (h : a.outgoing = x.driver.arm.outgoing) :
    (x.withArm a).tick net = (x.tick net).withArm a := by
  have hticked := Driver.withArm_tick net h
  have hsubmission := Driver.withArm_submission? net h
  simp only [tick, withArm, hticked, hsubmission]

/-- What is no write leaves the state of the arm as it is, and reads only what is sent. -/
theorem withArm_step (net : Net σ) {a : ArmState} (h : a.outgoing = x.driver.arm.outgoing)
    {action : SessionAction σ} (hnone : action.write? = none) :
    (x.withArm a).step net action = (x.step net action).withArm a := by
  cases action with
  | write w => cases hnone
  | tick => exact withArm_tick net h
  | launch => simp only [step, withArm, Driver.withArm_launch]
  | launchWith params => simp only [step, withArm, Driver.withArm_launchWith]
  | shutdown join => simp only [step, withArm, Driver.withArm_shutdown]
  | proceed => exact withArm_loop net x a .proceed
  | wake r => exact withArm_loop net x a (.wake r)

theorem arm_step (net : Net σ) (x : Session σ) (action : SessionAction σ) :
    (x.step net action).driver.arm =
      action.write?.elim x.driver.arm x.driver.arm.apply := by
  cases hwrite : action.write? with
  | none =>
    have hsame := withArm_step net (x := x) (a := x.driver.arm) rfl hwrite
    exact congrArg (fun x => x.driver.arm) hsame
  | some w =>
    cases action with
    | write w' =>
      obtain rfl := Option.some.inj hwrite
      simp only [step, Driver.write_eq]
      rfl
    | _ => cases hwrite

/-- The state of the arm after a run is that of its writes. -/
theorem arm_run (net : Net σ) (x : Session σ) (actions : List (SessionAction σ)) :
    (x.run net actions).driver.arm = (writes actions).foldl ArmState.apply x.driver.arm := by
  induction actions generalizing x with
  | nil => rfl
  | cons action rest ih =>
    have hrest : (x.run net (action :: rest)) = (x.step net action).run net rest := rfl
    rw [hrest, ih, arm_step]
    cases hwrite : action.write? <;> simp [writes, hwrite]

/-- The session without what is not sent. -/
def core (x : Session σ) : Session σ := x.withArm x.driver.arm.core

theorem core_step (net : Net σ) (x : Session σ) (action : SessionAction σ) :
    (x.step net action).core = if action.isSent then x.core.step net action else x.core := by
  cases hwrite : action.write? with
  | none =>
    have harm := arm_step net x action
    have hcore := withArm_step net (x := x) (a := x.driver.arm.core) rfl hwrite
    rw [hwrite] at harm
    simp only [SessionAction.isSent, hwrite, Option.all_none, if_true]
    rw [core, harm, core, hcore]
    rfl
  | some w =>
    cases action with
    | write w' =>
      simp only [SessionAction.isSent, hwrite, Option.all_some, step, core, withArm, Driver.withArm,
        Driver.write_eq]
      obtain rfl := Option.some.inj hwrite
      rw [ArmState.core_apply]
      split <;> rfl
    | _ => cases hwrite

/-- Writes of what is not sent change nothing else. -/
theorem core_run (net : Net σ) (x : Session σ) (actions : List (SessionAction σ)) :
    (x.run net actions).core = x.core.run net (actions.filter SessionAction.isSent) := by
  induction actions generalizing x with
  | nil => rfl
  | cons action rest ih =>
    have hrest : (x.run net (action :: rest)) = (x.step net action).run net rest := rfl
    rw [hrest, ih, core_step]
    cases hsent : action.isSent with
    | true => simp [hsent, run]
    | false => simp [hsent]

theorem core_run_filter (net : Net σ) (x : Session σ) (actions : List (SessionAction σ)) :
    (x.run net (actions.filter SessionAction.isSent)).core = (x.run net actions).core := by
  rw [core_run, core_run, List.filter_filter]
  simp only [Bool.and_self]

/-! ## Ticks -/

theorem tidy_loop (h : x.driver.Tidy) (net : Net σ) (action : Action) :
    (x.loop net action).driver.Tidy := by
  unfold loop
  split
  next => exact h
  next y hy =>
    obtain ⟨s, hs, rfl⟩ := Option.map_eq_some_iff.1 hy
    intro s' hs'
    obtain rfl := Option.some.inj hs'
    exact System.tidy_step net (h s hs) action

theorem tidy_step (h : x.driver.Tidy) (net : Net σ) (action : SessionAction σ) :
    (x.step net action).driver.Tidy := by
  cases action with
  | write w => exact h.write w
  | tick => exact h.tick net
  | launch => exact h.launch net
  | launchWith params => exact h.launchWith net params
  | shutdown join => exact h.shutdown net join
  | proceed => exact tidy_loop h net .proceed
  | wake r => exact tidy_loop h net (.wake r)

theorem tidy_run (h : x.driver.Tidy) (net : Net σ) (actions : List (SessionAction σ)) :
    (x.run net actions).driver.Tidy := by
  induction actions generalizing x with
  | nil => exact h
  | cons action rest ih => exact ih (tidy_step h net action)

/-- A tick takes a builder from the pool and submits the state of the arm in it. -/
theorem exists_tick (net : Net σ) (htidy : x.driver.Tidy) (hfits : x.driver.arm.outgoing.Fits)
    {y : System σ} (hy : x.system? = some y) :
    ∃ m, m.Carries x.driver.arm.outgoing ∧
      (x.tick net).system? = some ((y.step net .acquire).step net (.submit m)) := by
  obtain ⟨s, hs, rfl⟩ := Option.map_eq_some_iff.1 hy
  obtain ⟨m, hencode, hbuilt, hfinished⟩ := JointState.exists_encodeInto hfits
  rw [← (htidy s hs).acquire_eq_empty] at hencode
  obtain ⟨hsubmission, hlink⟩ := Driver.tick_of_encodeInto net hs hencode
  refine ⟨m, ⟨m.buffer, Builder.bytes_of_finished hfinished,
    JointState.decode_of_built hbuilt hfinished⟩, ?_⟩
  simp only [system?, tick, hsubmission, hlink]
  rfl

/-- After any actions each quantity has the value that was last written to it. A tick leaves the
state as it is, and what it submits reads as the last commanded positions, no velocities, and the
last measured torques, whatever the builder and the scratch buffer held before. Without the writes
of the other quantities the messages, and all else that happens to the link, would be the same. -/
theorem ticks_carry_latest (net : Net σ) (harm : x.driver.arm = {}) (htidy : x.driver.Tidy)
    (actions : List (SessionAction σ)) (hshort : ∀ w ∈ writes actions, w.Short) :
    (x.run net actions).driver.arm = .latest (writes actions) ∧
    ((x.run net actions).tick net).driver.arm = (x.run net actions).driver.arm ∧
    (∀ y, (x.run net actions).system? = some y →
      ∃ m, m.Carries ⟨ArmWrite.last ArmWrite.angles? (writes actions), [],
          ArmWrite.last ArmWrite.measured? (writes actions)⟩ ∧
        ((x.run net actions).tick net).system? =
          some ((y.step net .acquire).step net (.submit m))) ∧
    (x.run net (actions.filter SessionAction.isSent)).system? = (x.run net actions).system? ∧
    (x.run net (actions.filter SessionAction.isSent)).history = (x.run net actions).history := by
  have hlatest : (x.run net actions).driver.arm = .latest (writes actions) := by
    rw [arm_run, harm, ArmState.foldl_apply]
  have hcore := core_run_filter net x actions
  refine ⟨hlatest, arm_step net _ .tick, fun y hy => ?_, congrArg (fun x => x.system?) hcore,
    congrArg (fun x => x.history) hcore⟩
  have hfits := ArmState.fits_outgoing_latest hshort
  rw [← hlatest] at hfits
  obtain ⟨m, hm, htick⟩ := exists_tick net (tidy_run htidy net actions) hfits hy
  rw [hlatest] at hm
  exact ⟨m, hm, htick⟩

set_option maxRecDepth 2000 in
/-- The builder of the second tick held the message of the first, which was longer, and the scratch
buffer was not empty. -/
theorem ticks_carry_latest_of_reuse :
    ∃ (x : Session (List (Reply Nat))) (actions : List (SessionAction (List (Reply Nat))))
        (y : System (List (Reply Nat))) (m : Builder),
      x.driver.arm = {} ∧ x.driver.Tidy ∧ (∀ w ∈ writes actions, w.Short) ∧
      x.driver.scratch = [1, 2, 3] ∧ (x.run Net.scripted actions).system? = some y ∧
      y.history.accepted.map Builder.size = [72] ∧ y.link.pool = [Builder.empty] ∧
      m.Carries ⟨[6], [], [4, 5]⟩ ∧
      ((x.run Net.scripted actions).tick Net.scripted).system? =
        some ((y.step Net.scripted .acquire).step Net.scripted (.submit m)) := by
  obtain ⟨actions, hactions⟩ : ∃ actions : List (SessionAction (List (Reply Nat))), actions =
      [.launch, .write (.jointAngles [1, 2, 3]), .write (.measure [4, 5]), .tick, .proceed,
        .proceed, .proceed, .write (.command .jointAngle [6]), .write (.jointTorques [7])] :=
    ⟨_, rfl⟩
  obtain ⟨params, hparams⟩ : ∃ params : ParamTable, params =
      { localTransportAddress := "udp://127.0.0.1:0"
        remoteTransportAddress := "udp://10.9.8.7:30010" } := ⟨_, rfl⟩
  have hrun : (((fresh [] params [1, 2, 3]).run Net.scripted actions).system?.any fun y =>
      y.history.accepted.map Builder.size == [72] && y.link.pool == [Builder.empty]) = true := by
    rw [hactions, hparams]
    cbv
  obtain ⟨y, hy, hreused⟩ := (Option.any_eq_true _ _).1 hrun
  obtain ⟨hsize, hpool⟩ := by simpa only [Bool.and_eq_true, beq_iff_eq] using hreused
  have hwrites : writes actions = [.jointAngles [1, 2, 3], .measure [4, 5],
      .command .jointAngle [6], .jointTorques [7]] := by
    rw [hactions]
    rfl
  have hshort : ∀ w ∈ writes actions, w.Short := by
    simp [hwrites, ArmWrite.Short, ArmWrite.angles?, ArmWrite.measured?, valueLimit]
  have harm := arm_fresh ([] : List (Reply Nat)) params [1, 2, 3]
  have htidy := tidy_fresh ([] : List (Reply Nat)) params [1, 2, 3]
  have hticks := ticks_carry_latest Net.scripted harm htidy actions hshort
  obtain ⟨m, hm, htick⟩ := hticks.2.2.1 y hy
  rw [hwrites] at hm
  exact ⟨_, _, y, m, harm, htidy, hshort, rfl, hy, hsize, hpool, hm, htick⟩

end Session

end ArmStream
