import ArmStream.Proofs.Conservation

/-!
# Submitting while the loop ends

A call of `submit` looks at the flag, tries the queue and counts, and between these steps the loop
goes on. When the loop leaves its rounds it sets the flag, takes messages from the queue until it
finds none, counts all that was not sent as dropped, and only then does the receiving end of the
queue go. A race is any order of the steps of any number of calls and of the loop.

## Main definitions

- `Race.Call`, `Race.Call.step`: a call of `submit` and its next step.
- `Race.Phase`, `Race.proceed`: where the loop is, and its next step.
- `Race`, `Race.step`, `Race.Reachable`: a link with its calls, one action, and the races from its
  opening on.

## Main statements

- `Race.Call.steps_eq_submit`: undisturbed, the steps of a call are `LinkState.submit`.
- `Race.proceeds_taking`: undisturbed, the loop takes what `LinkState.takeSubmissions` takes.
- `Race.proceeds_leaving`: undisturbed, the loop ends as in `LinkState.leave` and loses nothing.
-/

namespace ArmStream

namespace LinkState

variable {σ : Type}

def withQueue (s : LinkState σ) (queue : List Builder) : LinkState σ := { s with queue := queue }

def emptied (s : LinkState σ) : LinkState σ := { s with queue := [], outbox := [] }

theorem release_withQueue (s : LinkState σ) (b : Builder) (queue : List Builder) :
    (s.withQueue queue).release b = (s.release b).withQueue queue := by
  unfold release withQueue
  split <;> rfl

theorem release_emptied (s : LinkState σ) (b : Builder) :
    s.emptied.release b = (s.release b).emptied := by
  unfold release emptied
  split <;> rfl

/-- The queue behind the message that the loop takes does not matter to it. -/
theorem take_withQueue (s : LinkState σ) (b : Builder) (queue : List Builder) :
    (s.withQueue queue).take b = (s.take b).withQueue queue := by
  have hrelease := (s.countDropped 1).release_withQueue b queue
  by_cases hfull : s.config.pendingHighWaterMark ≤ s.outbox.length
  · have hfull' : (s.withQueue queue).config.pendingHighWaterMark ≤
        (s.withQueue queue).outbox.length := hfull
    rw [take, if_pos hfull', take, if_pos hfull]
    exact hrelease
  · have hroom : ¬ (s.withQueue queue).config.pendingHighWaterMark ≤
        (s.withQueue queue).outbox.length := hfull
    rw [take, if_neg hroom, take, if_neg hfull]
    rfl

end LinkState

inductive Race.Call where
  | begun (b : Builder)
  /-- It saw that the loop was not stopped. -/
  | admitted (b : Builder)
  /-- The queue took the message, which is not counted yet. -/
  | enqueued
  /-- The queue was full; the message is not counted yet. -/
  | overflowed (b : Builder)
  | returned (r : Except LinkError Unit)
  deriving Repr, Inhabited

inductive Race.Phase where
  /-- In a round, at one of its stages. -/
  | round (stage : Stage)
  /-- It empties the queue for the last time; so many messages are to be counted as dropped. -/
  | discarding (dropped : Nat)
  /-- All it found is counted; the receiving end of the queue is still there. -/
  | closing
  | gone
  /-- A call of the system ended the thread of the loop amidst its work. -/
  | broken
  deriving DecidableEq, Repr, Inhabited

structure Race (σ : Type) where
  link : LinkState σ
  phase : Race.Phase := .round .head
  calls : List Race.Call := []
  /-- How many messages that no counter knows were lost with the loop. -/
  lost : Nat := 0
  /-- How many calls had looked at the flag, but not tried the queue, when the loop looked into the
  queue for the last time. -/
  late : Nat := 0

inductive Race.Action where
  /-- A caller begins to submit a message. -/
  | submit (b : Builder)
  /-- A call does its next step. -/
  | call (i : Nat)
  | acquire
  | guard
  | dropGuard
  | stop
  /-- The loop does its next step. -/
  | proceed
  /-- The wait of the loop ends. -/
  | wake (r : Reply (List Event))
  deriving Repr, Inhabited

namespace Race

variable {σ : Type} {net : Net σ}

namespace Call

def isAdmitted : Call → Bool
  | .admitted _ => true
  | _ => false

def isEnqueued : Call → Bool
  | .enqueued => true
  | _ => false

def isReturned : Call → Bool
  | .returned _ => true
  | _ => false

def isAccepted : Call → Bool
  | .returned (.ok _) => true
  | _ => false

def isRefused : Call → Bool
  | .returned (.error (.queueFull _)) => true
  | _ => false

def step (net : Net σ) (s : LinkState σ) : Call → LinkState σ × Call
  | .begun b =>
    if !b.finished then (s.release b, .returned (.error (.badMessage .notFinished)))
    else if s.stopped then (s.release b, .returned (.error .loopStopped))
    else (s, .admitted b)
  | .admitted b =>
    match s.enqueue b with
    | (s, .queued) => (s, .enqueued)
    | (s, .full) => (s, .overflowed b)
    | (s, .gone) => (s.release b, .returned (.error .loopStopped))
  | .enqueued => (s.countSubmitted.wake net, .returned (.ok ()))
  | .overflowed b =>
    ((s.release b).countDropped 1, .returned (.error (.queueFull s.config.queueCapacity)))
  | .returned r => (s, .returned r)

def steps (net : Net σ) : (n : Nat) → LinkState σ × Call → LinkState σ × Call
  | 0, r => r
  | n + 1, r => steps net n (r.2.step net r.1)

/-- Undisturbed, a call does what `LinkState.submit` does. -/
theorem steps_eq_submit (net : Net σ) (s : LinkState σ) (b : Builder) :
    steps net 3 (s, .begun b) = ((s.submit net b).1, .returned (s.submit net b).2) := by
  unfold LinkState.submit
  cases hfinished : b.finished with
  | false => simp [steps, step, hfinished]
  | true =>
    cases hstopped : s.stopped with
    | true => simp [steps, step, hfinished, hstopped]
    | false =>
      rcases henqueue : s.enqueue b with ⟨s', answer⟩
      cases answer <;> simp [steps, step, hfinished, hstopped, henqueue]

end Call

def callStep (net : Net σ) (x : Race σ) (i : Nat) : Race σ :=
  match x.calls[i]? with
  | none => x
  | some c =>
    { x with link := (c.step net x.link).1, calls := x.calls.set i (c.step net x.link).2 }

def stageStep (net : Net σ) (x : Race σ) (stage : Stage) : Race σ :=
  let y := System.proceed net { link := x.link, stage := stage }
  { x with link := y.link, phase := if y.stage = .died then .broken else .round y.stage }

/-- The next step of the loop. It takes messages from the queue one by one. -/
def proceed (net : Net σ) (x : Race σ) : Race σ :=
  match x.phase with
  | .round .taking =>
    match x.link.queue with
    | [] => { x with phase := .round .handing }
    | b :: rest => { x with link := (x.link.withQueue rest).take b }
  | .round (.leaving _) =>
    { x with
      link := { x.link with stopped := true }
      phase := .discarding x.link.outbox.length }
  | .round stage => x.stageStep net stage
  | .discarding dropped =>
    match x.link.queue with
    | [] =>
      { x with
        link := (x.link.outbox.foldl LinkState.release x.link.emptied).countDropped
          (dropped + x.link.unsentFrames)
        phase := .closing
        late := x.calls.countP Call.isAdmitted }
    | b :: rest =>
      { x with
        link := (x.link.withQueue rest).release b
        phase := .discarding (dropped + 1) }
  | .closing => { x with link := x.link.vanish net, phase := .gone, lost := x.link.queue.length }
  | .gone => x
  | .broken => x

/-- The wait of the loop ends with an answer. If it ends the thread, all that the loop has is
lost. -/
def answer (net : Net σ) (x : Race σ) : Reply (List Event) → Race σ
  | .fatal =>
    { x with
      link := { x.link with loopDied := true }.vanish net
      phase := .gone
      lost := x.link.backlog }
  | r =>
    let y := System.answer net { link := x.link, stage := .waiting } r
    { x with link := y.link, phase := .round y.stage }

/-- One action. The wait ends only while the loop is waiting. -/
def step (net : Net σ) (x : Race σ) : Action → Race σ
  | .submit b => { x with calls := x.calls ++ [.begun b] }
  | .call i => x.callStep net i
  | .acquire => { x with link := x.link.acquire.2 }
  | .guard => { x with link := x.link.guard }
  | .dropGuard => { x with link := x.link.dropGuard net }
  | .stop => { x with link := x.link.stop net }
  | .proceed => x.proceed net
  | .wake r => if x.phase = .round .waiting then x.answer net r else x

def run (net : Net σ) (x : Race σ) (actions : List Action) : Race σ := actions.foldl (step net) x

/-! ## The loop undisturbed -/

def proceeds (net : Net σ) (x : Race σ) (n : Nat) : Race σ :=
  x.run net (List.replicate n .proceed)

theorem proceeds_succ (net : Net σ) (x : Race σ) (n : Nat) :
    x.proceeds net (n + 1) = (x.proceed net).proceeds net n := rfl

theorem proceeds_taking_withQueue (net : Net σ) (s : LinkState σ) (queue : List Builder)
    (calls : List Call) (lost late : Nat) :
    Race.proceeds net ⟨s.withQueue queue, .round .taking, calls, lost, late⟩ (queue.length + 1) =
      ⟨queue.foldl LinkState.take (s.withQueue []), .round .handing, calls, lost, late⟩ := by
  induction queue generalizing s with
  | nil => rfl
  | cons b rest ih =>
    have hstep : Race.proceed net ⟨s.withQueue (b :: rest), .round .taking, calls, lost, late⟩ =
        ⟨(s.take b).withQueue rest, .round .taking, calls, lost, late⟩ := by
      rw [← LinkState.take_withQueue]
      rfl
    rw [List.length_cons, proceeds_succ, hstep, ih, List.foldl_cons, LinkState.take_withQueue]

theorem proceeds_add (net : Net σ) (x : Race σ) (m n : Nat) :
    x.proceeds net (m + n) = (x.proceeds net m).proceeds net n := by
  simp only [proceeds, run, List.replicate_add, List.foldl_append]

/-- Undisturbed, the loop takes all messages from the queue. -/
theorem proceeds_taking (net : Net σ) (x : Race σ) (h : x.phase = .round .taking) :
    x.proceeds net (x.link.queue.length + 1) =
      { x with link := x.link.takeSubmissions, phase := .round .handing } := by
  obtain ⟨s, phase, calls, lost, late⟩ := x
  subst h
  exact proceeds_taking_withQueue net s s.queue calls lost late

theorem proceeds_discarding_withQueue (net : Net σ) (s : LinkState σ) (queue : List Builder)
    (calls : List Call) (lost late dropped : Nat) :
    Race.proceeds net ⟨s.withQueue queue, .discarding dropped, calls, lost, late⟩
        (queue.length + 1) =
      ⟨((queue ++ s.outbox).foldl LinkState.release s.emptied).countDropped
          (dropped + queue.length + s.unsentFrames),
        .closing, calls, lost, calls.countP Call.isAdmitted⟩ := by
  induction queue generalizing s dropped with
  | nil => rfl
  | cons b rest ih =>
    have hstep : Race.proceed net
        ⟨s.withQueue (b :: rest), .discarding dropped, calls, lost, late⟩ =
        ⟨(s.release b).withQueue rest, .discarding (dropped + 1), calls, lost, late⟩ := by
      rw [← LinkState.release_withQueue]
      rfl
    have hframes : (s.release b).unsentFrames = s.unsentFrames := by
      simp only [LinkState.unsentFrames_eq, LinkState.release_carrier]
    have hcount : dropped + 1 + rest.length + s.unsentFrames =
        dropped + (b :: rest).length + s.unsentFrames := by
      rw [List.length_cons]
      omega
    rw [List.length_cons, proceeds_succ, hstep, ih, hframes, LinkState.release_outbox,
      ← LinkState.release_emptied, hcount]
    rfl

/-- Undisturbed, the loop ends as it does in one step, and nothing is lost. -/
theorem proceeds_leaving (net : Net σ) (x : Race σ) {why : LinkState.Departure}
    (h : x.phase = .round (.leaving why)) :
    x.proceeds net (x.link.queue.length + 3) =
      { x with
        link := x.link.leave net
        phase := .gone
        lost := 0
        late := x.calls.countP Call.isAdmitted } := by
  obtain ⟨s, phase, calls, lost, late⟩ := x
  subst h
  have hsteps : s.queue.length + 3 = 1 + (s.queue.length + 1) + 1 := by omega
  have hstopped : Race.proceeds net ⟨s, .round (.leaving why), calls, lost, late⟩ 1 =
      ⟨LinkState.withQueue { s with stopped := true } s.queue, .discarding s.outbox.length, calls,
        lost, late⟩ := rfl
  have hempty : ((s.queue ++ s.outbox).foldl LinkState.release
      (LinkState.emptied { s with stopped := true })).queue = [] := by
    obtain ⟨pool, hpool⟩ := LinkState.exists_foldl_release
      (LinkState.emptied { s with stopped := true }) (s.queue ++ s.outbox)
    rw [hpool]
    rfl
  rw [hsteps, proceeds_add, proceeds_add, hstopped, proceeds_discarding_withQueue]
  -- all that is left is that the receiving end goes with an empty queue
  exact congrArg (fun n => (⟨s.leave net, .gone, calls, n, calls.countP Call.isAdmitted⟩ : Race σ))
    (congrArg List.length hempty)

/-- The races of a link, from its opening in the world `w₀` on. -/
inductive Reachable (net : Net σ) (w₀ : σ) : Race σ → Prop where
  | opened {near far : String} {config : LinkConfig} {y : System σ} :
      System.opened? net near far config w₀ = some y → Reachable net w₀ { link := y.link }
  | step {x : Race σ} (a : Action) : Reachable net w₀ x → Reachable net w₀ (x.step net a)

end Race

end ArmStream
