import ArmStream.Link.Open
import ArmStream.Link.Submit

/-!
# Runs of a link

A run is any sequence of actions: callers submit messages, take and give back guards and stop the
loop, and the loop performs its stages one after the other. Callers may act between any two
stages. The network decides how each call ends, so a statement about all runs on all networks
covers every order of successes and failures.

A system also remembers what happened. Messages are numbered in the order in which the queue took
them, and the numbers follow the messages through the queue and the outbox, both of which are
served oldest first.

## Main definitions

- `Stage`, `System`: where the loop stands, and the link with its history.
- `System.proceed`, `System.step`: the next stage of the loop, and one action.
- `Reachable`: the systems that the runs of a link lead to.

## Main statements

- `System.proceeds_advance`, `System.proceeds_resume`: undisturbed, the stages add up to a round.
-/

namespace ArmStream

/-- Where a message went when it left the outbox. -/
inductive Recipient where
  | peer (token : Token) (conn : Conn)
  | datagram
  /-- The message was given up. -/
  | nobody
  deriving DecidableEq, Repr, Inhabited

def Recipient.conn? : Recipient → Option Conn
  | .peer _ conn => some conn
  | _ => none

structure Offer where
  conn : Conn
  /-- How many bytes the stream took. -/
  bytes : Nat
  /-- How many frames have their last byte among them. -/
  frames : Nat
  /-- A write failed after these bytes. -/
  failed : Bool
  deriving DecidableEq, Repr, Inhabited

def Offer.made {σ : Type} (p : Peer) (r : Peer.Written σ) : Offer where
  conn := p.conn
  bytes := r.bytes
  frames := p.frameEnds.countP (· ≤ p.offset + r.bytes)
  failed := r.outcome != .settled

namespace LinkState

variable {σ : Type}

/-! ## What a stage does besides its outcome -/

/-- Who gets the oldest message when it is handed over. -/
def recipient (s : LinkState σ) (t : Streams) : Recipient :=
  match s.outbox with
  | [] => .nobody
  | b :: _ =>
    match t.turn? b.size s.config.maxPeerBufferBytes, b.bytes with
    | some (token, p), .ok bytes => if (p.push? bytes).isSome then .peer token p.conn else .nobody
    | _, _ => .nobody

/-- Who gets the messages that `handOverAll` hands over, oldest message first. -/
def recipients : (fuel : Nat) → LinkState σ → Streams → List Recipient
  | 0, _, _ => []
  | fuel + 1, s, t =>
    match s.handOver? t with
    | none => []
    | some (s', t') => s.recipient t :: recipients fuel s' t'

def offersTo (net : Net σ) : LinkState σ → List (Token × Peer) → List Offer
  | _, [] => []
  | s, (_, p) :: rest =>
    if s.loopDied then []
    else
      let r := p.flush net s.world
      Offer.made p r :: offersTo net (s.noteWritten r).1 rest

def sendings (net : Net σ) : (fuel : Nat) → LinkState σ → List Recipient
  | 0, _ => []
  | fuel + 1, s =>
    match s.outbox with
    | [] => []
    | b :: rest =>
      match s.sendOldest net b rest with
      | (s, .sent) => .datagram :: sendings net fuel s
      | (s, .givenUp) => .nobody :: sendings net fuel s
      | (s, .again) => sendings net fuel s
      | (_, _) => []

/-- Where the messages go that leave the outbox in `handOn`. -/
def departures (net : Net σ) (s : LinkState σ) : List Recipient :=
  match s.carrier with
  | .streams t => recipients s.outbox.length s t
  | .datagrams => sendings net (s.outbox.length + net.patience s.world) s

def offers (net : Net σ) (s : LinkState σ) : List Offer :=
  match s.carrier with
  | .streams t =>
    let (s, t) := handOverAll s.outbox.length s t
    offersTo net s t.peers
  | .datagrams => []

def answers (net : Net σ) (s : LinkState σ) (e : Event) : List Offer :=
  match s.carrier with
  | .datagrams => []
  | .streams t =>
    if s.loopDied || e.token = Token.waker || e.token = Token.listener then []
    else
      let (s, t) := s.settleOutbound net t e
      match t.peer? e.token with
      | none => []
      | some p =>
        let (s', alive) := s.hear net e p
        if !s.loopDied && !s'.loopDied && alive && e.writable then
          [Offer.made p (p.flush net s'.world)]
        else []

/-! ## A dead loop does nothing -/

theorem foldl_react_of_died (net : Net σ) {s : LinkState σ} (events : List Event)
    (h : s.loopDied = true) : events.foldl (react net) s = s := by
  induction events with
  | nil => rfl
  | cons e rest ih => simpa [react, h] using ih

theorem reopen_of_died (net : Net σ) {s : LinkState σ} (h : s.loopDied = true) :
    s.reopen net = s := by
  unfold reopen
  split
  next => rfl
  next => split <;> simp [h]

end LinkState

/-! ## Systems -/

/-- Where the loop stands between two of its stages. -/
inductive Stage where
  /-- It is about to begin a round, or was not started yet. -/
  | head
  | taking
  | handing
  | resting
  | waiting
  /-- The wait is over; it has still to react to some events. -/
  | reacting (events : List Event)
  | reopening
  | leaving (why : LinkState.Departure)
  | ended
  /-- A call of the system ended the thread of the loop. -/
  | died
  deriving DecidableEq, Repr, Inhabited

/-- The loop is there and has not given up its messages. -/
def Stage.isLive : Stage → Bool
  | .ended => false
  | .died => false
  | _ => true

theorem Stage.ne_died {stage : Stage} (h : stage.isLive = true) : stage ≠ .died := by
  rintro rfl
  simp [isLive] at h

theorem Stage.live_or_ended {stage : Stage} (h : stage ≠ .died) :
    stage.isLive = true ∨ stage = .ended := by
  cases stage <;> simp [isLive] at h ⊢

structure HandOver where
  message : Nat
  recipient : Recipient
  deriving DecidableEq, Repr, Inhabited

/-- What happened to the messages of a link so far. -/
structure History where
  /-- The messages that the queue took; a message's place is its number. -/
  accepted : List Builder := []
  /-- How many messages a full queue refused. -/
  refused : Nat := 0
  /-- The numbers of the messages in the queue. -/
  queued : List Nat := []
  /-- The numbers of the messages in the outbox. -/
  pending : List Nat := []
  /-- The numbers of the messages that the loop gave up before they left the outbox. -/
  discarded : List Nat := []
  /-- The messages that left the outbox, in this order. -/
  handOvers : List HandOver := []
  /-- The offers to peers, in this order. -/
  offers : List Offer := []
  deriving DecidableEq, Repr, Inhabited

namespace History

def submit (h : History) (b : Builder) : Except LinkError Unit → History
  | .ok _ =>
    { h with accepted := h.accepted ++ [b], queued := h.queued ++ [h.accepted.length] }
  | .error (.queueFull _) => { h with refused := h.refused + 1 }
  | .error _ => h

def take (h : History) (kept : Nat) : History :=
  { h with
    queued := []
    pending := h.pending ++ h.queued.take kept
    discarded := h.discarded ++ h.queued.drop kept }

def depart (h : History) (recipients : List Recipient) : History :=
  { h with
    handOvers := h.handOvers ++ List.zipWith HandOver.mk h.pending recipients
    pending := h.pending.drop recipients.length }

def offer (h : History) (offers : List Offer) : History :=
  { h with offers := h.offers ++ offers }

def giveUp (h : History) : History :=
  { h with queued := [], pending := [], discarded := h.discarded ++ h.pending ++ h.queued }

end History

/-- A link, where its loop stands, and what happened so far. -/
structure System (σ : Type) where
  link : LinkState σ
  stage : Stage := .head
  history : History := {}

inductive Action where
  | submit (b : Builder)
  | acquire
  | guard
  | dropGuard
  | stop
  /-- The loop performs its next stage. -/
  | proceed
  /-- The wait of the loop ends. -/
  | wake (r : Reply (List Event))
  deriving Repr, Inhabited

namespace System

variable {σ : Type}

/-- The loop performed a stage and goes on with another, unless it died. -/
def enter (net : Net σ) (y : System σ) (s : LinkState σ) (next : Stage) : System σ :=
  if s.loopDied then { y with link := s.vanish net, stage := .died }
  else { y with link := s, stage := next }

def proceed (net : Net σ) (y : System σ) : System σ :=
  match y.stage with
  | .head => { y with stage := if y.link.stopped then .leaving .stopRequested else .taking }
  | .taking =>
    let s := y.link.takeSubmissions
    { link := s
      stage := .handing
      history := y.history.take (s.outbox.length - y.link.outbox.length) }
  | .handing =>
    { y with history := (y.history.depart (y.link.departures net)).offer (y.link.offers net) }.enter
      net (y.link.handOn net) .resting
  | .resting => { y with stage := if y.link.isIdle then .leaving .idle else .waiting }
  | .waiting => y
  | .reacting [] => { y with stage := .reopening }
  | .reacting (e :: rest) =>
    { y with history := y.history.offer (y.link.answers net e) }.enter
      net (y.link.react net e) (.reacting rest)
  | .reopening => y.enter net (y.link.reopen net) .head
  | .leaving _ => { link := y.link.leave net, stage := .ended, history := y.history.giveUp }
  | .ended => y
  | .died => y

/-- The wait of the loop ends with an answer. An interrupted wait leads to the next round. -/
def answer (net : Net σ) (y : System σ) : Reply (List Event) → System σ
  | .fatal => y.enter net { y.link with loopDied := true } .head
  | .fail .interrupted => { y with stage := .head }
  | .fail e => { y with stage := .leaving (.pollFailed e) }
  | .ok events => { y with stage := .reacting events }

/-- One action. The wait ends only while the loop is waiting. -/
def step (net : Net σ) (y : System σ) : Action → System σ
  | .submit b =>
    let (s, r) := y.link.submit net b
    { y with link := s, history := y.history.submit b r }
  | .acquire => { y with link := y.link.acquire.2 }
  | .guard => { y with link := y.link.guard }
  | .dropGuard => { y with link := y.link.dropGuard net }
  | .stop => { y with link := y.link.stop net }
  | .proceed => y.proceed net
  | .wake r => if y.stage = .waiting then y.answer net r else y

def run (net : Net σ) (y : System σ) (actions : List Action) : System σ :=
  actions.foldl (step net) y

end System

/-- The system right after the opening of a link, if the link can be opened. -/
def System.opened? {σ : Type} (net : Net σ) (near far : String) (config : LinkConfig) (w : σ) :
    Option (System σ) :=
  match Channel.openBetween net near far w with
  | (.done channel, w) =>
    match LinkState.ofChannel net channel config w with
    | (.done s, _) => some { link := s }
    | _ => none
  | _ => none

/-- A property that can be checked after a given run holds after this run of an opened link. -/
theorem System.exists_opened_of_run {σ : Type} (net : Net σ) (w₀ : σ) (near far : String)
    (config : LinkConfig) (actions : List Action) (p : System σ → Bool)
    (h : (System.opened? net near far config w₀).any (fun y => p (y.run net actions)) = true) :
    ∃ y, System.opened? net near far config w₀ = some y ∧ p (y.run net actions) = true := by
  cases hopened : System.opened? net near far config w₀ with
  | none => simp [hopened] at h
  | some y => exact ⟨y, rfl, by simpa [hopened] using h⟩

/-- The systems that the runs of a link lead to, from its opening in the world `w₀` on. -/
inductive Reachable {σ : Type} (net : Net σ) (w₀ : σ) : System σ → Prop where
  | opened {near far : String} {config : LinkConfig} {y : System σ} :
      System.opened? net near far config w₀ = some y → Reachable net w₀ y
  | step {y : System σ} (a : Action) : Reachable net w₀ y → Reachable net w₀ (y.step net a)

namespace Reachable

variable {σ : Type} {net : Net σ} {w₀ : σ} {y : System σ}

theorem run (h : Reachable net w₀ y) (actions : List Action) :
    Reachable net w₀ (y.run net actions) := by
  induction actions generalizing y with
  | nil => exact h
  | cons a rest ih => exact ih (h.step a)

/-- A property that can be checked after a given run holds in a reachable system. -/
theorem exists_of_run (net : Net σ) (w₀ : σ) (near far : String) (config : LinkConfig)
    (actions : List Action) (p : System σ → Bool)
    (h : (System.opened? net near far config w₀).any (fun y => p (y.run net actions)) = true) :
    ∃ y, Reachable net w₀ y ∧ p y = true := by
  obtain ⟨y, hopened, hp⟩ := System.exists_opened_of_run net w₀ near far config actions p h
  exact ⟨y.run net actions, (opened hopened).run actions, hp⟩

end Reachable

/-! ## A network that answers from a script -/

theorem Carrier.exists_streams {carrier : Carrier} (h : carrier ≠ .datagrams) :
    ∃ t, carrier = .streams t := by
  cases carrier with
  | streams t => exact ⟨t, rfl⟩
  | datagrams => exact absurd rfl h

/-- A network on which all goes well at once. Writes are answered from a list; when it is used up,
streams take no more for now. -/
def Net.scripted : Net (List (Reply Nat)) where
  now _ := 0
  patience _ := 2
  names _ := .unknown
  bind _ _ w := (.ok (), w)
  connect _ w := (.ok 0, w)
  aim _ w := (.ok (), w)
  boundAddress w := (.ok default, w)
  newPoll w := (.ok (), w)
  newWaker w := (.ok (), w)
  startThread w := (.ok (), w)
  register _ _ w := (.ok (), w)
  deregister _ w := (.ok (), w)
  wake w := (.ok (), w)
  accept w := (.fail .wouldBlock, w)
  takeError _ w := (.ok none, w)
  peerAddress _ w := (.ok (), w)
  setNodelay _ w := (.ok (), w)
  read _ _ w := (.fail .wouldBlock, w)
  write _ _ _ w :=
    match w with
    | [] => (.fail .wouldBlock, [])
    | r :: rest => (r, rest)
  send bytes w := (.ok bytes.size, w)
  receive _ w := (.fail .wouldBlock, w)
  close _ w := w
  closeAll w := w

def Builder.bare : Builder where
  buffer := (Header.encode ⟨.jointState, 0⟩).toArray
  finished := true

/-- The first round, in which the stream to the remote side gets connected. -/
def Action.firstRound : List Action :=
  [.guard, .proceed, .proceed, .proceed, .proceed,
    .wake (.ok [{ token := Token.outbound, writable := true }]), .proceed, .proceed, .proceed]

namespace System

variable {σ : Type}

/-! ## Rounds -/

def proceeds (net : Net σ) (y : System σ) (n : Nat) : System σ :=
  y.run net (List.replicate n .proceed)

/-- Undisturbed, the stages up to the wait are `LinkState.advance`. -/
theorem proceeds_advance (net : Net σ) (y : System σ) (h : y.stage = .head) :
    ∃ n, match y.link.advance net with
      | (s, .waits _) => (y.proceeds net n).link = s ∧ (y.proceeds net n).stage = .waiting
      | (s, .leaves why) => (y.proceeds net n).link = s ∧ (y.proceeds net n).stage = .leaving why
      | (s, .died) => (y.proceeds net n).link = s.vanish net ∧ (y.proceeds net n).stage = .died
      | (_, .continues) => False := by
  obtain ⟨s, stage, history⟩ := y
  subst h
  unfold LinkState.advance
  cases hstopped : s.stopped with
  | true => exact ⟨1, by simp [proceeds, run, step, proceed, hstopped]⟩
  | false =>
    cases hdied : (s.takeSubmissions.handOn net).loopDied with
    | true => exact ⟨3, by simp [proceeds, run, step, proceed, enter, hstopped, hdied]⟩
    | false =>
      cases hidle : (s.takeSubmissions.handOn net).isIdle <;>
        exact ⟨4, by simp [proceeds, run, step, proceed, enter, hstopped, hdied, hidle]⟩

theorem proceeds_succ (net : Net σ) (y : System σ) (n : Nat) :
    y.proceeds net (n + 1) = (y.proceed net).proceeds net n := by
  simp [proceeds, run, step, List.replicate_succ]

/-- Undisturbed, the stages that react to events are the reactions one after the other. -/
theorem proceeds_reacting (net : Net σ) (y : System σ) (events : List Event)
    (h : y.stage = .reacting events) :
    ∃ n, match LinkState.resume net y.link (.ok events) with
      | (s, .died) => (y.proceeds net n).link = s.vanish net ∧ (y.proceeds net n).stage = .died
      | (s, _) => (y.proceeds net n).link = s ∧ (y.proceeds net n).stage = .head := by
  simp only [LinkState.resume]
  induction events generalizing y with
  | nil =>
    refine ⟨2, ?_⟩
    cases hdied : (y.link.reopen net).loopDied <;>
      simp [proceeds, run, step, proceed, enter, h, hdied]
  | cons e rest ih =>
    cases hdied : (y.link.react net e).loopDied with
    | true =>
      have hrest : rest.foldl (LinkState.react net) (y.link.react net e) = y.link.react net e :=
        LinkState.foldl_react_of_died net rest hdied
      refine ⟨1, ?_⟩
      simp [hrest, LinkState.reopen_of_died net hdied, hdied, proceeds, run, step, proceed,
        enter, h]
    | false =>
      obtain ⟨n, hn⟩ := ih (y.proceed net) (by simp [proceed, h, enter, hdied])
      refine ⟨n + 1, ?_⟩
      have hlink : (y.proceed net).link = y.link.react net e := by
        simp [proceed, h, enter, hdied]
      rw [hlink] at hn
      simp only [proceeds_succ]
      exact hn

/-- Undisturbed, the end of the wait and the stages behind it are `LinkState.resume`. -/
theorem proceeds_resume (net : Net σ) (y : System σ) (r : Reply (List Event))
    (h : y.stage = .waiting) :
    ∃ n, match y.link.resume net r with
      | (s, .continues) => ((y.step net (.wake r)).proceeds net n).link = s ∧
          ((y.step net (.wake r)).proceeds net n).stage = .head
      | (s, .leaves why) => ((y.step net (.wake r)).proceeds net n).link = s ∧
          ((y.step net (.wake r)).proceeds net n).stage = .leaving why
      | (s, .died) => ((y.step net (.wake r)).proceeds net n).link = s.vanish net ∧
          ((y.step net (.wake r)).proceeds net n).stage = .died
      | (_, .waits _) => False := by
  rcases r with events | e | _
  · obtain ⟨n, hn⟩ := (y.step net (.wake (.ok events))).proceeds_reacting net events
      (by simp [step, answer, h])
    refine ⟨n, ?_⟩
    have hlink : (y.step net (.wake (.ok events))).link = y.link := by simp [step, answer, h]
    rw [hlink] at hn
    simp only [LinkState.resume] at hn ⊢
    cases hdied : ((events.foldl (LinkState.react net) y.link).reopen net).loopDied <;>
      simpa [hdied] using hn
  · by_cases hagain : e = .interrupted
    · subst hagain
      exact ⟨0, by simp [LinkState.resume, proceeds, run, step, answer, h]⟩
    · exact ⟨0, by simp [LinkState.resume, proceeds, run, step, answer, h]⟩
  · exact ⟨0, by simp [LinkState.resume, proceeds, run, step, answer, enter, h]⟩

end System

end ArmStream
