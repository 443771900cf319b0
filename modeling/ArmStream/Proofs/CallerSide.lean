import ArmStream.Proofs.Run

/-!
# What the loop leaves alone

A link belongs to two sides. Of what callers own and read, the loop changes the pool, and that only
by giving builders back, and at its end it sets the flag that it was stopped. The settings, the
address, the guards and the number of messages that the queue took stay as they are, whatever the
network answers, and also when a call of the system ends the thread of the loop. While the loop has
to do with its sockets, it leaves the messages in the queue and in the outbox alone as well.

## Main definitions

- `LinkState.callerSide`: what callers own and read of a link.
- `LinkState.besideSockets`: the same, and the messages that wait.
- `LinkState.Returns`: builders were given back or the flag was set, and nothing else happened on
  the callers' side.

## Main statements

- `LinkState.besideSockets_react`, `LinkState.besideSockets_reopen`: the work on sockets.
- `LinkState.Returns.handOn`, `LinkState.Returns.leave`: the stages that give builders back.
- `System.returns_proceed`, `System.returns_wake`: what the loop does in a system.
-/

namespace ArmStream

variable {σ : Type} {net : Net σ}

/-- What callers own and read of a link. -/
structure CallerSide where
  config : LinkConfig
  boundAddress : SocketAddress
  pool : List Builder
  /-- The messages that the queue took. -/
  submitted : Nat
  stopped : Bool
  guards : Nat
  /-- The thread of a caller ended inside a call. -/
  died : Bool

/-- What the work on sockets leaves alone. -/
structure BesideSockets where
  caller : CallerSide
  queue : List Builder
  outbox : List Builder

namespace LinkState

def callerSide (s : LinkState σ) : CallerSide where
  config := s.config
  boundAddress := s.boundAddress
  pool := s.pool
  submitted := s.metrics.submitted
  stopped := s.stopped
  guards := s.guards
  died := s.callerDied

def besideSockets (s : LinkState σ) : BesideSockets := ⟨s.callerSide, s.queue, s.outbox⟩

/-- Between the two states builders were given back, or the flag was set. Nothing else happened on
the callers' side. -/
inductive Returns (s : LinkState σ) : LinkState σ → Prop where
  | refl : Returns s s
  | aside {s' s'' : LinkState σ} : Returns s s' → s''.callerSide = s'.callerSide → Returns s s''
  | release {s' : LinkState σ} (b : Builder) : Returns s s' → Returns s (s'.release b)
  | stop {s' : LinkState σ} : Returns s s' → Returns s { s' with stopped := true }

/-! ## Sockets -/

section Sockets

variable (net : Net σ) (s : LinkState σ) (t : Streams)

@[simp] theorem besideSockets_noteWritten (r : Peer.Written σ) :
    (s.noteWritten r).1.besideSockets = s.besideSockets := by
  unfold noteWritten
  split <;> rfl

@[simp] theorem besideSockets_offerAll (todo : List (Token × Peer)) :
    (s.offerAll net todo).1.besideSockets = s.besideSockets := by
  induction todo generalizing s with
  | nil => rfl
  | cons q rest ih =>
    unfold offerAll
    split
    next => rfl
    next => simp [ih]

@[simp] theorem besideSockets_part (token : Token) :
    (s.part net t token).1.besideSockets = s.besideSockets := by
  unfold part
  split
  next => rfl
  next =>
    dsimp only
    split <;> rfl

@[simp] theorem besideSockets_partAll (tokens : List Token) :
    (s.partAll net t tokens).1.besideSockets = s.besideSockets := by
  induction tokens generalizing s t with
  | nil => rfl
  | cons token rest ih =>
    unfold partAll
    split
    next => rfl
    next => simp [ih]

@[simp] theorem besideSockets_hurry (conn : Conn) :
    (s.hurry net conn).besideSockets = s.besideSockets := by
  unfold hurry
  split <;> rfl

@[simp] theorem besideSockets_welcome (conn : Conn) :
    (s.welcome net t conn).1.besideSockets = s.besideSockets := by
  unfold welcome
  dsimp only
  split
  next => rfl
  next => rfl
  next w _ =>
    have hhurried := besideSockets_hurry net { s with world := w } conn
    split <;> exact hhurried

@[simp] theorem besideSockets_welcomeAll (fuel : Nat) :
    (s.welcomeAll net fuel t).1.besideSockets = s.besideSockets := by
  induction fuel generalizing s t with
  | zero => rfl
  | succ fuel ih =>
    unfold welcomeAll
    split
    next conn w _ =>
      have hwelcomed := besideSockets_welcome net { s with world := w } t conn
      dsimp only
      split
      next => exact hwelcomed
      next => exact (ih _ _).trans hwelcomed
    next w _ => exact ih { s with world := w } t
    next => rfl
    next => rfl

@[simp] theorem besideSockets_settleOpening (conn : Conn) :
    (s.settleOpening net t conn).1.besideSockets = s.besideSockets := by
  unfold settleOpening
  split
  next => rfl
  next => rfl
  next w _ =>
    have hhurried := besideSockets_hurry net { s with world := w } conn
    dsimp only
    split <;> exact hhurried
  next =>
    dsimp only
    split <;> rfl

@[simp] theorem besideSockets_settleOutbound (e : Event) :
    (s.settleOutbound net t e).1.besideSockets = s.besideSockets := by
  unfold settleOutbound
  split
  next => split <;> simp
  next => rfl

@[simp] theorem besideSockets_hear (e : Event) (p : Peer) :
    (s.hear net e p).1.besideSockets = s.besideSockets := by
  unfold hear readPeer
  split
  next => split <;> rfl
  next => rfl

@[simp] theorem besideSockets_servePeer (e : Event) (p : Peer) :
    (s.servePeer net t e p).1.besideSockets = s.besideSockets := by
  have hheard := besideSockets_hear net s e p
  unfold servePeer
  dsimp only
  split
  next => exact hheard
  next => split <;> dsimp only <;> split <;> simp

@[simp] theorem besideSockets_reactStream (e : Event) :
    (s.reactStream net t e).1.besideSockets = s.besideSockets := by
  unfold reactStream
  dsimp only
  split
  next => simp
  next => split <;> simp

@[simp] theorem besideSockets_discardDatagrams (fuel : Nat) :
    (s.discardDatagrams net fuel).besideSockets = s.besideSockets := by
  induction fuel generalizing s with
  | zero => rfl
  | succ fuel ih =>
    unfold discardDatagrams
    split
    next bytes w _ => exact ih ({ s with world := w }.countReceived bytes.size)
    next w _ => exact ih { s with world := w }
    next w _ => exact ih { s with world := w }
    next => rfl
    next => rfl

@[simp] theorem besideSockets_react (e : Event) :
    (s.react net e).besideSockets = s.besideSockets := by
  unfold react
  split
  next => rfl
  next =>
    split
    next t _ =>
      dsimp only
      split
      next => exact besideSockets_welcomeAll net s t _
      next => exact besideSockets_reactStream net s t e
    next => split <;> simp

@[simp] theorem besideSockets_reopen : (s.reopen net).besideSockets = s.besideSockets := by
  unfold reopen
  split
  next => rfl
  next =>
    split
    next => rfl
    next =>
      split
      next => rfl
      next =>
        dsimp only
        split
        next => rfl
        next => rfl
        next => split <;> rfl

end Sockets

@[simp] theorem outbox_offerAll (net : Net σ) (s : LinkState σ) (todo : List (Token × Peer)) :
    (s.offerAll net todo).1.outbox = s.outbox :=
  congrArg BesideSockets.outbox (besideSockets_offerAll net s todo)

@[simp] theorem outbox_partAll (net : Net σ) (s : LinkState σ) (t : Streams)
    (tokens : List Token) : (s.partAll net t tokens).1.outbox = s.outbox :=
  congrArg BesideSockets.outbox (besideSockets_partAll net s t tokens)

/-! ## Messages -/

namespace Returns

variable {s₀ s s' : LinkState σ} {t t' : Streams}

/-- Nothing but the pool and the flag changed. -/
theorem callerSide_eq (h : s.Returns s') :
    s'.callerSide = { s.callerSide with pool := s'.pool, stopped := s'.stopped } := by
  induction h with
  | refl => rfl
  | aside _ heq ih =>
    have hpool := congrArg CallerSide.pool heq
    have hstopped := congrArg CallerSide.stopped heq
    dsimp only [callerSide] at hpool hstopped
    rw [heq, hpool, hstopped]
    exact ih
  | release b _ ih =>
    unfold LinkState.release
    split
    next => simpa [callerSide] using ih
    next => exact ih
  | stop _ ih => simpa [callerSide] using ih

/-- The flag is never cleared. -/
theorem stopped (h : s.Returns s') (hstopped : s.stopped = true) : s'.stopped = true := by
  induction h with
  | refl => exact hstopped
  | aside _ heq ih => exact (congrArg CallerSide.stopped heq).trans ih
  | release b _ ih =>
    unfold LinkState.release
    split <;> exact ih
  | stop => rfl

/-- Work on sockets is nothing on the callers' side. -/
theorem beside (h : s₀.Returns s) (hbeside : s'.besideSockets = s.besideSockets) :
    s₀.Returns s' :=
  h.aside (congrArg BesideSockets.caller hbeside)

theorem foldl_release (h : s₀.Returns s) (bs : List Builder) :
    s₀.Returns (bs.foldl LinkState.release s) := by
  induction bs generalizing s with
  | nil => exact h
  | cons b bs ih => exact ih (h.release b)

theorem take (h : s₀.Returns s) (b : Builder) : s₀.Returns (s.take b) := by
  have hdropped : s₀.Returns (s.countDropped 1) := h.aside rfl
  unfold LinkState.take
  split
  next => exact hdropped.release b
  next => exact h.aside rfl

theorem foldl_take (h : s₀.Returns s) (bs : List Builder) :
    s₀.Returns (bs.foldl LinkState.take s) := by
  induction bs generalizing s with
  | nil => exact h
  | cons b bs ih => exact ih (h.take b)

theorem takeSubmissions (h : s₀.Returns s) : s₀.Returns s.takeSubmissions := by
  have hemptied : s₀.Returns { s with queue := [] } := h.aside rfl
  exact hemptied.foldl_take s.queue

theorem handOver? (h : s₀.Returns s) (hgiven : s.handOver? t = some (s', t')) :
    s₀.Returns s' := by
  unfold LinkState.handOver? at hgiven
  split at hgiven
  next => cases hgiven
  next b rest _ =>
    split at hgiven
    next => cases hgiven
    next token p _ =>
      have hkept : s₀.Returns { s with outbox := rest } := h.aside rfl
      have hdropped : s₀.Returns ({ s with outbox := rest }.countDropped 1) := h.aside rfl
      dsimp only at hgiven
      split at hgiven
      next =>
        cases hgiven
        exact hkept.release b
      next =>
        cases hgiven
        exact hdropped.release b

theorem handOverAll (h : s₀.Returns s) (fuel : Nat) (t : Streams) :
    s₀.Returns (LinkState.handOverAll fuel s t).1 := by
  induction fuel generalizing s t with
  | zero => exact h
  | succ fuel ih =>
    unfold LinkState.handOverAll
    split
    next => exact h
    next s' t' hgiven => exact ih (h.handOver? hgiven) t'

theorem handOnStreams (h : s₀.Returns s) (net : Net σ) (t : Streams) :
    s₀.Returns (s.handOnStreams net t) := by
  have hhanded := h.handOverAll s.outbox.length t
  have hoffered := hhanded.beside
    (besideSockets_offerAll net _ (LinkState.handOverAll s.outbox.length s t).2.peers)
  exact hoffered.beside (besideSockets_partAll net _ _ _)

theorem sendOldest (h : s₀.Returns s) (net : Net σ) (b : Builder) (rest : List Builder) :
    s₀.Returns (s.sendOldest net b rest).1 := by
  have hreleased {s' : LinkState σ} (heq : s'.callerSide = s.callerSide) :
      s₀.Returns (s'.release b) := (h.aside heq).release b
  unfold LinkState.sendOldest
  split
  next => exact hreleased rfl
  next =>
    split
    next => exact hreleased rfl
    next => exact h.aside rfl
    next => exact h.aside rfl
    next => exact hreleased rfl
    next => exact h.aside rfl

theorem sendDatagrams (h : s₀.Returns s) (net : Net σ) (fuel : Nat) :
    s₀.Returns (LinkState.sendDatagrams net fuel s) := by
  induction fuel generalizing s with
  | zero => exact h
  | succ fuel ih =>
    unfold LinkState.sendDatagrams
    split
    next => exact h
    next b rest _ =>
      have hsent := h.sendOldest net b rest
      generalize s.sendOldest net b rest = r at hsent
      obtain ⟨s', sending⟩ := r
      cases sending with
      | blocked => exact hsent
      | died => exact hsent
      | sent => exact ih hsent
      | givenUp => exact ih hsent
      | again => exact ih hsent

theorem handOn (h : s₀.Returns s) (net : Net σ) : s₀.Returns (s.handOn net) := by
  unfold LinkState.handOn
  split
  next t _ => exact h.handOnStreams net t
  next => exact h.sendDatagrams net _

theorem leave (h : s₀.Returns s) (net : Net σ) : s₀.Returns (s.leave net) := by
  have hemptied : s₀.Returns { s with stopped := true, queue := [], outbox := [] } :=
    h.stop.aside rfl
  exact (hemptied.foldl_release (s.queue ++ s.outbox)).aside rfl

end Returns

end LinkState

/-! ## Systems -/

namespace System

variable {s₀ s : LinkState σ}

theorem returns_enter (net : Net σ) (y : System σ) (h : s₀.Returns s) (next : Stage) :
    s₀.Returns (y.enter net s next).link := by
  unfold enter
  split
  next => exact h.aside rfl
  next => exact h

/-- The next stage of the loop. -/
theorem returns_proceed (net : Net σ) (y : System σ) : y.link.Returns (y.proceed net).link := by
  have hsame : y.link.Returns y.link := .refl
  unfold proceed
  split
  next => exact hsame
  next => exact hsame.takeSubmissions
  next => exact returns_enter net _ (hsame.handOn net) _
  next => exact hsame
  next => exact hsame
  next => exact hsame
  next => exact returns_enter net _ (hsame.beside (LinkState.besideSockets_react net _ _)) _
  next => exact returns_enter net _ (hsame.beside (LinkState.besideSockets_reopen net _)) _
  next => exact hsame.leave net
  next => exact hsame
  next => exact hsame

theorem returns_answer (net : Net σ) (y : System σ) (r : Reply (List Event)) :
    y.link.Returns (y.answer net r).link := by
  unfold answer
  split
  next =>
    refine returns_enter net _ ?_ _
    exact LinkState.Returns.refl.aside rfl
  next => exact .refl
  next => exact .refl
  next => exact .refl

/-- The end of the wait of the loop. -/
theorem returns_wake (net : Net σ) (y : System σ) (r : Reply (List Event)) :
    y.link.Returns (y.step net (.wake r)).link := by
  simp only [step]
  split
  next => exact returns_answer net y r
  next => exact .refl

end System

end ArmStream
