import ArmStream.Proofs.CallerSide
import ArmStream.Proofs.Steps

/-!
# Messages that wait

The messages in the outbox and behind them those in the queue form one line. Only callers make it
longer: a message that is submitted joins at its end, and only a finished one does. The loop makes
it shorter and never changes its order, whatever the network answers. So all messages that wait are
finished.

## Main definitions

- `LinkState.waiting`: the messages that wait.

## Main statements

- `System.waiting_proceed`: what a stage of the loop does to them.
- `System.waiting_step`: what an action does to them.
- `Reachable.finished_waiting`: in each reachable link they are finished.
-/

namespace ArmStream

variable {σ : Type} {net : Net σ}

/-! ## The line of waiting messages -/

namespace LinkState

variable {s s' : LinkState σ} {t t' : Streams}

/-- The messages that wait, oldest first. -/
def waiting (s : LinkState σ) : List Builder := s.outbox ++ s.queue

theorem waiting_of_besideSockets (h : s'.besideSockets = s.besideSockets) :
    s'.waiting = s.waiting :=
  congrArg (fun kept : BesideSockets => kept.outbox ++ kept.queue) h

@[simp] theorem waiting_release (s : LinkState σ) (b : Builder) :
    (s.release b).waiting = s.waiting := by
  simp [waiting]

@[simp] theorem waiting_wake (net : Net σ) (s : LinkState σ) :
    (s.wake net).waiting = s.waiting := by
  obtain ⟨w, died, -, heq⟩ := s.exists_wake net
  simp [heq, waiting]

@[simp] theorem waiting_acquire (s : LinkState σ) : s.acquire.2.waiting = s.waiting := by
  obtain ⟨pool, heq⟩ := s.exists_acquire
  simp [heq, waiting]

@[simp] theorem waiting_dropGuard (net : Net σ) (s : LinkState σ) :
    (s.dropGuard net).waiting = s.waiting := by
  unfold dropGuard
  split
  next => exact waiting_wake net { s with guards := s.guards - 1 }
  next => rfl

@[simp] theorem waiting_stop (net : Net σ) (s : LinkState σ) :
    (s.stop net).waiting = s.waiting :=
  waiting_wake net { s with stopped := true }

/-- The message moves from the queue to the outbox, or it is given up. -/
theorem waiting_take (s : LinkState σ) (b : Builder) :
    (s.take b).waiting.Sublist (s.outbox ++ b :: s.queue) := by
  unfold take
  split
  next => simp [waiting, countDropped]
  next => simp [waiting]

theorem waiting_takeSubmissions (s : LinkState σ) :
    s.takeSubmissions.waiting.Sublist s.waiting := by
  obtain ⟨pool, heq⟩ := s.takeSubmissions_eq
  rw [heq]
  simp [waiting, List.take_sublist]

theorem waiting_of_handOver? (h : s.handOver? t = some (s', t')) :
    s'.waiting.Sublist s.waiting := by
  obtain ⟨b, houtbox, hqueue⟩ := exists_oldest_of_handOver? h
  simp [waiting, houtbox, hqueue]

theorem waiting_handOverAll (fuel : Nat) (s : LinkState σ) (t : Streams) :
    (handOverAll fuel s t).1.waiting.Sublist s.waiting := by
  induction fuel generalizing s t with
  | zero => exact .refl _
  | succ fuel ih =>
    unfold handOverAll
    split
    next => exact .refl _
    next s' t' hgiven => exact (ih s' t').trans (waiting_of_handOver? hgiven)

theorem waiting_sendOldest (net : Net σ) {b : Builder} {rest : List Builder}
    (h : s.outbox = b :: rest) : (s.sendOldest net b rest).1.waiting.Sublist s.waiting := by
  unfold sendOldest
  split
  next => simp [waiting, h, countDropped]
  next => split <;> simp [waiting, h, countDropped, countSent, countSendError]

theorem waiting_sendDatagrams (net : Net σ) (fuel : Nat) (s : LinkState σ) :
    (sendDatagrams net fuel s).waiting.Sublist s.waiting := by
  induction fuel generalizing s with
  | zero => exact .refl _
  | succ fuel ih =>
    unfold sendDatagrams
    split
    next => exact .refl _
    next b rest houtbox =>
      have hsent := waiting_sendOldest net houtbox
      generalize s.sendOldest net b rest = r at hsent
      obtain ⟨s', sending⟩ := r
      cases sending with
      | blocked => exact hsent
      | died => exact hsent
      | sent => exact (ih s').trans hsent
      | givenUp => exact (ih s').trans hsent
      | again => exact (ih s').trans hsent

theorem waiting_handOn (net : Net σ) (s : LinkState σ) :
    (s.handOn net).waiting.Sublist s.waiting := by
  unfold handOn
  split
  next t _ =>
    have hhanded := waiting_handOverAll s.outbox.length s t
    have hoffered := besideSockets_offerAll net (handOverAll s.outbox.length s t).1
      (handOverAll s.outbox.length s t).2.peers
    have hparted := fun t tokens => waiting_of_besideSockets
      ((besideSockets_partAll net _ t tokens).trans hoffered)
    exact (hparted _ _).symm ▸ hhanded
  next => exact waiting_sendDatagrams net _ s

theorem waiting_leave (net : Net σ) (s : LinkState σ) : (s.leave net).waiting = [] := by
  obtain ⟨pool, heq⟩ := leave_eq net s
  simp [heq, waiting]

theorem waiting_vanish (net : Net σ) (s : LinkState σ) :
    (s.vanish net).waiting.Sublist s.waiting := by
  simp [vanish, waiting]

/-- Submitting a finished message puts it at the end of the line, or leaves the line as it is. -/
theorem waiting_submit (net : Net σ) (s : LinkState σ) (b : Builder) :
    (s.submit net b).1.waiting = s.waiting ∨
      b.finished = true ∧ (s.submit net b).1.waiting = s.waiting ++ [b] := by
  rcases s.submit_cases net b with ⟨-, heq⟩ | ⟨-, -, heq⟩ | ⟨-, -, -, -, heq⟩ |
    ⟨hfinished, -, -, -, heq⟩
  · simp [heq]
  · simp [heq]
  · simp [heq, countDropped, waiting]
  · right
    rw [heq, waiting_wake]
    exact ⟨hfinished, (List.append_assoc _ _ _).symm⟩

end LinkState

/-! ## Runs -/

namespace System

theorem waiting_enter (net : Net σ) (y : System σ) (s : LinkState σ) (next : Stage) :
    (y.enter net s next).link.waiting.Sublist s.waiting := by
  unfold enter
  split
  next => exact s.waiting_vanish net
  next => exact .refl _

/-- The loop adds nothing to the messages that wait, and keeps their order. -/
theorem waiting_proceed (net : Net σ) (y : System σ) :
    (y.proceed net).link.waiting.Sublist y.link.waiting := by
  unfold proceed
  split
  next => exact .refl _
  next => exact y.link.waiting_takeSubmissions
  next => exact (waiting_enter net _ _ _).trans (y.link.waiting_handOn net)
  next => exact .refl _
  next => exact .refl _
  next => exact .refl _
  next e _ _ =>
    have hreacted := LinkState.waiting_of_besideSockets (LinkState.besideSockets_react net y.link e)
    exact hreacted ▸ waiting_enter net _ _ _
  next =>
    have hreopened := LinkState.waiting_of_besideSockets (LinkState.besideSockets_reopen net y.link)
    exact hreopened ▸ waiting_enter net _ _ _
  next => simp [y.link.waiting_leave net]
  next => exact .refl _
  next => exact .refl _

theorem waiting_answer (net : Net σ) (y : System σ) (r : Reply (List Event)) :
    (y.answer net r).link.waiting.Sublist y.link.waiting := by
  unfold answer
  split
  next => exact waiting_enter net y { y.link with loopDied := true } .head
  next => exact .refl _
  next => exact .refl _
  next => exact .refl _

/-- An action adds nothing to the messages that wait, but for a finished message that is submitted.
This one waits behind all others. -/
theorem waiting_step (net : Net σ) (y : System σ) (a : Action) :
    (y.step net a).link.waiting.Sublist y.link.waiting ∨
      ∃ b, a = .submit b ∧ b.finished = true ∧
        (y.step net a).link.waiting = y.link.waiting ++ [b] := by
  cases a with
  | submit b =>
    rcases y.link.waiting_submit net b with hsame | ⟨hfinished, hadded⟩
    · exact .inl (by simp [step, hsame])
    · exact .inr ⟨b, rfl, hfinished, hadded⟩
  | acquire => exact .inl (by simp [step])
  | guard => exact .inl (.refl _)
  | dropGuard => exact .inl (by simp [step])
  | stop => exact .inl (by simp [step])
  | proceed => exact .inl (waiting_proceed net y)
  | wake r =>
    left
    simp only [step]
    split
    next => exact waiting_answer net y r
    next => exact .refl _

end System

/-- Nothing waits in a link that was just opened. -/
theorem LinkState.Fresh.waiting {s : LinkState σ} {w₀ : σ} (h : s.Fresh net w₀) :
    s.waiting = [] := by
  cases h <;> rfl

/-- In each reachable link all messages that wait are finished. -/
theorem Reachable.finished_waiting {w₀ : σ} {y : System σ} (h : Reachable net w₀ y) :
    ∀ b ∈ y.link.waiting, b.finished = true := by
  induction h with
  | opened hopened =>
    obtain ⟨s, hfresh, rfl⟩ := LinkState.exists_fresh hopened
    simp [hfresh.waiting]
  | @step y a _ ih =>
    intro b hb
    rcases System.waiting_step net y a with hsub | ⟨c, -, hfinished, hadded⟩
    · exact ih b (hsub.mem hb)
    · rw [hadded, List.mem_append, List.mem_singleton] at hb
      rcases hb with hb | rfl
      · exact ih b hb
      · exact hfinished

/-- Those in the outbox are among them. -/
theorem Reachable.finished_outbox {w₀ : σ} {y : System σ} (h : Reachable net w₀ y) :
    ∀ b ∈ y.link.outbox, b.finished = true := by
  intro b hb
  exact h.finished_waiting b (List.mem_append_left _ hb)

end ArmStream
