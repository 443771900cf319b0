import Mathlib
import ArmStream.Proofs.Building
import ArmStream.Proofs.Inbound
import ArmStream.Proofs.Leftovers

/-!
# Datagrams keep their order

A datagram link offers the oldest message of its outbox to the socket until the socket settles what
becomes of it: the datagram is taken, or sending it fails for good. Only then does the message leave
the outbox, and it is counted as sent or as given up. A socket that is busy, or a call that was
interrupted, changes nothing: the same message is offered again.

## Main definitions

- `Attempt`: one datagram that was offered, with the answer.
- `History.taken`: the messages that the outbox took.
- `Dispatching`: what was offered, what left the outbox and the counters agree.

## Main statements

- `Dispatching.sendOldest`, `Dispatching.sendDatagrams`: offering messages keeps them in agreement.
- `System.dispatching_step`: so does everything else that a link does.
- `Reachable.datagrams_in_order`: which datagrams leave, in which order, and how they are counted.
-/

namespace ArmStream

variable {σ : Type} {net : Net σ}

/-! ## Attempts -/

structure Attempt where
  offered : Bytes
  answer : Reply Nat
  deriving DecidableEq, Repr, Inhabited

namespace Attempt

def sending (a : Attempt) : Sending := .datagram a.offered a.answer

def succeeds (a : Attempt) : Bool :=
  match a.answer with
  | .ok _ => true
  | _ => false

def settles (a : Attempt) : Bool :=
  a.answer != .fail .wouldBlock && a.answer != .fail .interrupted

def fails (a : Attempt) : Bool := a.settles && !a.succeeds

def bytes (a : Attempt) : Nat :=
  match a.answer with
  | .ok n => n
  | _ => 0

def recipient (a : Attempt) : Recipient := if a.succeeds then .datagram else .nobody

theorem settles_of_succeeds {a : Attempt} (h : a.succeeds = true) : a.settles = true := by
  cases hanswer : a.answer with
  | ok n => simp [settles, hanswer]
  | _ => simp [succeeds, hanswer] at h

end Attempt

/-- What becomes of the messages that leave the outbox, after one was offered. -/
def LinkState.Sending.log : LinkState.Sending → List Recipient
  | .sent => [.datagram]
  | .givenUp => [.nobody]
  | _ => []

/-! ## What was offered and what left -/

namespace History

/-- The numbers of the messages that the outbox took, in this order. -/
def taken (h : History) : List Nat := h.handOvers.map HandOver.message ++ h.pending

def Carries (h : History) (m : Nat) (bytes : Bytes) : Prop :=
  h.accepted[m]?.map Builder.buffer = some bytes

theorem depart_nil (h : History) : h.depart [] = h := by
  simp [depart]

theorem offer_nil (h : History) : h.offer [] = h := by
  simp [offer]

end History

/-- What was offered to the socket, what left the outbox and the counters agree. -/
structure Dispatching (s : LinkState (Tap σ)) (h : History) (attempts : List Attempt) : Prop where
  outgoing : s.world.outgoing = attempts.map Attempt.sending
  /-- An attempt offers the first message that was not settled before. -/
  offered : ∀ before a behind, attempts = before ++ a :: behind →
    ∃ m, h.taken[before.countP Attempt.settles]? = some m ∧ h.Carries m a.offered
  /-- The messages left the outbox as their attempts were settled. -/
  settled : List.Forall₂ (fun a o => o.recipient = a.recipient ∧ h.Carries o.message a.offered)
    (attempts.filter Attempt.settles) h.handOvers
  sent : s.metrics.sent = attempts.countP Attempt.succeeds
  bytesSent : s.metrics.bytesSent = (attempts.map Attempt.bytes).sum
  sendErrors : s.metrics.sendErrors = attempts.countP Attempt.fails
  dropped : s.metrics.dropped = h.refused + h.discarded.length + attempts.countP Attempt.fails

namespace Dispatching

variable {s s' : LinkState (Tap σ)} {h h' : History} {attempts : List Attempt} {a : Attempt}
  {m : Nat} {ms : List Nat}

/-! ### Offering messages -/

/-- Another attempt offers the oldest message of the outbox. -/
theorem offered_append (hd : Dispatching s h attempts) (hpending : h.pending = m :: ms)
    (ha : h.Carries m a.offered) :
    ∀ before a' behind, attempts ++ [a] = before ++ a' :: behind →
      ∃ m, h.taken[before.countP Attempt.settles]? = some m ∧ h.Carries m a'.offered := by
  intro before a' behind hsplit
  rcases List.eq_nil_or_concat behind with rfl | ⟨front, last, rfl⟩
  · obtain ⟨rfl, rfl⟩ : attempts = before ∧ a = a' := by
      simpa using List.append_inj' hsplit rfl
    have hplace : attempts.countP Attempt.settles = h.handOvers.length := by
      rw [List.countP_eq_length_filter, hd.settled.length_eq]
    refine ⟨m, ?_, ha⟩
    rw [hplace, History.taken, hpending]
    simp
  · have hfront : attempts = before ++ a' :: front := by
      rw [List.concat_eq_append, ← List.cons_append, ← List.append_assoc] at hsplit
      exact (List.append_inj' hsplit rfl).1
    exact hd.offered before a' front hfront

/-- The oldest message was offered to no avail. It stays where it is. -/
theorem unsettled (hd : Dispatching s h attempts)
    (hpending : h.pending = m :: ms) (ha : h.Carries m a.offered)
    (hsettles : a.settles = false) (hsucceeds : a.succeeds = false)
    (hworld : s'.world.outgoing = s.world.outgoing ++ [a.sending])
    (hmetrics : s'.metrics = s.metrics) : Dispatching s' h (attempts ++ [a]) := by
  have hbytes : a.bytes = 0 := by
    cases hanswer : a.answer <;> simp [Attempt.succeeds, Attempt.bytes, hanswer] at hsucceeds ⊢
  constructor
  · simp [hworld, hd.outgoing]
  · exact hd.offered_append hpending ha
  · simpa [List.filter_append, hsettles] using hd.settled
  · simp [hmetrics, hd.sent, hsucceeds]
  · simp [hmetrics, hd.bytesSent, hbytes]
  · simp [hmetrics, hd.sendErrors, Attempt.fails, hsettles]
  · simp [hmetrics, hd.dropped, Attempt.fails, hsettles]

/-- The oldest message was offered, and leaves the outbox. -/
theorem settledOne (hd : Dispatching s h attempts)
    (hpending : h.pending = m :: ms) (ha : h.Carries m a.offered)
    (hsettles : a.settles = true)
    (hworld : s'.world.outgoing = s.world.outgoing ++ [a.sending])
    (hsent : s'.metrics.sent = s.metrics.sent + a.succeeds.toNat)
    (hbytes : s'.metrics.bytesSent = s.metrics.bytesSent + a.bytes)
    (herrors : s'.metrics.sendErrors = s.metrics.sendErrors + a.fails.toNat)
    (hdropped : s'.metrics.dropped = s.metrics.dropped + a.fails.toNat) :
    Dispatching s' (h.depart [a.recipient]) (attempts ++ [a]) := by
  have hdepart : h.depart [a.recipient] =
      { h with handOvers := h.handOvers ++ [⟨m, a.recipient⟩], pending := ms } := by
    simp [History.depart, hpending]
  have htaken : (h.depart [a.recipient]).taken = h.taken := by
    simp [History.taken, hdepart, hpending]
  have hcount (p : Attempt → Bool) :
      (attempts ++ [a]).countP p = attempts.countP p + (p a).toNat := by
    cases hp : p a <;> simp [List.countP_append, hp]
  constructor
  · simp [hworld, hd.outgoing]
  · rw [htaken]
    exact hd.offered_append hpending ha
  · have hlast : (attempts ++ [a]).filter Attempt.settles =
        attempts.filter Attempt.settles ++ [a] := by
      simp [List.filter_append, hsettles]
    rw [hlast, hdepart]
    exact List.rel_append hd.settled (.cons ⟨rfl, ha⟩ .nil)
  · rw [hsent, hd.sent, hcount]
  · simp [hbytes, hd.bytesSent]
  · rw [herrors, hd.sendErrors, hcount]
  · rw [hdropped, hd.dropped, hcount, hdepart]
    simp only
    omega

/-- The oldest message is offered. -/
theorem sendOldest (hd : Dispatching s h attempts) (ho : h.Ordered s.queue s.outbox) {b : Builder}
    {rest : List Builder} (houtbox : s.outbox = b :: rest) {outcome : LinkState.Sending}
    (hsend : s.sendOldest net.tapped b rest = (s', outcome)) (hlive : outcome ≠ .died) :
    ∃ attempts', Dispatching s' (h.depart outcome.log) attempts' ∧
      (h.depart outcome.log).Ordered s'.queue s'.outbox := by
  rw [houtbox] at ho
  obtain ⟨m, ms, hpending, hm, -, -⟩ := ho.exists_oldest .nobody
  have hleft (r : Recipient) : (h.depart [r]).Ordered s.queue rest := by
    obtain ⟨-, -, -, -, -, ho'⟩ := ho.exists_oldest r
    exact ho'
  have hbound : m < h.accepted.length := ho.bounded m (by simp [History.line, hpending])
  have hbytes : b.bytes = .ok b.buffer :=
    Builder.bytes_of_finished (ho.finished b (hm ▸ History.message_mem hbound))
  have hoffered : h.Carries m b.buffer := by
    simp [History.Carries, ← hm, History.message, List.getElem?_eq_getElem hbound]
  unfold LinkState.sendOldest at hsend
  simp only [hbytes] at hsend
  rcases hanswer : net.send b.buffer s.world.world with ⟨answer, w⟩
  have hcall : net.tapped.send b.buffer s.world = (answer, { s.world with
      world := w, outgoing := s.world.outgoing ++ [.datagram b.buffer answer] }) := by
    simp [Net.tapped, Tap.call, hanswer, Net.Call.sendings]
  rw [hcall] at hsend
  -- after an interruption, or while the socket is busy, the message stays at the head
  have hstays {e : IoError} (hanswer : (Attempt.mk b.buffer (.fail e)).settles = false) :
      ∃ attempts', Dispatching { s with world := { s.world with
          world := w, outgoing := s.world.outgoing ++ [.datagram b.buffer (.fail e)] } }
        (h.depart []) attempts' ∧ (h.depart []).Ordered s.queue s.outbox := by
    refine ⟨attempts ++ [⟨b.buffer, .fail e⟩], ?_, ?_⟩
    · rw [History.depart_nil]
      exact hd.unsettled hpending hoffered hanswer rfl rfl rfl
    · rwa [History.depart_nil, houtbox]
  rcases answer with n | e | _
  · obtain ⟨rfl, rfl⟩ := Prod.mk.inj hsend
    have hsettles : (Attempt.mk b.buffer (.ok n)).settles = true := rfl
    refine ⟨attempts ++ [⟨b.buffer, .ok n⟩],
      hd.settledOne hpending hoffered hsettles ?_ ?_ ?_ ?_ ?_, ?_⟩
    case refine_6 => simpa [LinkState.Sending.log, LinkState.countSent] using hleft .datagram
    all_goals
      simp [LinkState.countSent, Attempt.sending, Attempt.succeeds, Attempt.bytes, Attempt.fails]
  · by_cases hblocked : e = .wouldBlock
    · subst hblocked
      obtain ⟨rfl, rfl⟩ := Prod.mk.inj hsend
      exact hstays rfl
    by_cases hagain : e = .interrupted
    · subst hagain
      obtain ⟨rfl, rfl⟩ := Prod.mk.inj hsend
      exact hstays rfl
    · obtain ⟨rfl, rfl⟩ : s' = _ ∧ outcome = .givenUp := by
        simpa [hblocked, hagain, eq_comm] using hsend
      have hsettles : (Attempt.mk b.buffer (.fail e)).settles = true := by
        simp [Attempt.settles, hblocked, hagain]
      refine ⟨attempts ++ [⟨b.buffer, .fail e⟩],
        hd.settledOne hpending hoffered hsettles ?_ ?_ ?_ ?_ ?_, ?_⟩
      case refine_6 =>
        simpa [LinkState.Sending.log, LinkState.countSendError, LinkState.countDropped] using
          hleft .nobody
      all_goals
        simp [LinkState.countSendError, LinkState.countDropped, Attempt.sending, Attempt.succeeds,
          Attempt.bytes, Attempt.fails, hsettles]
  · exact absurd (Prod.mk.inj hsend).2.symm hlive

theorem died_of_sendOldest {b : Builder} {rest : List Builder}
    (hsend : s.sendOldest net.tapped b rest = (s', .died)) : s'.loopDied = true := by
  unfold LinkState.sendOldest at hsend
  split at hsend
  next => simp at hsend
  next => split at hsend <;> simp at hsend; simp [← hsend]

/-- Messages are offered one after the other. -/
theorem sendDatagrams (fuel : Nat) (hd : Dispatching s h attempts)
    (ho : h.Ordered s.queue s.outbox) (hlive : (s.sendDatagrams net.tapped fuel).loopDied = false) :
    ∃ attempts', Dispatching (s.sendDatagrams net.tapped fuel)
      (h.depart (s.sendings net.tapped fuel)) attempts' := by
  have hnone : ∃ attempts', Dispatching s (h.depart []) attempts' :=
    ⟨attempts, by rwa [History.depart_nil]⟩
  induction fuel generalizing s h attempts with
  | zero => exact hnone
  | succ fuel ih =>
    unfold LinkState.sendDatagrams at hlive ⊢
    unfold LinkState.sendings
    cases houtbox : s.outbox with
    | nil => exact hnone
    | cons b rest =>
      rcases hsend : s.sendOldest net.tapped b rest with ⟨s₁, outcome⟩
      simp only [houtbox, hsend] at hlive ⊢
      -- the calls that follow are those of a link with one attempt more
      have hmore (houtcome : outcome ≠ .died)
          (hlive : (s₁.sendDatagrams net.tapped fuel).loopDied = false) :
          ∃ attempts', Dispatching (s₁.sendDatagrams net.tapped fuel)
            ((h.depart outcome.log).depart (s₁.sendings net.tapped fuel)) attempts' := by
        obtain ⟨attempts₁, hd₁, ho₁⟩ := hd.sendOldest ho houtbox hsend houtcome
        exact ih hd₁ ho₁ hlive ⟨attempts₁, by rwa [History.depart_nil]⟩
      cases outcome with
      | sent =>
        rw [History.depart_cons]
        exact hmore (by simp) hlive
      | givenUp =>
        rw [History.depart_cons]
        exact hmore (by simp) hlive
      | again => simpa [LinkState.Sending.log, History.depart_nil] using hmore (by simp) hlive
      | blocked =>
        obtain ⟨attempts₁, hd₁, -⟩ := hd.sendOldest ho houtbox hsend (by simp)
        exact ⟨attempts₁, hd₁⟩
      | died => simp [died_of_sendOldest hsend] at hlive

/-! ### What the agreement says -/

/-- A message that was offered to no avail is the next one to be offered. -/
theorem again (hd : Dispatching s h attempts) {b : Attempt} {before behind : List Attempt}
    (hsplit : attempts = before ++ a :: b :: behind) (hsettles : a.settles = false) :
    b.offered = a.offered := by
  obtain ⟨m, hm, ha⟩ := hd.offered before a (b :: behind) hsplit
  obtain ⟨m', hm', hb⟩ := hd.offered (before ++ [a]) b behind (by simp [hsplit])
  have hcount : (before ++ [a]).countP Attempt.settles = before.countP Attempt.settles := by
    simp [List.countP_append, hsettles]
  obtain rfl : m = m' := Option.some.inj (hm.symm.trans (hcount ▸ hm'))
  exact Option.some.inj (hb.symm.trans ha)

/-- Until then it is the oldest message of the outbox. -/
theorem head_outbox (hd : Dispatching s h attempts) (ho : h.Ordered s.queue s.outbox)
    {before : List Attempt} (hsplit : attempts = before ++ [a]) (hsettles : a.settles = false) :
    s.outbox.head?.map Builder.buffer = some a.offered := by
  obtain ⟨m, hm, ha⟩ := hd.offered before a [] hsplit
  have hplace : before.countP Attempt.settles = h.handOvers.length := by
    rw [← hd.settled.length_eq, ← List.countP_eq_length_filter, hsplit]
    simp [List.countP_append, hsettles]
  have hfirst : h.pending.head? = some m := by
    rw [hplace, History.taken, List.getElem?_append_right (by simp)] at hm
    simpa [List.head?_eq_getElem?] using hm
  obtain ⟨b, hb, hbuffer⟩ := Option.map_eq_some_iff.1 ha
  have hmessage : h.message m = b := by simp [History.message, hb]
  rw [ho.outbox, List.head?_map, hfirst]
  simp [hmessage, hbuffer]

/-- The datagrams that the socket took are the messages that the history calls sent. -/
theorem succeeded (hd : Dispatching s h attempts) :
    List.Forall₂ (fun a o => o.recipient = a.recipient ∧ h.Carries o.message a.offered)
      (attempts.filter Attempt.succeeds) (h.handOvers.filter (·.recipient == .datagram)) := by
  have hsettles : attempts.filter Attempt.succeeds =
      (attempts.filter Attempt.settles).filter Attempt.succeeds := by
    rw [List.filter_filter]
    refine List.filter_congr fun a _ => ?_
    cases hsucceeds : a.succeeds <;> simp [hsucceeds, Attempt.settles_of_succeeds]
  rw [hsettles]
  refine List.rel_filter (fun a o hpair => ?_) hd.settled
  cases hsucceeds : a.succeeds <;> simp [hpair.1, Attempt.recipient, hsucceeds]

/-- The datagrams that the socket took are some of the accepted messages, in the order in which
these were accepted. -/
theorem sublist_accepted (hd : Dispatching s h attempts) (ho : h.Ordered s.queue s.outbox) :
    ((attempts.filter Attempt.succeeds).map Attempt.offered).Sublist
      (h.accepted.map Builder.buffer) := by
  let numbers := (h.handOvers.filter (·.recipient == .datagram)).map HandOver.message
  have hnumbers : numbers.Sublist h.line := by
    have hsome := List.Sublist.map HandOver.message
      (List.filter_sublist (l := h.handOvers) (p := (·.recipient == .datagram)))
    exact hsome.trans (by simp [History.line, List.append_assoc])
  have hmessages := History.Ordered.map_message_sublist (ho.ascending.sublist hnumbers)
    fun m hm => ho.bounded m (hnumbers.mem hm)
  have hbytes : (attempts.filter Attempt.succeeds).map Attempt.offered =
      (numbers.map h.message).map Builder.buffer := by
    simp only [numbers, List.map_map]
    rw [← List.forall₂_eq_eq_eq, List.forall₂_map_left_iff, List.forall₂_map_right_iff]
    refine hd.succeeded.imp fun a o hpair => ?_
    obtain ⟨b, hb, hbuffer⟩ := Option.map_eq_some_iff.1 hpair.2
    simp [History.message, hb, hbuffer]
  rw [hbytes]
  exact hmessages.map _

/-- A message that left the outbox is counted as sent if it was sent. -/
theorem sent_eq (hd : Dispatching s h attempts) :
    s.metrics.sent = h.handOvers.countP (·.recipient == .datagram) := by
  rw [hd.sent, List.countP_eq_length_filter, List.countP_eq_length_filter,
    hd.succeeded.length_eq]

/-- Otherwise it is counted as failed. -/
theorem sent_add_sendErrors (hd : Dispatching s h attempts) :
    s.metrics.sent + s.metrics.sendErrors = h.handOvers.length := by
  have hsent : attempts.countP (fun a => a.settles && a.succeeds) =
      attempts.countP Attempt.succeeds := by
    refine List.countP_congr fun a _ => ?_
    cases hsucceeds : a.succeeds <;> simp [Attempt.settles_of_succeeds, hsucceeds]
  rw [hd.sent, hd.sendErrors, ← hd.settled.length_eq, ← List.countP_eq_length_filter,
    List.countP_eq_countP_filter_add attempts Attempt.settles Attempt.succeeds,
    List.countP_filter, List.countP_filter, hsent]
  rfl

/-- If the socket takes datagrams whole, their sizes are counted. -/
theorem bytesSent_eq (hd : Dispatching s h attempts)
    (hwhole : ∀ a ∈ attempts, ∀ n, a.answer = .ok n → n = a.offered.size) :
    s.metrics.bytesSent =
      ((attempts.filter Attempt.succeeds).map fun a => a.offered.size).sum := by
  rw [hd.bytesSent]
  clear hd
  induction attempts with
  | nil => rfl
  | cons a rest ih =>
    have hrest := ih fun a ha => hwhole a (List.mem_cons_of_mem _ ha)
    cases hanswer : a.answer with
    | ok n =>
      obtain rfl := hwhole a (by simp) n hanswer
      simp [Attempt.bytes, Attempt.succeeds, hanswer, hrest]
    | _ => simp [Attempt.bytes, Attempt.succeeds, hanswer, hrest]

/-! ### Everything else -/

theorem getElem?_of_isPrefix {α : Type} {l l' : List α} {n : Nat} {x : α} (h : l <+: l')
    (hx : l[n]? = some x) : l'[n]? = some x := by
  obtain ⟨more, rfl⟩ := h
  obtain ⟨hn, -⟩ := List.getElem?_eq_some_iff.1 hx
  rwa [List.getElem?_append_left hn]

/-- Nothing was offered. Messages may have been accepted, taken into the outbox or given up. -/
theorem later (hd : Dispatching s h attempts) (haccepted : h.accepted <+: h'.accepted)
    (htaken : h.taken <+: h'.taken) (hhandOvers : h'.handOvers = h.handOvers)
    (hworld : s'.world.outgoing = s.world.outgoing) (hsent : s'.metrics.sent = s.metrics.sent)
    (hbytes : s'.metrics.bytesSent = s.metrics.bytesSent)
    (herrors : s'.metrics.sendErrors = s.metrics.sendErrors)
    (hdropped : s'.metrics.dropped + (h.refused + h.discarded.length) =
      s.metrics.dropped + (h'.refused + h'.discarded.length)) : Dispatching s' h' attempts := by
  have hcarries {m : Nat} {bytes : Bytes} (hm : h.Carries m bytes) : h'.Carries m bytes := by
    obtain ⟨b, hb, rfl⟩ := Option.map_eq_some_iff.1 hm
    exact Option.map_eq_some_iff.2 ⟨b, getElem?_of_isPrefix haccepted hb, rfl⟩
  constructor
  · rw [hworld, hd.outgoing]
  · intro before a behind hsplit
    obtain ⟨m, hm, hoffered⟩ := hd.offered before a behind hsplit
    exact ⟨m, getElem?_of_isPrefix htaken hm, hcarries hoffered⟩
  · rw [hhandOvers]
    exact hd.settled.imp fun _ _ hpair => ⟨hpair.1, hcarries hpair.2⟩
  · rw [hsent, hd.sent]
  · rw [hbytes, hd.bytesSent]
  · rw [herrors, hd.sendErrors]
  · have heq := hd.dropped
    omega

/-- Calls that send nothing leave all as it is. -/
theorem quiet (hd : Dispatching s h attempts) (hworld : s'.world.outgoing = s.world.outgoing)
    (hsent : s'.metrics.sent = s.metrics.sent) (hbytes : s'.metrics.bytesSent = s.metrics.bytesSent)
    (herrors : s'.metrics.sendErrors = s.metrics.sendErrors)
    (hdropped : s'.metrics.dropped = s.metrics.dropped) : Dispatching s' h attempts :=
  hd.later (List.prefix_refl _) (List.prefix_refl _) rfl hworld hsent hbytes herrors
    (by rw [hdropped])

end Dispatching

namespace Tap

variable {x x' : Tap σ}

theorem outgoing_of_hear {answer : Reply Bytes × σ} {r : Reply Bytes}
    (h : x.hear answer = (r, x')) : x'.outgoing = x.outgoing := by
  obtain ⟨-, rfl⟩ := Prod.mk.inj h
  rfl

/-- A call that takes no bytes sends nothing. -/
theorem outgoing_of_quiet (h : net.tapped.Quiet x x') : x'.outgoing = x.outgoing := by
  cases h with
  | read h => exact outgoing_of_hear h
  | receive h => exact outgoing_of_hear h
  | close conn => simp [Net.tapped, Tap.call, Net.Call.sendings]
  | closeAll => simp [Net.tapped, Tap.call, Net.Call.sendings]
  | _ h =>
    obtain ⟨-, rfl⟩ := Prod.mk.inj h
    simp [Net.Call.sendings]

theorem outgoing_of_quiets (h : net.tapped.Quiets x x') : x'.outgoing = x.outgoing := by
  induction h with
  | refl => rfl
  | tail _ hcall ih => exact (outgoing_of_quiet hcall).trans ih

end Tap

namespace System

variable {y : System (Tap σ)} {attempts : List Attempt} {a : Action}

/-- Datagrams are sent only when the loop hands messages on. -/
theorem dispatching_proceed (hcarrier : y.link.carrier = .datagrams)
    (ho : y.history.Ordered y.link.queue y.link.outbox)
    (hd : Dispatching y.link y.history attempts)
    (hlive : (y.proceed net.tapped).stage.isLive = true) (hno : y.stage ≠ .handing) :
    Dispatching (y.proceed net.tapped).link (y.proceed net.tapped).history attempts := by
  obtain ⟨s, stage, history⟩ := y
  dsimp only at hcarrier ho hd hno
  cases stage with
  | handing => exact absurd rfl hno
  | taking =>
    obtain ⟨pool, htaken⟩ := s.takeSubmissions_eq
    have hlength : s.queue.length = history.queued.length := by simp [ho.queue]
    have hkept : history.take ((s.outbox ++ s.queue.take s.room).length - s.outbox.length) =
        history.take s.room := by
      simp only [List.length_append, List.length_take, Nat.add_sub_cancel_left, hlength,
        History.take_min]
    simp only [proceed, htaken, hkept]
    refine hd.later (List.prefix_refl _) ?_ rfl rfl rfl rfl rfl ?_
    · simp only [History.taken, History.take, ← List.append_assoc]
      exact List.prefix_append _ _
    · simp only [History.take, List.length_append, List.length_drop, hlength]
      omega
  | reacting events =>
    cases events with
    | nil => exact hd
    | cons e rest =>
      have halive : (s.react net.tapped e).loopDied = false := alive_of_enter hlive
      simp only [proceed, enter, halive, Bool.false_eq_true, if_false]
      rcases s.react_of_datagrams net.tapped e hcarrier with hsame | ⟨fuel, hreact⟩
      · rw [hsame]
        exact hd.later (List.prefix_refl _) (List.prefix_refl _) rfl rfl rfl rfl rfl rfl
      · rcases s.discardDatagrams_cases net.tapped fuel with hdied | ⟨w, n, hcalls, heq⟩
        · simp [hreact, hdied] at halive
        · rw [hreact, heq]
          exact hd.later (List.prefix_refl _) (List.prefix_refl _) rfl
            (Tap.outgoing_of_quiets hcalls) rfl rfl rfl rfl
  | reopening =>
    have halive : (s.reopen net.tapped).loopDied = false := alive_of_enter hlive
    have hsame : s.reopen net.tapped = s := by simp [LinkState.reopen, hcarrier]
    rw [hsame] at halive
    simpa only [proceed, hsame, enter, halive, Bool.false_eq_true, if_false] using hd
  | leaving why => simp [proceed, Stage.isLive] at hlive
  | head | resting | waiting | ended | died => exact hd

/-- The end of a wait sends nothing. -/
theorem dispatching_answer (hd : Dispatching y.link y.history attempts) {r : Reply (List Event)}
    (hlive : (y.answer net.tapped r).stage.isLive = true) :
    Dispatching (y.answer net.tapped r).link (y.answer net.tapped r).history attempts := by
  rcases r with events | e | _
  · exact hd
  · by_cases hagain : e = .interrupted
    · subst hagain
      exact hd
    · simpa only [answer] using hd
  · exact absurd (alive_of_enter hlive) (by simp)

/-- Nothing but the handing on of messages sends datagrams. -/
theorem dispatching_step (hcarrier : y.link.carrier = .datagrams)
    (ho : y.history.Ordered y.link.queue y.link.outbox)
    (hd : Dispatching y.link y.history attempts)
    (hlive : (y.step net.tapped a).stage.isLive = true)
    (hno : a = .proceed → y.stage ≠ .handing) :
    Dispatching (y.step net.tapped a).link (y.step net.tapped a).history attempts := by
  rcases a.isCallers_or with hcallers | rfl | ⟨r, rfl⟩
  · have hcalled := called_step net.tapped y hcallers
    generalize y.step net.tapped a = y' at hcalled ⊢
    cases hcalled with
    | aside hcalls => exact hd.quiet (Tap.outgoing_of_quiets hcalls) rfl rfl rfl rfl
    | submitted _ _ _ _ hcall =>
      exact hd.later (List.prefix_append _ _) (List.prefix_refl _) rfl (Tap.outgoing_of_quiet hcall)
        rfl rfl rfl rfl
    | refused =>
      refine hd.later (List.prefix_refl _) (List.prefix_refl _) rfl rfl rfl rfl rfl ?_
      simp only [LinkState.countDropped, History.submit]
      omega
  · exact dispatching_proceed hcarrier ho hd hlive (hno rfl)
  · simp only [step] at hlive ⊢
    split at hlive
    next hwaiting =>
      rw [if_pos hwaiting]
      exact dispatching_answer hd hlive
    next hwaiting => rwa [if_neg hwaiting]

/-- When the loop hands messages on, they are sent as datagrams. -/
theorem dispatching_handing (hstage : y.stage = .handing) (hcarrier : y.link.carrier = .datagrams)
    (ho : y.history.Ordered y.link.queue y.link.outbox)
    (hd : Dispatching y.link y.history attempts)
    (hlive : (y.proceed net.tapped).stage.isLive = true) :
    ∃ attempts', Dispatching (y.proceed net.tapped).link (y.proceed net.tapped).history
      attempts' := by
  obtain ⟨s, stage, history⟩ := y
  subst hstage
  dsimp only at hcarrier ho hd
  have halive : (s.handOn net.tapped).loopDied = false := alive_of_enter hlive
  simp only [proceed, enter, halive, Bool.false_eq_true, if_false]
  simp only [LinkState.handOn, LinkState.departures, LinkState.offers, hcarrier,
    History.offer_nil] at halive ⊢
  exact hd.sendDatagrams _ ho halive

end System

/-- A link that sends datagrams did so before. -/
theorem Transition.datagrams {y y' : System σ} (h : Transition net y y')
    (hlive : y'.stage.isLive = true) (hcarrier : y'.link.carrier = .datagrams) :
    y.link.carrier = .datagrams := by
  cases h with
  | passed | aside | submitted | refused | took => exact hcarrier
  | worked _ _ _ _ ht => simp [ht] at hcarrier
  | sent _ _ _ hsent => exact hsent
  | heard _ _ _ hheard => exact hheard
  | left | died => simp [Stage.isLive] at hlive

/-! ## Runs -/

namespace Reachable

variable {w₀ : σ} {y : System (Tap σ)}

theorem exists_dispatching (h : Reachable net.tapped (.fresh w₀) y)
    (hcarrier : y.link.carrier = .datagrams) (hlive : y.stage.isLive = true) :
    ∃ attempts, Dispatching y.link y.history attempts := by
  induction h with
  | opened hopened =>
    obtain ⟨s, hfresh, rfl⟩ := LinkState.exists_fresh hopened
    cases hfresh with
    | datagrams hcalls =>
      refine ⟨[], Tap.outgoing_of_quiets hcalls, ?_, .nil, rfl, rfl, rfl, rfl⟩
      simp
    | closed | opening => simp at hcarrier
  | @step y a h ih =>
    have hlive' := System.isLive_of_step h.sound hlive
    have hcarrier' := (System.transition_step h.sound a).datagrams hlive hcarrier
    have ho := h.ordered (Stage.ne_died hlive')
    obtain ⟨attempts, hd⟩ := ih hcarrier' hlive'
    by_cases hhanding : a = .proceed ∧ y.stage = .handing
    · obtain ⟨rfl, hstage⟩ := hhanding
      exact System.dispatching_handing hstage hcarrier' ho hd hlive
    · exact ⟨attempts, System.dispatching_step hcarrier' ho hd hlive fun ha hstage =>
        hhanding ⟨ha, hstage⟩⟩

/-- Datagrams keep the order of the messages, and each message that leaves the outbox is counted
once. There is a list of the datagrams that were offered, with the answers, such that each offer is
of the first message that was not settled before, in the order in which the messages came into the
outbox. So a busy socket or an interrupted call leaves the message where it is, it is the next one
that is offered, and the failure of one message has no effect on another. -/
theorem datagrams_in_order (h : Reachable net.tapped (.fresh w₀) y)
    (hcarrier : y.link.carrier = .datagrams) (hlive : y.stage.isLive = true) :
    ∃ attempts : List Attempt,
      Dispatching y.link y.history attempts ∧
      y.history.taken.Pairwise (· < ·) ∧
      y.link.outbox = y.history.pending.map y.history.message ∧
      ((attempts.filter Attempt.succeeds).map Attempt.offered).Sublist
        (y.history.accepted.map Builder.buffer) ∧
      (∀ before a, attempts = before ++ [a] → a.settles = false →
        y.link.outbox.head?.map Builder.buffer = some a.offered) ∧
      (∀ before a b behind, attempts = before ++ a :: b :: behind → a.settles = false →
        b.offered = a.offered) ∧
      y.link.metrics.sent = y.history.handOvers.countP (·.recipient == .datagram) ∧
      y.link.metrics.sent + y.link.metrics.sendErrors = y.history.handOvers.length ∧
      ((∀ a ∈ attempts, ∀ n, a.answer = .ok n → n = a.offered.size) →
        y.link.metrics.bytesSent =
          ((attempts.filter Attempt.succeeds).map fun a => a.offered.size).sum) := by
  obtain ⟨attempts, hd⟩ := h.exists_dispatching hcarrier hlive
  have ho := h.ordered (Stage.ne_died hlive)
  have htaken : y.history.taken.Sublist y.history.line := List.sublist_append_left _ _
  exact ⟨attempts, hd, ho.ascending.sublist htaken, ho.outbox, hd.sublist_accepted ho,
    fun _ _ => hd.head_outbox ho, fun _ _ _ _ => hd.again, hd.sent_eq, hd.sent_add_sendErrors,
    hd.bytesSent_eq⟩

end Reachable

/-! ## A socket that answers from a script -/

/-- A network as `Net.scripted`, but the list says how the sending of datagrams is answered. -/
def Net.posting : Net (List (Reply Nat)) where
  __ := Net.scripted
  send _ w :=
    match w with
    | [] => (.fail .wouldBlock, [])
    | r :: rest => (r, rest)

/-- A call is interrupted, a message is sent, the socket is busy, the next message fails, and the
third one is sent. -/
theorem Reachable.datagrams_in_order_of_run :
    ∃ (y : System (Tap (List (Reply Nat)))) (attempts : List Attempt),
      Reachable Net.posting.tapped
        (.fresh [.fail .interrupted, .ok 8, .fail .wouldBlock, .fail .connectionRefused, .ok 8]) y ∧
      y.link.carrier = .datagrams ∧ y.stage.isLive = true ∧
      Dispatching y.link y.history attempts ∧ attempts.length = 5 ∧
      attempts.countP Attempt.succeeds = 2 ∧ attempts.countP Attempt.fails = 1 ∧
      (attempts.map Attempt.bytes).sum = 16 ∧ y.history.handOvers.length = 3 := by
  obtain ⟨y, hreach, hy⟩ := exists_of_run Net.posting.tapped
    (.fresh [.fail .interrupted, .ok 8, .fail .wouldBlock, .fail .connectionRefused, .ok 8])
    "udp://127.0.0.1:0" "udp://10.9.8.7:30010" {}
    (List.replicate 3 (.submit .bare) ++ List.replicate 4 .proceed ++
      [.wake (.fail .interrupted)] ++ List.replicate 3 .proceed)
    (fun y => y.link.carrier == .datagrams && y.stage.isLive && y.link.world.outgoing.length == 5 &&
      y.link.metrics.sent == 2 && y.link.metrics.sendErrors == 1 &&
      y.link.metrics.bytesSent == 16) (by cbv)
  simp only [Bool.and_eq_true, beq_iff_eq] at hy
  obtain ⟨⟨⟨⟨⟨hcarrier, hlive⟩, houtgoing⟩, hsent⟩, herrors⟩, hbytes⟩ := hy
  obtain ⟨attempts, hd, -, -, -, -, -, -, hcount, -⟩ := hreach.datagrams_in_order hcarrier hlive
  refine ⟨y, attempts, hreach, hcarrier, hlive, hd, ?_, hd.sent ▸ hsent, hd.sendErrors ▸ herrors,
    hd.bytesSent ▸ hbytes, ?_⟩
  · simpa [hd.outgoing] using houtgoing
  · rw [← hcount, hsent, herrors]

end ArmStream
