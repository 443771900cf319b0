import Mathlib
import ArmStream.Proofs.Conservation
import ArmStream.Proofs.Delivery

/-!
# Frames are counted as sent or dropped

A frame is sent when the stream took its last byte. The counters follow the streams offer by offer,
and each offer that does not fail counts all frames that it completes. One that fails counts none:
the frames that it completed stay in the list of its peer, and are counted as dropped when the loop
parts with the peer. So the counters are exact up to these frames.

## Main definitions

- `History.credited`, `History.lost`: the frames that offers completed, counted and not counted.
- `System.closedStreams`: the streams that are no longer served.

## Main statements

- `Delivering.sum_completed`: each complete frame was completed in one offer.
- `Reachable.sent_eq_credited`: the counter of sent messages is that of the offers.
- `Reachable.send_accounting_exact_iff`: by how much the counters are wrong, and when not at all.
-/

namespace ArmStream

variable {σ : Type} {net : Net σ}

def Account.incomplete (a : Account) : Nat := a.frames.length - a.completed

theorem Account.completed_add_incomplete (a : Account) :
    a.completed + a.incomplete = a.frames.length := by
  have hle : a.completed ≤ a.frames.length :=
    List.countP_le_length.trans_eq (Frame.length_ends 0 a.frames)
  exact Nat.add_sub_cancel' hle

/-- The list of a peer has the frames that its stream has not taken completely. -/
theorem Peer.Settled.length_frameEnds {p : Peer} {a : Account} (h : p.Settled a) :
    p.frameEnds.length = a.incomplete := by
  have hlength := congrArg List.length h.ends
  have hsplit := List.length_eq_countP_add_countP (l := Frame.ends 0 a.frames)
    (p := (· ≤ a.taken.length))
  rw [List.length_map, ← List.countP_eq_length_filter] at hlength
  simp only [decide_eq_true_eq, Nat.not_le, Frame.length_ends] at hsplit
  rw [Account.incomplete, Account.completed, Frame.completed, hsplit, hlength,
    Nat.add_sub_cancel_left]

namespace History

/-- The frames that were completed in offers that did not fail. -/
def credited (h : History) : Nat :=
  ((h.offers.filter fun o => !o.failed).map Offer.frames).sum

/-- The frames that were completed in offers that failed later. -/
def lost (h : History) : Nat := ((h.offers.filter Offer.failed).map Offer.frames).sum

def withheld (h : History) : Nat := h.handOvers.countP fun o => o.recipient.conn? = none

theorem credited_add_lost (h : History) :
    h.credited + h.lost = (h.offers.map Offer.frames).sum := by
  unfold credited lost
  induction h.offers with
  | nil => rfl
  | cons o os ih =>
    rw [List.map_cons, List.sum_cons, ← ih]
    cases ho : o.failed with
    | true =>
      rw [List.filter_cons_of_neg (by simp [ho]), List.filter_cons_of_pos ho, List.map_cons,
        List.sum_cons]
      omega
    | false =>
      rw [List.filter_cons_of_pos (by simp [ho]), List.filter_cons_of_neg (by simp [ho]),
        List.map_cons, List.sum_cons]
      omega

@[simp] theorem credited_depart (h : History) (recipients : List Recipient) :
    (h.depart recipients).credited = h.credited := rfl

theorem credited_offer (h : History) (o : Offer) :
    (h.offer [o]).credited = h.credited + if o.failed then 0 else o.frames := by
  by_cases ho : o.failed = true <;> simp [credited, offer, ho]

theorem lost_eq_zero_iff (h : History) :
    h.lost = 0 ↔ ∀ o ∈ h.offers, o.failed = true → o.frames = 0 := by
  rw [lost, List.sum_eq_zero_iff_forall_eq_nat, List.forall_mem_map]
  simp only [List.mem_filter, and_imp]

end History

/-! ## Sums over all streams -/

/-- What is split up by streams adds up again, apart from what belongs to none. -/
theorem sum_filter_conn {α : Type} (conn? : α → Option Conn) (f : α → Nat) {n : Nat} {l : List α}
    (h : ∀ a ∈ l, ∀ c, conn? a = some c → c < n) :
    ∑ c ∈ Finset.range n, ((l.filter fun a => conn? a = some c).map f).sum =
      ((l.filter fun a => (conn? a).isSome).map f).sum := by
  induction l with
  | nil => simp
  | cons a l ih =>
    have hrest := ih fun b hb => h b (List.mem_cons_of_mem a hb)
    have hsplit (c : Conn) : (((a :: l).filter fun a => conn? a = some c).map f).sum =
        (if conn? a = some c then f a else 0) +
          ((l.filter fun a => conn? a = some c).map f).sum := by
      by_cases hc : conn? a = some c <;> simp [hc]
    have hself : ∑ c ∈ Finset.range n, (if conn? a = some c then f a else 0) =
        if (conn? a).isSome then f a else 0 := by
      cases hconn : conn? a with
      | none => simp
      | some k => simp [h a (by simp) k hconn]
    rw [Finset.sum_congr rfl fun c _ => hsplit c, Finset.sum_add_distrib, hself, hrest]
    by_cases hsome : (conn? a).isSome <;> simp [hsome]

namespace Delivering

variable {h : History} {r : Recording σ} {t : Streams} {doomed : List Token}

theorem conn_lt_of_offer (hd : Delivering h r t doomed) {o : Offer} (ho : o ∈ h.offers) :
    o.conn < r.names.length := by
  by_contra hle
  have hnone : h.offersTo o.conn = [] :=
    congrArg Account.offers (hd.untouched o.conn (.inl (Nat.le_of_not_lt hle)))
  simp only [History.offersTo, List.filter_eq_nil_iff, decide_eq_true_eq] at hnone
  exact hnone o ho rfl

theorem conn_lt_of_handOver (hd : Delivering h r t doomed) {o : HandOver} (ho : o ∈ h.handOvers)
    {c : Conn} (hc : o.recipient.conn? = some c) : c < r.names.length := by
  by_contra hle
  have hnone : h.framesTo c = [] :=
    congrArg Account.frames (hd.untouched c (.inl (Nat.le_of_not_lt hle)))
  simp only [History.framesTo, History.messagesTo, List.map_eq_nil_iff, List.filter_eq_nil_iff,
    decide_eq_true_eq] at hnone
  exact hnone o ho hc

/-- Each complete frame was completed in one offer. -/
theorem sum_completed (hd : Delivering h r t doomed) :
    ∑ c ∈ Finset.range r.names.length, (h.account r c).completed = h.credited + h.lost := by
  have hoffers (c : Conn) : (h.account r c).completed =
      ((h.offers.filter fun o => some o.conn = some c).map Offer.frames).sum := by
    rw [(hd.balanced c).completed]
    simp [History.account, History.offersTo]
  rw [Finset.sum_congr rfl fun c _ => hoffers c, sum_filter_conn fun o : Offer => some o.conn,
    h.credited_add_lost]
  · simp
  · exact fun o ho c hc => Option.some.inj hc ▸ hd.conn_lt_of_offer ho

/-- Each message that left the outbox is a frame of one stream, or was withheld. -/
theorem sum_frames (hd : Delivering h r t doomed) :
    ∑ c ∈ Finset.range r.names.length, (h.account r c).frames.length + h.withheld =
      h.handOvers.length := by
  have hframes (c : Conn) : (h.account r c).frames.length =
      ((h.handOvers.filter fun o => o.recipient.conn? = some c).map fun _ => 1).sum := by
    simp [History.account, History.framesTo, History.messagesTo]
  have hsplit := List.length_eq_countP_add_countP (l := h.handOvers)
    (p := fun o => o.recipient.conn?.isSome)
  rw [Finset.sum_congr rfl fun c _ => hframes c,
    sum_filter_conn fun o : HandOver => o.recipient.conn?]
  · simp only [Option.not_isSome_iff_eq_none] at hsplit
    rw [hsplit, History.withheld]
    simp [List.countP_eq_length_filter]
  · exact fun o ho c hc => hd.conn_lt_of_handOver ho hc

/-- The frames in the lists of the peers are those that their streams have not taken completely. -/
theorem sum_conns (hd : Delivering h r t []) :
    ∑ c ∈ t.conns.toFinset, (h.account r c).incomplete = t.unsentFrames := by
  have hopening : (t.connecting.toList.map fun c => (h.account r c).incomplete).sum = 0 := by
    cases hconnecting : t.connecting with
    | none => rfl
    | some c => simp [hd.untouched c (.inr hconnecting), Account.incomplete]
  have hpeers : t.peers.map (fun q => (h.account r q.2.conn).incomplete) =
      t.peers.map fun q => q.2.frameEnds.length :=
    List.map_congr_left fun q hq => (hd.settled q hq (by simp)).length_frameEnds.symm
  rw [List.sum_toFinset _ hd.nodup, Streams.conns, List.map_append, List.sum_append, hopening,
    List.map_map, Streams.unsentFrames, Nat.zero_add]
  exact congrArg List.sum hpeers

end Delivering

/-! ## The counter of sent messages -/

/-- A move counts the frames that its offer completed, if the offer did not fail. -/
theorem Move.credited {h : History} {x y : Working (Recording σ)} {log : List Deed}
    (hmove : Move net.recorded x log y) (hy : y.link.loopDied = false)
    (hd : Delivering h x.link.world x.streams x.doomed)
    (hsent : x.link.metrics.sent = h.credited) :
    y.link.metrics.sent = (log.foldl History.record h).credited := by
  cases hmove with
  | died hdied => simp [hdied] at hy
  | handedOver => simpa [History.record] using hsent
  | withheld => simpa [History.record, LinkState.countDropped] using hsent
  | @offered s t d k p pre post hpeers hk _ =>
    have hserves := hd.serves (k, p) (by simp [hpeers])
    have hlisted := hd.settled (k, p) (by simp [hpeers]) hk
    have hcredit := h.credited_offer (.made p (p.flush net.recorded s.world))
    have hbefore : s.metrics.sent = h.credited := hsent
    simp only [List.foldl_cons, List.foldl_nil, History.record, hcredit,
      LinkState.noteWritten_sent, hbefore]
    by_cases hsettled : (p.flush net.recorded s.world).outcome = .settled
    · have hframes := (hlisted.flush hserves hsettled).2
      simp [hframes, Offer.made, hsettled]
    · have hframes : (p.flush net.recorded s.world).frames = 0 := by
        have hend := (p.flush_eq net.recorded s.world).2
        grind
      simp [hframes, Offer.made, hsettled]
  | _ => exact hsent

theorem Moves.credited {h : History} {x y : Working (Recording σ)} {log : List Deed}
    (hmoves : Moves net.recorded x log y) (hy : y.link.loopDied = false) (ht : x.streams.Sound)
    (ho : h.Ordered x.link.queue x.link.outbox)
    (hd : Delivering h x.link.world x.streams x.doomed)
    (hsent : x.link.metrics.sent = h.credited) :
    y.link.metrics.sent = (log.foldl History.record h).credited := by
  induction hmoves generalizing h with
  | refl => exact hsent
  | step hmove hmoves ih =>
    have halive := hmoves.alive hy
    rw [List.foldl_append]
    exact ih hy (hmove.sound halive ht) (ho.move hmove halive) (hd.move hmove halive ht ho)
      (hmove.credited halive hd hsent)

/-! ## Systems -/

theorem History.accepted_foldl_record (h : History) (log : List Deed) :
    (log.foldl record h).accepted = h.accepted := by
  induction log generalizing h with
  | nil => rfl
  | cons deed log ih =>
    rw [List.foldl_cons, ih]
    cases deed <;> rfl

theorem Transition.submitted_eq {y y' : System σ} (h : Transition net y y')
    (hy : y.stage ≠ .died → y.link.metrics.submitted = y.history.accepted.length)
    (hlive : y'.stage ≠ .died) :
    y'.link.metrics.submitted = y'.history.accepted.length := by
  cases h with
  | passed hl _ => exact hy (Stage.ne_died hl)
  | aside => exact hy hlive
  | submitted =>
    simp [LinkState.queued, LinkState.countSubmitted, History.submit, hy hlive]
  | refused => exact hy hlive
  | took hl _ => exact hy (Stage.ne_died hl)
  | worked hl _ halive _ _ hmoves =>
    rw [History.accepted_foldl_record, (hmoves.queue halive).2]
    exact hy (Stage.ne_died hl)
  | sent hl _ halive _ hsends =>
    rw [(hsends.counted halive).2.1]
    exact hy (Stage.ne_died hl)
  | heard n hl => exact hy (Stage.ne_died hl)
  | left hl =>
    obtain ⟨pool, hleave⟩ := y.link.leave_eq net
    rw [hleave]
    exact hy (Stage.ne_died hl)
  | died => exact absurd rfl hlive

theorem Transition.sent_eq_credited {y y' : System (Recording σ)} (hy : y.Sound)
    (ho : y.stage ≠ .died → y.history.Ordered y.link.queue y.link.outbox)
    (hd : y.stage ≠ .died → ∀ t, y.link.carrier = .streams t →
      Delivering y.history y.link.world t [])
    (h : Transition net.recorded y y')
    (hsent : y.stage ≠ .died → ∀ t, y.link.carrier = .streams t →
      y.link.metrics.sent = y.history.credited)
    (hlive : y'.stage ≠ .died) {t : Streams} (ht : y'.link.carrier = .streams t) :
    y'.link.metrics.sent = y'.history.credited := by
  cases h with
  | passed hl _ => exact hsent (Stage.ne_died hl) t ht
  | aside => exact hsent hlive t ht
  | submitted => exact hsent hlive t ht
  | refused => exact hsent hlive t ht
  | took hl _ => exact hsent (Stage.ne_died hl) t ht
  | worked hl _ halive hcarrier _ hmoves =>
    have hbefore := hsent (Stage.ne_died hl) _ hcarrier
    exact hmoves.credited halive (hy.streams hl _ hcarrier) (ho (Stage.ne_died hl))
      (hd (Stage.ne_died hl) _ hcarrier) hbefore
  | sent hl _ halive hcarrier hsends =>
    exact absurd ht (hsends.carrier_ne halive hcarrier t)
  | heard n hl => exact hsent (Stage.ne_died hl) t ht
  | left hl =>
    obtain ⟨pool, hleave⟩ := y.link.leave_eq net.recorded
    rw [hleave] at ht ⊢
    exact hsent (Stage.ne_died hl) t ht
  | died => exact absurd rfl hlive

namespace System

def openStreams (y : System σ) : List Conn :=
  match y.stage.isLive, y.link.carrier with
  | true, .streams t => t.conns
  | _, _ => []

/-- The streams that were there and are no longer served. -/
def closedStreams (y : System (Recording σ)) : Finset Conn :=
  Finset.range y.link.world.names.length \ y.openStreams.toFinset

def account (y : System (Recording σ)) (c : Conn) : Account := y.history.account y.link.world c

/-- The frames of which a stream took the last byte. -/
def completed (y : System (Recording σ)) : Nat :=
  ∑ c ∈ Finset.range y.link.world.names.length, (y.account c).completed

/-- The frames that were handed to a stream which was closed before it took their last byte. -/
def cutOff (y : System (Recording σ)) : Nat := ∑ c ∈ y.closedStreams, (y.account c).incomplete

end System

namespace Reachable

theorem submitted_eq {w₀ : σ} {y : System σ} (h : Reachable net w₀ y) (hdied : y.stage ≠ .died) :
    y.link.metrics.submitted = y.history.accepted.length := by
  refine induction
    (P := fun y => y.stage ≠ .died → y.link.metrics.submitted = y.history.accepted.length)
    ?_ ?_ h hdied
  · intro s hfresh _
    cases hfresh <;> rfl
  · intro y y' _ hy hstep hlive
    exact hstep.submitted_eq hy hlive

variable {w₀ : σ} {y : System (Recording σ)} {t : Streams}

theorem sent_eq_credited (h : Reachable net.recorded (.fresh w₀) y) (hdied : y.stage ≠ .died)
    (ht : y.link.carrier = .streams t) : y.link.metrics.sent = y.history.credited := by
  refine induction
    (P := fun y => y.stage ≠ .died → ∀ t, y.link.carrier = .streams t →
      y.link.metrics.sent = y.history.credited) ?_ ?_ h hdied t ht
  · intro s hfresh _ _ _
    cases hfresh <;> rfl
  · intro y y' hy hsent hstep hlive t ht
    exact hstep.sent_eq_credited hy.sound hy.ordered (fun hd t ht => hy.delivering hd ht) hsent
      hlive ht

/-- The frames that are not complete were cut off, or wait with a peer of a loop that is there. -/
theorem sum_incomplete (h : Reachable net.recorded (.fresh w₀) y) (hdied : y.stage ≠ .died)
    (ht : y.link.carrier = .streams t) :
    ∑ c ∈ Finset.range y.link.world.names.length, (y.account c).incomplete =
      y.cutOff + if y.stage.isLive then t.unsentFrames else 0 := by
  have hd := h.delivering hdied ht
  cases hlive : y.stage.isLive with
  | true =>
    have hopen : y.openStreams = t.conns := by simp [System.openStreams, hlive, ht]
    have hsubset : t.conns.toFinset ⊆ Finset.range y.link.world.names.length := by
      intro c hc
      exact Finset.mem_range.2 (hd.known c (List.mem_toFinset.1 hc))
    rw [System.cutOff, System.closedStreams, hopen, if_pos rfl, ← hd.sum_conns]
    exact (Finset.sum_sdiff hsubset).symm
  | false =>
    have hopen : y.openStreams = [] := by simp [System.openStreams, hlive]
    simp [System.cutOff, System.closedStreams, hopen]

/-- Complete frames are counted as sent, unless the offer that completed them failed later. -/
theorem completed_eq (h : Reachable net.recorded (.fresh w₀) y) (hdied : y.stage ≠ .died)
    (ht : y.link.carrier = .streams t) :
    y.completed = y.link.metrics.sent + y.history.lost := by
  rw [h.sent_eq_credited hdied ht]
  exact (h.delivering hdied ht).sum_completed

/-- Dropped are the messages that were refused, given up or withheld, the frames that were cut off,
and the complete frames that are not counted as sent. -/
theorem dropped_eq (h : Reachable net.recorded (.fresh w₀) y) (hdied : y.stage ≠ .died)
    (ht : y.link.carrier = .streams t) :
    y.link.metrics.dropped = y.history.refused + y.history.discarded.length +
      y.history.withheld + y.cutOff + y.history.lost := by
  have ho := h.ordered hdied
  have hqueue : y.link.queue.length = y.history.queued.length := by simp [ho.queue]
  have houtbox : y.link.outbox.length = y.history.pending.length := by simp [ho.outbox]
  have htotal := ho.total
  have hsubmitted := h.submitted_eq hdied
  have hcompleted := h.completed_eq hdied ht
  have hincomplete := h.sum_incomplete hdied ht
  have hframes : y.completed + ∑ c ∈ Finset.range y.link.world.names.length,
      (y.account c).incomplete + y.history.withheld = y.history.handOvers.length := by
    rw [System.completed, ← Finset.sum_add_distrib, ← (h.delivering hdied ht).sum_frames]
    exact congrArg (· + _) (Finset.sum_congr rfl fun c _ => (y.account c).completed_add_incomplete)
  simp only [History.line, List.length_append, List.length_map] at htotal
  rcases Stage.live_or_ended hdied with hlive | hend
  · have hbalanced := h.balanced.live hlive
    simp only [LinkState.backlog, LinkState.unsentFrames_eq, ht, Carrier.unsentFrames]
      at hbalanced
    rw [if_pos hlive] at hincomplete
    omega
  · have hbalanced := h.balanced.ended hend
    obtain ⟨hqueue', houtbox'⟩ := h.sound.emptied hend
    rw [if_neg (by simp [hend, Stage.isLive])] at hincomplete
    simp only [hqueue', houtbox', List.length_nil] at hqueue houtbox
    omega

/-- The counter of sent messages lacks the frames that were completed in offers which failed later,
and these are counted as dropped. So both counters are right if and only if no offer that failed
had completed a frame. -/
theorem send_accounting_exact_iff (h : Reachable net.recorded (.fresh w₀) y)
    (hdied : y.stage ≠ .died) (ht : y.link.carrier = .streams t) :
    y.completed = y.link.metrics.sent + y.history.lost ∧
    y.link.metrics.dropped = y.history.refused + y.history.discarded.length +
      y.history.withheld + y.cutOff + y.history.lost ∧
    (y.link.metrics.sent = y.completed ∧
        y.link.metrics.dropped = y.history.refused + y.history.discarded.length +
          y.history.withheld + y.cutOff ↔
      ∀ o ∈ y.history.offers, o.failed = true → o.frames = 0) := by
  have hcompleted := h.completed_eq hdied ht
  have hdropped := h.dropped_eq hdied ht
  refine ⟨hcompleted, hdropped, ?_⟩
  rw [← History.lost_eq_zero_iff]
  omega

/-- A stream takes one frame and, later, a part of the next before a write fails. -/
theorem send_accounting_exact_iff_of_run :
    ∃ y : System (Recording (List (Reply Nat))),
      Reachable Net.scripted.recorded
        (.fresh [.ok 12, .fail .wouldBlock, .ok 3, .fail .brokenPipe]) y ∧
      y.stage ≠ .died ∧ (∃ t, y.link.carrier = .streams t) ∧
      y.history.lost = 0 ∧ y.link.metrics.sent = 1 ∧ y.completed = 1 ∧
      y.link.metrics.dropped = 1 ∧ y.cutOff = 1 := by
  obtain ⟨y, hreach, hy⟩ := exists_of_run Net.scripted.recorded
    (.fresh [.ok 12, .fail .wouldBlock, .ok 3, .fail .brokenPipe])
    "tcp://127.0.0.1:0" "tcp://10.9.8.7:30010" {}
    (Action.firstRound ++ List.replicate 2 (.submit .bare) ++ List.replicate 4 .proceed ++
      [.wake (.ok [{ token := Token.outbound, writable := true }]), .proceed])
    (fun y => y.stage != .died && y.link.carrier != .datagrams && y.history.lost == 0 &&
      y.link.metrics.sent == 1 && y.link.metrics.dropped == 1 && y.cutOff == 1) (by cbv)
  simp only [Bool.and_eq_true, beq_iff_eq, bne_iff_ne] at hy
  obtain ⟨⟨⟨⟨⟨hdied, hcarrier⟩, hlost⟩, hsent⟩, hdropped⟩, hcutOff⟩ := hy
  obtain ⟨t, ht⟩ := Carrier.exists_streams hcarrier
  obtain ⟨-, -, hexact⟩ := hreach.send_accounting_exact_iff hdied ht
  obtain ⟨hright, -⟩ := hexact.2 (y.history.lost_eq_zero_iff.1 hlost)
  exact ⟨y, hreach, hdied, ⟨t, ht⟩, hlost, hsent, hright ▸ hsent, hdropped, hcutOff⟩

/-- A stream takes one of two frames before a write fails, in the same offer. The frame is complete
but counted as dropped. -/
theorem sent_zero_of_failed_offer :
    ∃ y : System (Recording (List (Reply Nat))),
      Reachable Net.scripted.recorded (.fresh [.ok 12, .fail .brokenPipe]) y ∧
      y.stage = .resting ∧ (∃ t, y.link.carrier = .streams t) ∧
      y.completed = 1 ∧ y.link.metrics.sent = 0 ∧ y.cutOff = 1 ∧ y.link.metrics.dropped = 2 := by
  obtain ⟨y, hreach, hy⟩ := exists_of_run Net.scripted.recorded
    (.fresh [.ok 12, .fail .brokenPipe]) "tcp://127.0.0.1:0" "tcp://10.9.8.7:30010" {}
    (Action.firstRound ++ List.replicate 2 (.submit .bare) ++ List.replicate 3 .proceed)
    (fun y => y.stage == .resting && y.link.carrier != .datagrams && y.completed == 1 &&
      y.link.metrics.sent == 0 && y.cutOff == 1 && y.link.metrics.dropped == 2) (by cbv)
  simp only [Bool.and_eq_true, beq_iff_eq, bne_iff_ne] at hy
  obtain ⟨⟨⟨⟨⟨hstage, hcarrier⟩, hcompleted⟩, hsent⟩, hcutOff⟩, hdropped⟩ := hy
  exact ⟨y, hreach, hstage, Carrier.exists_streams hcarrier, hcompleted, hsent, hcutOff, hdropped⟩

end Reachable

end ArmStream
