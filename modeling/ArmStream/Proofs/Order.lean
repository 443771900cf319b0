import ArmStream.Proofs.Steps

/-!
# Messages keep their order

The numbers of the messages that left the outbox, of those in the outbox and of those in the queue
form one ascending line. A message moves along this line or is given up, and never comes back. So
no message is handed on twice, or before an older one.

## Main definitions

- `History.line`: the numbers of the messages that were handed on or wait.
- `History.Ordered`: the line is ascending, and the queue and the outbox follow it.

## Main statements

- `History.Ordered.move`, `History.Ordered.sends`: what the loop does keeps the order.
- `Reachable.ordered`: the order holds in each reachable system.
-/

namespace ArmStream

variable {σ : Type} {net : Net σ}

namespace History

def message (h : History) (m : Nat) : Builder := h.accepted.getD m Builder.empty

theorem message_mem {h : History} {m : Nat} (hm : m < h.accepted.length) :
    h.message m ∈ h.accepted := by
  simp [message, List.getElem?_eq_getElem hm]

/-- No more messages are taken than there are. -/
theorem take_min (h : History) (n : Nat) : h.take (min n h.queued.length) = h.take n := by
  have hkept : h.queued.take (min n h.queued.length) = h.queued.take n :=
    List.take_eq_take_min.symm
  have hlost : h.queued.drop (min n h.queued.length) = h.queued.drop n := by
    rcases Nat.le_total n h.queued.length with hle | hle
    · rw [Nat.min_eq_left hle]
    · rw [Nat.min_eq_right hle, List.drop_length, List.drop_of_length_le hle]
  rw [take, take, hkept, hlost]

/-- The numbers of the messages that left the outbox, are in it, or are in the queue. -/
def line (h : History) : List Nat := h.handOvers.map HandOver.message ++ h.pending ++ h.queued

/-- Messages stand in the order of their numbers, and each is handed on, waits or was given up. -/
structure Ordered (h : History) (queue outbox : List Builder) : Prop where
  ascending : h.line.Pairwise (· < ·)
  bounded : ∀ m ∈ h.line, m < h.accepted.length
  queue : queue = h.queued.map h.message
  outbox : outbox = h.pending.map h.message
  finished : ∀ b ∈ h.accepted, b.finished = true
  total : h.accepted.length = h.line.length + h.discarded.length

namespace Ordered

variable {h : History} {queue outbox : List Builder}

theorem empty : Ordered {} [] [] := ⟨.nil, by simp [line], rfl, rfl, by simp, rfl⟩

/-- A message joins the line at its end. -/
theorem submit (ho : h.Ordered queue outbox) {b : Builder} (hb : b.finished = true) :
    (h.submit b (.ok ())).Ordered (queue ++ [b]) outbox := by
  have hline : (h.submit b (.ok ())).line = h.line ++ [h.accepted.length] := by
    simp [line, History.submit]
  have hold (l : List Nat) (hl : ∀ m ∈ l, m ∈ h.line) :
      l.map (h.submit b (.ok ())).message = l.map h.message := by
    refine List.map_congr_left fun m hm => ?_
    simp [message, History.submit, List.getElem?_append_left (ho.bounded m (hl m hm))]
  have hnew : (h.submit b (.ok ())).message h.accepted.length = b := by
    simp [message, History.submit]
  constructor
  · rw [hline]
    exact List.pairwise_append.2
      ⟨ho.ascending, List.pairwise_singleton _ _, by simpa using ho.bounded⟩
  · intro m hm
    rw [hline, List.mem_append, List.mem_singleton] at hm
    change m < (h.accepted ++ [b]).length
    rw [List.length_append, List.length_singleton]
    rcases hm with hm | rfl
    · exact Nat.lt_succ_of_lt (ho.bounded m hm)
    · exact Nat.lt_succ_self _
  · change queue ++ [b] = (h.queued ++ [h.accepted.length]).map _
    rw [List.map_append, hold h.queued (by simp +contextual [line]), ← ho.queue, List.map_singleton,
      hnew]
  · exact ho.outbox.trans (hold h.pending (by simp +contextual [line])).symm
  · intro c hc
    rcases List.mem_append.1 hc with hc | hc
    · exact ho.finished c hc
    · exact List.mem_singleton.1 hc ▸ hb
  · have htotal := ho.total
    change (h.accepted ++ [b]).length = _ + h.discarded.length
    simp only [hline, List.length_append, List.length_singleton]
    omega

theorem refuse (ho : h.Ordered queue outbox) :
    Ordered { h with refused := h.refused + 1 } queue outbox :=
  ⟨ho.ascending, ho.bounded, ho.queue, ho.outbox, ho.finished, ho.total⟩

/-- The oldest message leaves the outbox. -/
theorem exists_oldest {b : Builder} {rest : List Builder} (ho : h.Ordered queue (b :: rest))
    (r : Recipient) :
    ∃ m ms, h.pending = m :: ms ∧ h.message m = b ∧
      h.depart [r] = { h with handOvers := h.handOvers ++ [⟨m, r⟩], pending := ms } ∧
      (h.depart [r]).Ordered queue rest := by
  obtain ⟨m, ms, hpending, hm, hms⟩ := List.map_eq_cons_iff.1 ho.outbox.symm
  have hdepart : h.depart [r] =
      { h with handOvers := h.handOvers ++ [⟨m, r⟩], pending := ms } := by
    simp [depart, hpending]
  have hline : (h.depart [r]).line = h.line := by
    simp [line, hdepart, hpending]
  refine ⟨m, ms, hpending, hm, hdepart, ?_⟩
  constructor
  · exact hline ▸ ho.ascending
  · exact hline ▸ ho.bounded
  · exact ho.queue
  · rw [hdepart]
    exact hms.symm
  · exact ho.finished
  · exact hline ▸ ho.total

theorem offer (ho : h.Ordered queue outbox) (os : List Offer) :
    (h.offer os).Ordered queue outbox :=
  ⟨ho.ascending, ho.bounded, ho.queue, ho.outbox, ho.finished, ho.total⟩

/-- The queue is emptied. What the outbox has no room for leaves the line. -/
theorem take (ho : h.Ordered queue outbox) (n : Nat) :
    (h.take (min n queue.length)).Ordered [] (outbox ++ queue.take n) := by
  have hlength : queue.length = h.queued.length := by simp [ho.queue]
  have hsub : (h.take n).line.Sublist h.line := by
    simpa [line, History.take] using List.take_sublist _ h.queued
  rw [hlength, h.take_min]
  constructor
  · exact ho.ascending.sublist hsub
  · exact fun m hm => ho.bounded m (hsub.mem hm)
  · rfl
  · change _ = (h.pending ++ h.queued.take n).map h.message
    rw [List.map_append, List.map_take, ← ho.outbox, ← ho.queue]
  · exact ho.finished
  · have htotal := ho.total
    simp only [line, History.take, List.length_append, List.length_take, List.length_drop,
      List.length_nil] at htotal ⊢
    omega

theorem giveUp (ho : h.Ordered queue outbox) : h.giveUp.Ordered [] [] := by
  have hsub : h.giveUp.line.Sublist h.line := by
    simp [line, History.giveUp]
  constructor
  · exact ho.ascending.sublist hsub
  · exact fun m hm => ho.bounded m (hsub.mem hm)
  · rfl
  · rfl
  · exact ho.finished
  · have htotal := ho.total
    simp only [line, History.giveUp, List.length_append, List.length_nil] at htotal ⊢
    omega

/-- Messages with ascending numbers are some of the accepted ones, in the order of acceptance. -/
theorem map_message_sublist {ms : List Nat} (hascending : ms.Pairwise (· < ·))
    (hbounded : ∀ m ∈ ms, m < h.accepted.length) : (ms.map h.message).Sublist h.accepted := by
  have hplaces : (ms.pmap Fin.mk hbounded).Pairwise (· < ·) := by
    refine hascending.pmap hbounded ?_
    exact fun _ _ _ _ hlt => hlt
  have hmessages : (ms.pmap Fin.mk hbounded).map (h.accepted[·]) = ms.map h.message := by
    rw [List.map_pmap, ← List.pmap_eq_map hbounded]
    refine List.pmap_congr_left ms fun m _ hm _ => ?_
    simp [message, List.getElem?_eq_getElem hm]
  exact hmessages ▸ List.map_getElem_sublist hplaces

/-! ## The loop -/

/-- A move hands the oldest message on or leaves the outbox as it is. -/
theorem move {x y : Working σ} {log : List Deed} (hmove : Move net x log y)
    (hy : y.link.loopDied = false) (ho : h.Ordered x.link.queue x.link.outbox) :
    (log.foldl record h).Ordered y.link.queue y.link.outbox := by
  cases hmove with
  | died hdied => simp [hdied] at hy
  | handedOver houtbox =>
    rw [houtbox] at ho
    obtain ⟨-, -, -, -, -, ho'⟩ := ho.exists_oldest (.peer _ _)
    simpa [record] using ho'
  | withheld houtbox =>
    rw [houtbox] at ho
    obtain ⟨-, -, -, -, -, ho'⟩ := ho.exists_oldest .nobody
    simpa [record, LinkState.countDropped] using ho'
  | offered => simpa [record] using ho.offer _
  | _ => exact ho

theorem moves {x y : Working σ} {log : List Deed} (hmoves : Moves net x log y)
    (hy : y.link.loopDied = false) (ho : h.Ordered x.link.queue x.link.outbox) :
    (log.foldl record h).Ordered y.link.queue y.link.outbox :=
  hmoves.induction (P := fun done x => (done.foldl record h).Ordered x.link.queue x.link.outbox)
    (fun hmove hy ho => by simpa [List.foldl_append] using ho.move hmove hy) hy [] ho

theorem sends {s s' : LinkState σ} {log : List Recipient} (hsends : Sends net s log s')
    (hlive : s'.loopDied = false) (ho : h.Ordered s.queue s.outbox) :
    (h.depart log).Ordered s'.queue s'.outbox := by
  induction hsends generalizing h with
  | refl => simpa [depart] using ho
  | died hdied => simp [hdied] at hlive
  | waited _ _ ih => exact ih hlive ho
  | sent houtbox _ _ _ ih =>
    rw [houtbox] at ho
    obtain ⟨-, -, -, -, -, ho'⟩ := ho.exists_oldest .datagram
    rw [depart_cons]
    exact ih hlive (by simpa [LinkState.countSent] using ho')
  | failed houtbox _ _ _ ih =>
    rw [houtbox] at ho
    obtain ⟨-, -, -, -, -, ho'⟩ := ho.exists_oldest .nobody
    rw [depart_cons]
    exact ih hlive (by simpa [LinkState.countSendError, LinkState.countDropped] using ho')
  | withheld houtbox _ _ ih =>
    rw [houtbox] at ho
    obtain ⟨-, -, -, -, -, ho'⟩ := ho.exists_oldest .nobody
    rw [depart_cons]
    exact ih hlive (by simpa [LinkState.countDropped] using ho')

end Ordered

end History

/-! ## Systems -/

theorem Transition.ordered {y y' : System σ} (h : Transition net y y')
    (ho : y.stage ≠ .died → y.history.Ordered y.link.queue y.link.outbox)
    (hlive : y'.stage ≠ .died) : y'.history.Ordered y'.link.queue y'.link.outbox := by
  cases h with
  | passed hl _ => exact ho (Stage.ne_died hl)
  | aside => exact ho hlive
  | submitted hfinished _ _ _ _ => exact (ho hlive).submit hfinished
  | refused => exact (ho hlive).refuse
  | took hl _ => exact (ho (Stage.ne_died hl)).take _
  | worked hl _ halive ht ht' hmoves => exact (ho (Stage.ne_died hl)).moves hmoves halive
  | sent hl _ halive _ hsends => exact (ho (Stage.ne_died hl)).sends hsends halive
  | heard n hl _ => exact ho (Stage.ne_died hl)
  | left hl =>
    obtain ⟨pool, hleave⟩ := y.link.leave_eq net
    simp only [hleave]
    exact (ho (Stage.ne_died hl)).giveUp
  | died => simp at hlive

theorem Reachable.ordered {w₀ : σ} {y : System σ} (h : Reachable net w₀ y)
    (hdied : y.stage ≠ .died) : y.history.Ordered y.link.queue y.link.outbox := by
  refine induction
    (P := fun y => y.stage ≠ .died → y.history.Ordered y.link.queue y.link.outbox) ?_ ?_ h hdied
  · intro s hfresh _
    cases hfresh <;> exact .empty
  · intro y y' _ ho hstep hlive
    exact hstep.ordered ho hlive

end ArmStream
