import Mathlib
import ArmStream.Proofs.Circulation
import ArmStream.Proofs.Interleaving

/-!
# What messages carry

A message is packed from two copies, and each copy is that of one write. So a message carries the
latest positions at its first copy and the latest torques at its second, whatever was written since,
and never parts of two writes. Each message is copied after the one before was, so stamps never go
back.

## Main definitions

- `Stamp.Tells`: a message carries what its stamp tells.
- `Interleaving.Underway`: what the control thread has.
- `Interleaving.Stamped`: each message that the queue took carries what its stamp tells.

## Main statements

- `Stamp.Tells.concat`: later writes change no message.
- `Interleaving.Stamped.step`: each action keeps the stamps right.
-/

namespace ArmStream

variable {σ : Type} {net : Net σ}

/-! ## Stamps -/

namespace ArmWrite

/-- The value of the write with this number among those of a quantity, counted from one. -/
def nth (quantity : ArmWrite → Option (List Pattern)) (log : List ArmWrite) (n : Nat) :
    List Pattern :=
  ((log.filterMap quantity).take n).getLast?.getD []

/-- The latest value is that of the latest write. -/
theorem last_take (quantity : ArmWrite → Option (List Pattern)) (log : List ArmWrite) (n : Nat) :
    last quantity (log.take n) = nth quantity log ((log.take n).filterMap quantity).length := by
  have hprefix := (List.take_prefix n log).filterMap quantity
  rw [last, nth, ← List.prefix_iff_eq_take.1 hprefix]

end ArmWrite

namespace Stamp

/-- The copies of one message were made no later than those of another. -/
instance : LE Stamp := ⟨fun s t => s.first ≤ t.first ∧ s.second ≤ t.second⟩

def shown (t : Stamp) (log : List ArmWrite) : JointState :=
  ⟨ArmWrite.last ArmWrite.angles? (log.take t.first), [],
    ArmWrite.last ArmWrite.measured? (log.take t.second)⟩

def position (t : Stamp) (log : List ArmWrite) : Nat :=
  ((log.take t.first).filterMap ArmWrite.angles?).length

def torque (t : Stamp) (log : List ArmWrite) : Nat :=
  ((log.take t.second).filterMap ArmWrite.measured?).length

variable {s t : Stamp} {log : List ArmWrite}

theorem shown_eq (t : Stamp) (log : List ArmWrite) :
    t.shown log = ⟨ArmWrite.nth ArmWrite.angles? log (t.position log), [],
      ArmWrite.nth ArmWrite.measured? log (t.torque log)⟩ := by
  simp only [shown, ArmWrite.last_take, position, torque]

theorem length_filterMap_take_le {m n : Nat} (h : m ≤ n)
    (quantity : ArmWrite → Option (List Pattern)) (log : List ArmWrite) :
    ((log.take m).filterMap quantity).length ≤ ((log.take n).filterMap quantity).length :=
  ((List.take_prefix_take_left h).filterMap quantity).length_le

theorem position_le (h : s ≤ t) (log : List ArmWrite) : s.position log ≤ t.position log :=
  length_filterMap_take_le h.1 ArmWrite.angles? log

theorem torque_le (h : s ≤ t) (log : List ArmWrite) : s.torque log ≤ t.torque log :=
  length_filterMap_take_le h.2 ArmWrite.measured? log

/-- The positions were copied before the torques, both are copies of what had been written, and the
message carries them. -/
structure Tells (t : Stamp) (log : List ArmWrite) (m : Builder) : Prop where
  order : t.first ≤ t.second
  within : t.second ≤ log.length
  carries : m.Carries (t.shown log)

/-- Later writes do not change what was copied. -/
theorem Tells.concat {m : Builder} (h : t.Tells log m) (w : ArmWrite) : t.Tells (log ++ [w]) m := by
  have hwithin := h.within
  have hfirst := h.order.trans hwithin
  refine ⟨h.order, ?_, ?_⟩
  · rw [List.length_append]
    exact Nat.le_add_right_of_le hwithin
  · rw [shown, List.take_append_of_le_length hfirst, List.take_append_of_le_length hwithin]
    exact h.carries

end Stamp

/-- A message that was packed in two parts carries both vectors. -/
theorem Builder.carries_of_packed {positions torques : List Pattern} {b m : Builder}
    (hposition : Driver.packPosition positions .empty = .ok b)
    (htorque : Driver.packTorque torques b = .ok m) : m.Carries ⟨positions, [], torques⟩ := by
  unfold Driver.packPosition at hposition
  unfold Driver.packTorque at htorque
  split at hposition
  next => cases hposition
  next b₁ hfirst =>
    split at htorque
    next => cases htorque
    next b₂ hthird =>
      have hbuilt : m.Built (JointState.fields ⟨positions, [], torques⟩) :=
        (((Builder.Built.empty.push hfirst).push hposition).push hthird).finish htorque
      have hfinished : m.finished = true := by rw [Builder.finish_eq_ok htorque]
      exact ⟨m.buffer, Builder.bytes_of_finished hfinished,
        JointState.decode_of_built hbuilt hfinished⟩

theorem Builder.Carries.finished {m : Builder} {s : JointState} (h : m.Carries s) :
    m.finished = true := by
  obtain ⟨bytes, hbytes, -⟩ := h
  exact (Builder.bytes_eq_ok_iff.1 hbytes).1

namespace History

/-- The loop adds no message. -/
theorem accepted_follow (net : Net σ) (x : Race σ) (h : History) :
    (h.follow net x).accepted = h.accepted := by
  unfold follow
  split
  next => split <;> rfl
  next => rfl
  next stage _ _ _ => exact (System.proceed_withHistory net x.link stage h).2.2.1
  next => split <;> rfl
  next => rfl
  next => rfl
  next => rfl

end History

/-! ## Races -/

namespace Race

variable {x : Race σ}

namespace Call

def message? : Call → Option Builder
  | .begun b => some b
  | .admitted b => some b
  | _ => none

/-- A call takes up no other message. -/
theorem message?_step (net : Net σ) (s : LinkState σ) (c : Call) {m : Builder}
    (h : (c.step net s).2.message? = some m) : c.message? = some m := by
  cases c with
  | begun b =>
    simp only [step] at h
    split at h
    · cases h
    · split at h
      · cases h
      · exact h
  | admitted b =>
    rcases henqueue : s.enqueue b with ⟨s', answer⟩
    cases answer <;> simp [step, henqueue, message?] at h
  | enqueued | overflowed | returned => cases h

end Call

/-- The call that does its next step. -/
theorem getElem?_calls_call (net : Net σ) {i : Nat} {c : Call} (hc : x.calls[i]? = some c) :
    (x.step net (.call i)).calls[i]? = some (c.step net x.link).2 := by
  obtain ⟨hi, -⟩ := List.getElem?_eq_some_iff.1 hc
  simp [step, callStep, hc, List.getElem?_set_self hi]

end Race

/-! ## The messages of a driver -/

namespace Interleaving

variable {x : Interleaving σ}

/-- What the control thread has is up to date, and no message before has a later stamp. -/
def Underway (x : Interleaving σ) : Prop :=
  match x.control with
  | .idle => True
  | .begun b => b = .empty
  | .halfway b first =>
    first ≤ x.log.length ∧ (∀ s ∈ x.stamps, s ≤ ⟨first, first⟩) ∧
      Driver.packPosition (ArmWrite.last ArmWrite.angles? (x.log.take first)) .empty = .ok b
  | .calling i t =>
    (∀ s ∈ x.stamps, s ≤ t) ∧
      ∀ c, x.race.calls[i]? = some c → ∀ m, c.message? = some m → t.Tells x.log m

/-- Each message that the queue took carries what its stamp tells, and stamps never go back. -/
structure Stamped (x : Interleaving σ) : Prop where
  arm : x.driver.arm = .latest x.log
  tidy : x.race.link.Tidy
  told : List.Forall₂ (fun m t => t.Tells x.log m) x.history.accepted x.stamps
  ascending : x.stamps.Pairwise (· ≤ ·)
  underway : x.Underway

namespace Stamped

/-- All stamps were given by now. -/
theorem le_now (h : x.Stamped) : ∀ s ∈ x.stamps, s ≤ ⟨x.log.length, x.log.length⟩ := by
  have htold := h.told
  generalize x.history.accepted = ms at htold
  generalize x.stamps = ts at htold
  induction htold with
  | nil => simp
  | cons htells _ ih =>
    exact List.forall_mem_cons.2 ⟨⟨htells.order.trans htells.within, htells.within⟩, ih⟩

theorem write (h : x.Stamped) (net : Net σ) (w : ArmWrite) : (x.step net (.write w)).Stamped := by
  obtain ⟨harm, htidy, htold, hascending, hunderway⟩ := h
  obtain ⟨race, d, control, history, log, stamps⟩ := x
  have harm' : (d.write w).arm = .latest (log ++ [w]) := by
    rw [Driver.write_eq, ArmState.latest_concat]
    exact congrArg (·.apply w) harm
  refine ⟨harm', htidy, htold.imp fun m t htells => htells.concat w, hascending, ?_⟩
  cases control with
  | idle => exact trivial
  | begun b => exact hunderway
  | halfway b first =>
    obtain ⟨hfirst, hstamps, hpacked⟩ := hunderway
    have htake : (log ++ [w]).take first = log.take first :=
      List.take_append_of_le_length hfirst
    refine ⟨hfirst.trans (by simp [step]), hstamps, ?_⟩
    simp only [step, htake]
    exact hpacked
  | calling i t =>
    obtain ⟨hstamps, hcalls⟩ := hunderway
    exact ⟨hstamps, fun c hc m hm => (hcalls c hc m hm).concat w⟩

/-- The call of the control thread goes on. -/
theorem call (h : x.Stamped) (net : Net σ) {i : Nat} {t : Stamp}
    (hcontrol : x.control = .calling i t) : (x.call net i t).Stamped := by
  obtain ⟨race, d, control, history, log, stamps⟩ := x
  obtain rfl : control = .calling i t := hcontrol
  obtain ⟨harm, htidy, htold, hascending, hstamps, hcalls⟩ := h
  have htidy' := Race.tidy_step htidy net (.call i)
  have hcalls' {c : Race.Call} (hc : race.calls[i]? = some c) :
      ∀ c', (race.step net (.call i)).calls[i]? = some c' →
        ∀ m, c'.message? = some m → t.Tells log m := by
    intro c' hc' m hm
    rw [Race.getElem?_calls_call net hc, Option.some.injEq] at hc'
    exact hcalls c hc m (c.message?_step net race.link (hc' ▸ hm))
  unfold Interleaving.call
  split
  next => exact ⟨harm, htidy, htold, hascending, hstamps, hcalls⟩
  next => exact ⟨harm, htidy, htold, hascending, trivial⟩
  next b hb =>
    -- a message that the queue takes keeps the stamp of its call
    rcases henqueue : race.link.enqueue b with ⟨s, answer⟩
    cases answer with
    | queued =>
      simp only [History.tried, henqueue, if_true]
      refine ⟨harm, htidy', ?_, ?_, ?_, hcalls' hb⟩
      · exact List.rel_append htold (.cons (hcalls _ hb b rfl) .nil)
      · refine List.pairwise_append.2 ⟨hascending, List.pairwise_singleton _ _, ?_⟩
        simpa using hstamps
      · simp only [List.mem_append, List.mem_singleton]
        rintro s (hs | rfl)
        · exact hstamps s hs
        · exact ⟨le_rfl, le_rfl⟩
    | full | gone =>
      simp only [History.tried, henqueue, reduceCtorEq, if_false]
      exact ⟨harm, htidy', htold, hascending, hstamps, hcalls' hb⟩
  next c _ _ hc => exact ⟨harm, htidy', htold, hascending, hstamps, hcalls' hc⟩

theorem tick (h : x.Stamped) (net : Net σ) : (x.tick net).Stamped := by
  have hnow := h.le_now
  obtain ⟨race, d, control, history, log, stamps⟩ := x
  obtain ⟨harm, htidy, htold, hascending, hunderway⟩ := id h
  have hposition : d.arm.commandedPosition = ArmWrite.last ArmWrite.angles? log := by
    rw [harm]
    rfl
  have htorque : d.arm.torque = ArmWrite.last ArmWrite.measured? log := by
    rw [harm]
    rfl
  cases control with
  | idle =>
    exact ⟨harm, Race.tidy_step htidy net .acquire, htold, hascending, htidy.acquire_eq_empty⟩
  | begun b =>
    obtain rfl : b = .empty := hunderway
    simp only [Interleaving.tick, Driver.copyPosition, hposition]
    split
    next => exact ⟨harm, htidy, htold, hascending, trivial⟩
    next b hpacked =>
      refine ⟨harm, htidy, htold, hascending, le_rfl, hnow, ?_⟩
      simpa using hpacked
  | halfway b first =>
    -- the second copy is made now, and so its part of the stamp is the number of writes
    obtain ⟨hfirst, hstamps, hpacked⟩ := hunderway
    simp only [Interleaving.tick, Driver.copyTorque, htorque]
    split
    next => exact ⟨harm, htidy, htold, hascending, trivial⟩
    next m hm =>
      refine ⟨harm, htidy, htold, hascending, fun s hs => ?_, fun c hc m' hm' => ?_⟩
      · exact ⟨(hstamps s hs).1, (hnow s hs).2⟩
      · obtain rfl : Race.Call.begun m = c := by simpa [Race.step] using hc
        obtain rfl : m = m' := Option.some.inj hm'
        refine ⟨hfirst, le_rfl, ?_⟩
        simpa [Stamp.shown] using Builder.carries_of_packed hpacked hm
  | calling i t => exact h.call net rfl

/-- What others do to the race. -/
theorem aside (h : x.Stamped) (net : Net σ) {a : Race.Action}
    (ha : (x.race.step net a).calls = x.race.calls) {history : History}
    (hhistory : history.accepted = x.history.accepted) :
    ({ x with race := x.race.step net a, history := history } : Interleaving σ).Stamped := by
  obtain ⟨race, d, control, _, log, stamps⟩ := x
  obtain ⟨harm, htidy, htold, hascending, hunderway⟩ := h
  refine ⟨harm, Race.tidy_step htidy net a, hhistory ▸ htold, hascending, ?_⟩
  cases control with
  | idle | begun | halfway => exact hunderway
  | calling i t => exact ⟨hunderway.1, fun c hc => hunderway.2 c (ha ▸ hc)⟩

theorem step (h : x.Stamped) (net : Net σ) (a : Action) : (x.step net a).Stamped := by
  cases a with
  | write w => exact h.write net w
  | tick => exact h.tick net
  | guard => exact h.aside net rfl rfl
  | dropGuard => exact h.aside net rfl rfl
  | stop => exact h.aside net rfl rfl
  | proceed =>
    exact h.aside net (a := .proceed) (Race.calls_proceed net x.race)
      (x.history.accepted_follow net x.race)
  | wake r =>
    refine h.aside net ?_ rfl
    simp only [Race.step]
    split
    · exact Race.calls_answer net x.race r
    · rfl

end Stamped

end Interleaving

end ArmStream
