import Mathlib
import ArmStream.Proofs.Pieces

/-!
# Feeding and asking in any order

A decoder may be fed with any bytes, in pieces of any size, and asked for a frame at any time, also
when there is none and after a length that is too long. The bytes that were fed are always the
frames that came, written one behind the other, and what the decoder still holds. They can be cut in
only one way so that the part behind the frames begins with no further frame. So once asking gives
no frame any more, the order of feeding and asking has made no difference.

## Main definitions

- `Frame.Decoder.ask`: asking for a frame.
- `Frame.Decoder.perform`: any schedule of feeding and asking.
- `Frame.Decoder.Finishes`: the schedule ends by asking in vain.

## Main statements

- `Frame.Decoder.stream_payloads_append`: no byte is lost.
- `Frame.Decoder.drain_of_finishes`: what a schedule gives is what the whole stream gives at once.
- `Frame.Decoder.schedules_agree`: two schedules for one stream, and what each ask tells.
-/

namespace ArmStream.Frame.Decoder

inductive Action where
  | feed (piece : Bytes)
  | ask
  deriving DecidableEq, Repr, Inhabited

inductive Answer where
  | incomplete
  | tooLong (len : Nat)
  | frame (payload : Bytes)
  deriving DecidableEq, Repr, Inhabited

def Answer.payload? : Answer → Option Bytes
  | .frame payload => some payload
  | _ => none

def Answer.excess? : Answer → Option Nat
  | .tooLong len => some len
  | _ => none

/-- Asks for a frame. Only a frame that comes leaves another decoder. -/
def ask (d : Decoder) : Answer × Decoder :=
  match d.next with
  | .incomplete => (.incomplete, d)
  | .tooLong len => (.tooLong len, d)
  | .frame payload rest => (.frame payload, rest)

/-- Feeds and asks as the schedule says; the answers in order, and the decoder in the end. -/
def perform (d : Decoder) : List Action → List Answer × Decoder
  | [] => ([], d)
  | .feed piece :: actions => (d.extend piece).perform actions
  | .ask :: actions => (d.ask.1 :: (d.ask.2.perform actions).1, (d.ask.2.perform actions).2)

def Action.piece : Action → List UInt8
  | .feed piece => piece.toList
  | .ask => []

def fed (actions : List Action) : List UInt8 := actions.flatMap Action.piece

def payloads (answers : List Answer) : List Bytes := answers.filterMap Answer.payload?

/-- A new decoder is asked last, and no frame comes. -/
def Finishes (actions : List Action) : Prop :=
  ∃ before, actions = before ++ [.ask] ∧
    (perform {} before).2.ask.1.payload? = none

variable {d d' : Decoder}

theorem perform_append (d : Decoder) (actions more : List Action) :
    d.perform (actions ++ more) =
      ((d.perform actions).1 ++ ((d.perform actions).2.perform more).1,
        ((d.perform actions).2.perform more).2) := by
  induction actions generalizing d with
  | nil => rfl
  | cons action actions ih =>
    cases action with
    | feed piece => exact ih (d.extend piece)
    | ask => simp [perform, ih]

/-! ## One ask -/

theorem ask_of_none (h : d.ask.1.payload? = none) : d.ask.2 = d := by
  unfold ask at h ⊢
  split <;> simp_all [Answer.payload?]

theorem next_of_ask {payload : Bytes} (h : d.ask.1 = .frame payload) :
    d.next = .frame payload d.ask.2 := by
  unfold ask at h ⊢
  split at h <;> simp_all

theorem next_eq_tooLong_iff {n : Nat} :
    d.next = .tooLong n ↔ headerLength ≤ d.buffered ∧ d.announced = n ∧ maxLength < n := by
  rw [next_eq]
  split <;> grind

theorem ask_eq_tooLong_iff {n : Nat} : d.ask.1 = .tooLong n ↔ d.next = .tooLong n := by
  unfold ask
  split <;> simp_all

/-! ## What stays -/

theorem announced_extend (h : headerLength ≤ d.buffered) (piece : Bytes) :
    (d.extend piece).announced = d.announced := by
  simp only [announced, extend, Array.toList_append]
  rw [List.take_append_of_le_length (by rwa [Array.length_toList])]

/-- A length that is too long stays, whatever is fed behind it. -/
theorem ask_extend_of_tooLong {n : Nat} (h : d.ask.1 = .tooLong n) (piece : Bytes) :
    (d.extend piece).ask.1 = .tooLong n := by
  rw [ask_eq_tooLong_iff, next_eq_tooLong_iff] at h ⊢
  obtain ⟨hheader, hlen, hlong⟩ := h
  refine ⟨?_, (announced_extend hheader piece).trans hlen, hlong⟩
  simp only [buffered, extend, Array.size_append] at hheader ⊢
  omega

theorem perform_of_tooLong {n : Nat} (h : d.ask.1 = .tooLong n) (actions : List Action) :
    ∀ answer ∈ (d.perform actions).1, answer = .tooLong n := by
  induction actions generalizing d with
  | nil => simp [perform]
  | cons action actions ih =>
    cases action with
    | feed piece => exact ih (ask_extend_of_tooLong h piece)
    | ask =>
      have hsame : d.ask.2 = d := ask_of_none (by rw [h]; rfl)
      simpa [perform, hsame, h] using ih h

/-! ## No byte is lost -/

/-- What a decoder held at first and what it was fed is what came out, framed again, and what it
holds in the end. -/
theorem stream_payloads_append (d : Decoder) (actions : List Action) :
    (∀ p ∈ payloads (d.perform actions).1, p.size ≤ maxLength) ∧
      stream ((payloads (d.perform actions).1).map Array.toList) ++
        (d.perform actions).2.buffer.toList = d.buffer.toList ++ fed actions := by
  induction actions generalizing d with
  | nil => simp [perform, payloads, fed]
  | cons action actions ih =>
    cases action with
    | feed piece =>
      obtain ⟨hshort, hbytes⟩ := ih (d.extend piece)
      refine ⟨hshort, hbytes.trans ?_⟩
      simp [extend, fed, Action.piece]
    | ask =>
      obtain ⟨hshort, hbytes⟩ := ih d.ask.2
      have hfed : fed (.ask :: actions) = fed actions := rfl
      cases hanswer : d.ask.1 with
      | frame payload =>
        obtain ⟨hlen, hbuffer⟩ := buffer_of_next (next_of_ask hanswer)
        have hpayloads : payloads (d.perform (.ask :: actions)).1 =
            payload :: payloads (d.ask.2.perform actions).1 := by
          simp [perform, payloads, hanswer, Answer.payload?]
        rw [hpayloads, hfed]
        refine ⟨by simpa using ⟨hlen, hshort⟩, ?_⟩
        rw [List.map_cons, stream_cons, List.append_assoc, perform, hbytes, hbuffer,
          List.append_assoc]
      | incomplete | tooLong n =>
        -- no payload came, and the decoder is as before
        have hsame : d.ask.2 = d := ask_of_none (by rw [hanswer]; rfl)
        rw [hsame] at hshort hbytes
        have hpayloads : payloads (d.perform (.ask :: actions)).1 =
            payloads (d.perform actions).1 := by
          rw [perform, hanswer, hsame]
          rfl
        rw [hpayloads, hfed]
        exact ⟨hshort, by rw [perform, hsame]; exact hbytes⟩

/-! ## Schedules that finish -/

/-- Frames in front of the buffer are taken one after the other. -/
theorem takeAll_of_stream {ps : List Bytes} (hlen : ∀ p ∈ ps, p.size ≤ maxLength)
    (h : d.buffer.toList = stream (ps.map Array.toList) ++ d'.buffer.toList) (fuel : Nat)
    (taken : List Bytes) :
    d.takeAll (ps.length + fuel) taken = d'.takeAll fuel (ps.reverse ++ taken) := by
  induction ps generalizing d taken with
  | nil =>
    have hsame : d = d' := by
      obtain ⟨buffer⟩ := d
      obtain ⟨buffer'⟩ := d'
      simpa using h
    simp [hsame]
  | cons p ps ih =>
    rw [List.map_cons, stream_cons, List.append_assoc] at h
    have hnext := next_of_frame (by simpa using hlen p (by simp)) h
    have hrest := ih (fun q hq => hlen q (List.mem_cons_of_mem p hq))
      (d := ⟨(stream (ps.map Array.toList) ++ d'.buffer.toList).toArray⟩) rfl (p :: taken)
    rw [List.length_cons, Nat.add_right_comm]
    simpa [takeAll, hnext] using hrest

/-- There is nothing to take: the answer says whether a length was too long. -/
theorem takeAll_of_none (h : d.ask.1.payload? = none) (fuel : Nat) (taken : List Bytes) :
    d.takeAll (fuel + 1) taken = (taken.reverse, d.ask.1.excess?, d) := by
  unfold ask at h ⊢
  unfold takeAll
  split <;> simp_all [Answer.payload?, Answer.excess?]

/-- Each ask that gives a frame shortens the buffer, so asking comes to an end. -/
theorem exists_finishes (actions : List Action) :
    ∃ n, Finishes (actions ++ List.replicate n .ask) := by
  -- on the bytes that the decoder holds when the schedule is through
  obtain ⟨size, hsize⟩ : ∃ size, size = (perform {} actions).2.buffered := ⟨_, rfl⟩
  induction size using Nat.strong_induction_on generalizing actions with
  | _ size ih =>
    cases hpayload : (perform {} actions).2.ask.1.payload? with
    | none => exact ⟨1, actions, rfl, hpayload⟩
    | some payload =>
      have hanswer : (perform {} actions).2.ask.1 = .frame payload := by
        cases hanswer : (perform {} actions).2.ask.1 <;> simp_all [Answer.payload?]
      have hless := buffered_of_next (next_of_ask hanswer)
      have hheader : 0 < headerLength := by decide
      have hafter : (perform {} (actions ++ [.ask])).2 = (perform {} actions).2.ask.2 := by
        simp [perform_append, perform]
      obtain ⟨n, hn⟩ := ih _ (by rw [hsize, hless]; omega) (actions ++ [.ask])
        (congrArg buffered hafter.symm)
      exact ⟨n + 1, by simpa [List.replicate_succ] using hn⟩

/-- A schedule that finishes gives what the decoder gives that gets the whole stream at once. -/
theorem drain_of_finishes {actions : List Action} (h : Finishes actions) :
    ∃ answer, (perform {} actions).1.getLast? = some answer ∧ answer.payload? = none ∧
      (extend {} (fed actions).toArray).drain =
        (payloads (perform {} actions).1, answer.excess?, (perform {} actions).2) := by
  obtain ⟨before, rfl, hlast⟩ := h
  obtain ⟨answers, d, hbefore⟩ : ∃ answers d, perform {} before = (answers, d) := ⟨_, _, rfl⟩
  obtain ⟨hshort, hbytes⟩ := stream_payloads_append {} before
  rw [hbefore] at hlast hshort hbytes
  have hrun : perform {} (before ++ [.ask]) = (answers ++ [d.ask.1], d) := by
    simp [perform_append, perform, hbefore, ask_of_none hlast]
  have hpayloads : payloads (answers ++ [d.ask.1]) = payloads answers := by
    simp [payloads, hlast]
  have hfed : fed (before ++ [.ask]) = fed before := by simp [fed, Action.piece]
  have hbuffer : (extend {} (fed before).toArray).buffer.toList =
      stream ((payloads answers).map Array.toList) ++ d.buffer.toList := by
    simpa [extend] using hbytes.symm
  refine ⟨d.ask.1, by rw [hrun, List.getLast?_concat], hlast, ?_⟩
  -- a frame has at least one byte, so the frames do not use up the fuel
  have hcount : (payloads answers).length ≤ (extend {} (fed before).toArray).buffered := by
    have hframes := completed_le ((payloads answers).map Array.toList)
      (stream ((payloads answers).map Array.toList)).length
    rw [completed_stream, List.length_map] at hframes
    have hsize := congrArg List.length hbuffer
    rw [Array.length_toList, List.length_append] at hsize
    simp only [buffered]
    omega
  obtain ⟨spare, hspare⟩ := Nat.exists_eq_add_of_le hcount
  rw [hrun, hpayloads, hfed, drain, hspare, Nat.add_assoc, takeAll_of_stream hshort hbuffer,
    takeAll_of_none hlast, List.append_nil, List.reverse_reverse]

theorem Answer.eq_of_excess? {a b : Answer} (ha : a.payload? = none) (hb : b.payload? = none)
    (h : a.excess? = b.excess?) : a = b := by
  cases a <;> cases b <;> simp_all [payload?, excess?]

/-- Two schedules that feed a new decoder with the same bytes, however cut, and finish, give the
same payloads, the same last answer and the same decoder; every schedule finishes when the decoder
is asked often enough. At any point the frames of the payloads so far and the buffer are all bytes
that were fed. An ask without a frame changes nothing. A length is found too long exactly when it is
announced and exceeds the longest frame, and from then on with every ask, whatever is fed. -/
theorem schedules_agree :
    (∀ s t, fed s = fed t → Finishes s → Finishes t →
      payloads (perform {} s).1 = payloads (perform {} t).1 ∧
      (perform {} s).1.getLast? = (perform {} t).1.getLast? ∧
      (perform {} s).2 = (perform {} t).2) ∧
    (∀ s, ∃ n, Finishes (s ++ List.replicate n .ask)) ∧
    (∀ s, ∃ wire, (payloads (perform {} s).1).foldlM append? #[] = some wire ∧
      (wire ++ (perform {} s).2.buffer).toList = fed s) ∧
    (∀ d : Decoder, d.ask.1.payload? = none → d.ask.2 = d) ∧
    (∀ (d : Decoder) (n : Nat), d.ask.1 = .tooLong n ↔ headerLength ≤ d.buffered ∧
      LittleEndian.decode (d.buffer.toList.take headerLength) = n ∧ maxLength < n) ∧
    ∀ (d : Decoder) (n : Nat), d.ask.1 = .tooLong n →
      ∀ s, ∀ answer ∈ (d.perform s).1, answer = .tooLong n := by
  refine ⟨fun s t hfed hs ht => ?_, exists_finishes, fun s => ?_, fun d => ask_of_none,
    fun d n => ask_eq_tooLong_iff.trans next_eq_tooLong_iff, fun d n => perform_of_tooLong⟩
  · obtain ⟨a, hlast, ha, hdrain⟩ := drain_of_finishes hs
    obtain ⟨b, hlast', hb, hdrain'⟩ := drain_of_finishes ht
    rw [hfed, hdrain'] at hdrain
    simp only [Prod.mk.injEq] at hdrain
    obtain ⟨hpayloads, hexcess, hleft⟩ := hdrain
    exact ⟨hpayloads.symm, by rw [hlast, hlast', Answer.eq_of_excess? hb ha hexcess], hleft.symm⟩
  · obtain ⟨hshort, hbytes⟩ := stream_payloads_append {} s
    exact ⟨_, foldlM_append? hshort #[], by simpa using hbytes⟩

/-- A frame and a length that is too long, at once and in pieces with asks between them. -/
theorem schedules_agree_of_damage :
    ∃ s t : List Action,
      s = [.feed #[2, 0, 0, 0, 7, 8, 1, 0, 0, 1, 9], .ask, .ask] ∧
      t = [.ask, .feed #[2, 0], .feed #[], .ask, .feed #[0, 0, 7, 8], .ask, .ask,
        .feed #[1, 0, 0, 1], .ask, .feed #[9], .ask] ∧
      (fed s = fed t ∧ Finishes s ∧ Finishes t) ∧
      (payloads (perform {} s).1 = payloads (perform {} t).1 ∧
        (perform {} s).1.getLast? = (perform {} t).1.getLast? ∧
        (perform {} s).2 = (perform {} t).2) ∧
      ∃ d : Decoder, d = ⟨#[1, 0, 0, 1]⟩ ∧ d.ask.1 = .tooLong 16777217 ∧
        ∀ answer ∈ (d.perform [.feed #[9], .ask, .ask]).1, answer = .tooLong 16777217 := by
  have hfed : fed [.feed #[2, 0, 0, 0, 7, 8, 1, 0, 0, 1, 9], .ask, .ask] =
      fed [.ask, .feed #[2, 0], .feed #[], .ask, .feed #[0, 0, 7, 8], .ask, .ask,
        .feed #[1, 0, 0, 1], .ask, .feed #[9], .ask] := by decide
  have hs : Finishes [.feed #[2, 0, 0, 0, 7, 8, 1, 0, 0, 1, 9], .ask, .ask] :=
    ⟨[.feed #[2, 0, 0, 0, 7, 8, 1, 0, 0, 1, 9], .ask], rfl, by decide⟩
  have ht : Finishes [.ask, .feed #[2, 0], .feed #[], .ask, .feed #[0, 0, 7, 8], .ask, .ask,
      .feed #[1, 0, 0, 1], .ask, .feed #[9], .ask] :=
    ⟨[.ask, .feed #[2, 0], .feed #[], .ask, .feed #[0, 0, 7, 8], .ask, .ask, .feed #[1, 0, 0, 1],
      .ask, .feed #[9]], rfl, by decide⟩
  obtain ⟨hsame, -, -, -, -, hstays⟩ := schedules_agree
  have hlong : (⟨#[1, 0, 0, 1]⟩ : Decoder).ask.1 = .tooLong 16777217 := by decide
  exact ⟨_, _, rfl, rfl, ⟨hfed, hs, ht⟩, hsame _ _ hfed hs ht, _, rfl, hlong, hstays _ _ hlong _⟩

end ArmStream.Frame.Decoder
