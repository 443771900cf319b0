import Mathlib
import ArmStream.Proofs.Frames

/-!
# A stream in pieces

The frames of some payloads are written one behind the other and cut into pieces at any places:
inside the length of a frame, inside a payload, between frames without payload. A reader feeds a
decoder with one piece after the other and takes frames after each piece until there is none. The
decoder then holds what the pieces so far leave of a frame that has begun, so what the next piece
completes does not depend on how the bytes before it were cut.

## Main definitions

- `Frame.Decoder.Drains`: frames are taken until there is none.
- `Frame.Decoder.Feeds`: pieces are fed, and frames are taken after each.

## Main statements

- `Frame.Decoder.drains_of_drain`: `drain` takes frames until there is none.
- `Frame.Decoder.exists_feeds_of_fed`: what each piece completes.
- `Frame.Decoder.payloads_of_pieces`: the pieces of a whole stream give the payloads back.
-/

namespace ArmStream.Frame

/-! ## Writing a stream -/

theorem foldlM_append? {payloads : List Bytes} (hlen : ∀ p ∈ payloads, p.size ≤ maxLength)
    (buffer : Bytes) :
    payloads.foldlM append? buffer =
      some (buffer ++ (stream (payloads.map Array.toList)).toArray) := by
  induction payloads generalizing buffer with
  | nil => simp
  | cons payload rest ih =>
    have hfirst : append? buffer payload = some (buffer ++ (encode payload.toList).toArray) :=
      append?_eq_some_iff.2 ⟨hlen payload (by simp), rfl⟩
    have hrest := ih (fun p hp => hlen p (List.mem_cons_of_mem payload hp))
      (buffer ++ (encode payload.toList).toArray)
    rw [List.foldlM_cons, hfirst]
    simpa [Array.append_assoc] using hrest

theorem completed_stream (ps : List (List UInt8)) :
    completed ps (stream ps).length = ps.length := by
  induction ps with
  | nil => rfl
  | cons p ps ih =>
    rw [completed_cons, stream_cons, List.length_append, if_pos (Nat.le_add_right _ _),
      Nat.add_sub_cancel_left, ih, List.length_cons]

theorem remainder_stream (ps : List (List UInt8)) : remainder ps (stream ps) = [] := by
  rw [remainder, completed_stream, List.take_length, List.drop_length]

namespace Decoder

variable {d d' : Decoder}

/-! ## Taking frames until there is none -/

/-- Frames are taken one after the other until there is none. -/
inductive Drains : Decoder → List Bytes → Decoder → Prop where
  | done {d : Decoder} : d.next = .incomplete → Drains d [] d
  | frame {d rest d' : Decoder} {payload : Bytes} {frames : List Bytes} :
      d.next = .frame payload rest → Drains rest frames d' → Drains d (payload :: frames) d'

theorem Drains.unique {frames frames' : List Bytes} {e : Decoder} (h : Drains d frames d')
    (h' : Drains d frames' e) : frames' = frames ∧ e = d' := by
  induction h generalizing frames' with
  | done hnext =>
    cases h' with
    | done => exact ⟨rfl, rfl⟩
    | frame hnext' => simp [hnext] at hnext'
  | frame hnext _ ih =>
    cases h' with
    | done hnext' => simp [hnext] at hnext'
    | frame hnext' hrest' =>
      obtain ⟨rfl, rfl⟩ := by simpa [hnext] using hnext'
      obtain ⟨rfl, rfl⟩ := ih hrest'
      exact ⟨rfl, rfl⟩

/-- A frame that is taken and what is left of the buffer are no more than what there was. -/
theorem buffered_of_next {rest : Decoder} {payload : Bytes} (h : d.next = .frame payload rest) :
    d.buffered = headerLength + payload.size + rest.buffered := by
  obtain ⟨-, hbuffer⟩ := buffer_of_next h
  simpa [buffered] using congrArg List.length hbuffer

/-- As long as the fuel exceeds the bytes in the buffer, it does not run out. -/
theorem drains_of_takeAll {fuel : Nat} {taken frames : List Bytes} (hfuel : d.buffered < fuel)
    (h : d.takeAll fuel taken = (frames, none, d')) :
    ∃ more, frames = taken.reverse ++ more ∧ Drains d more d' := by
  induction fuel generalizing d taken with
  | zero => exact absurd hfuel (Nat.not_lt_zero _)
  | succ fuel ih =>
    unfold takeAll at h
    split at h
    next hnext =>
      obtain ⟨rfl, rfl⟩ := by simpa using h
      exact ⟨[], by simp, .done hnext⟩
    next => simp at h
    next payload rest hnext =>
      have hbuffered := buffered_of_next hnext
      have hheader : 0 < headerLength := by decide
      obtain ⟨more, hframes, hmore⟩ := ih (by omega) h
      exact ⟨payload :: more, by simp [hframes], .frame hnext hmore⟩

theorem drains_of_drain {frames : List Bytes} (h : d.drain = (frames, none, d')) :
    Drains d frames d' := by
  obtain ⟨more, rfl, hmore⟩ := drains_of_takeAll (Nat.lt_succ_self _) h
  exact hmore

/-! ## Feeding pieces -/

/-- Pieces are fed one after the other, and after each piece frames are taken until there is none.
The list has the frames that came with each piece. -/
inductive Feeds : Decoder → List Bytes → List (List Bytes) → Decoder → Prop where
  | done {d : Decoder} : Feeds d [] [] d
  | piece {d d' d'' : Decoder} {piece : Bytes} {pieces frames : List Bytes}
      {more : List (List Bytes)} :
      Drains (d.extend piece) frames d' → Feeds d' pieces more d'' →
      Feeds d (piece :: pieces) (frames :: more) d''

theorem Feeds.unique {pieces : List Bytes} {yields yields' : List (List Bytes)} {e : Decoder}
    (h : Feeds d pieces yields d') (h' : Feeds d pieces yields' e) :
    yields' = yields ∧ e = d' := by
  induction h generalizing yields' with
  | done =>
    cases h'
    exact ⟨rfl, rfl⟩
  | piece hdrains _ ih =>
    cases h' with
    | piece hdrains' hmore' =>
      obtain ⟨rfl, rfl⟩ := hdrains.unique hdrains'
      obtain ⟨rfl, rfl⟩ := ih hmore'
      exact ⟨rfl, rfl⟩

/-- After each piece the frames that came so far are those that end within the bytes so far. -/
theorem exists_feeds_of_fed {payloads : List (List UInt8)}
    (hlen : ∀ payload ∈ payloads, payload.length ≤ maxLength) {b : List UInt8}
    {pieces : List Bytes} (h : b ++ pieces.flatMap Array.toList <+: stream payloads) :
    ∃ yields, Feeds ⟨(remainder payloads b).toArray⟩ pieces yields
        ⟨(remainder payloads (b ++ pieces.flatMap Array.toList)).toArray⟩ ∧
      ∀ n, (yields.take n).flatten =
        (between payloads b.length (b ++ (pieces.take n).flatMap Array.toList).length).map
          List.toArray := by
  induction pieces generalizing b with
  | nil => exact ⟨[], by simpa using Feeds.done, by simp [between]⟩
  | cons piece pieces ih =>
    rw [List.flatMap_cons, ← List.append_assoc] at h
    have hdrain := drain_extend hlen ((List.prefix_append _ _).trans h)
    obtain ⟨yields, hfeeds, hyields⟩ := ih h
    refine ⟨(between payloads b.length (b ++ piece.toList).length).map List.toArray :: yields,
      ?_, ?_⟩
    · rw [List.flatMap_cons, ← List.append_assoc]
      exact .piece (drains_of_drain hdrain) hfeeds
    · intro n
      cases n with
      | zero => simp [between]
      | succ n =>
        have hmore := between_append_between payloads
          (List.prefix_append b piece.toList).length_le
          (List.prefix_append (b ++ piece.toList)
            ((pieces.take n).flatMap Array.toList)).length_le
        rw [List.take_succ_cons, List.flatten_cons, hyields, List.take_succ_cons,
          List.flatMap_cons, ← List.append_assoc, ← List.map_append, hmore]

/-- Payloads that are not too long can be written as frames one behind the other. However the bytes
are cut into pieces, a new decoder that is fed with them gives the payloads back in order, each with
the first piece that completes its frame. There is never anything else to find, and in the end
nothing is left. -/
theorem payloads_of_pieces {payloads : List Bytes} (hlen : ∀ p ∈ payloads, p.size ≤ maxLength) :
    ∃ wire, payloads.foldlM append? #[] = some wire ∧
      ∀ pieces : List Bytes, pieces.flatMap Array.toList = wire.toList →
        ∃ yields d, Feeds {} pieces yields d ∧
          (∀ yields' d', Feeds {} pieces yields' d' → yields' = yields ∧ d' = d) ∧
          yields.flatten = payloads ∧
          (∀ n, (yields.take n).flatten = payloads.take
            (completed (payloads.map Array.toList)
              ((pieces.take n).flatMap Array.toList).length)) ∧
          d.buffered = 0 := by
  obtain ⟨ps, hps⟩ : ∃ ps, ps = payloads.map Array.toList := ⟨_, rfl⟩
  have hwire := foldlM_append? hlen #[]
  have hback : ps.map List.toArray = payloads := by simp [hps, Function.comp_def]
  rw [← hps] at hwire ⊢
  refine ⟨_, hwire, fun pieces hcut => ?_⟩
  have hshort : ∀ p ∈ ps, p.length ≤ maxLength := by simpa [hps] using hlen
  have hflat : pieces.flatMap Array.toList = stream ps := by simpa using hcut
  have hfed : [] ++ pieces.flatMap Array.toList <+: stream ps := by simp [hflat]
  obtain ⟨yields, hfeeds, hyields⟩ := exists_feeds_of_fed hshort hfed
  have htaken (n : Nat) : (yields.take n).flatten =
      payloads.take (completed ps ((pieces.take n).flatMap Array.toList).length) := by
    rw [hyields, List.length_nil, between_zero, List.nil_append, List.map_take, hback]
  have hnew : remainder ps [] = [] := List.drop_nil
  rw [hnew, List.nil_append, hflat, remainder_stream] at hfeeds
  refine ⟨yields, _, hfeeds, fun _ _ h' => hfeeds.unique h', ?_, htaken, rfl⟩
  have hall := htaken (yields.length + pieces.length)
  rw [List.take_of_length_le (Nat.le_add_right _ _), List.take_of_length_le (Nat.le_add_left _ _),
    hflat, completed_stream] at hall
  rw [hall, ← hback, List.take_of_length_le (List.length_map _).le]

/-- The frame of `hello`, a frame without payload and the frame of `iiwa`, cut inside a length,
inside a payload and around the empty frame. -/
theorem payloads_of_pieces_of_cut :
    (∀ p ∈ ([#[104, 101, 108, 108, 111], #[], #[105, 105, 119, 97]] : List Bytes),
        p.size ≤ maxLength) ∧
      ∃ yields d, Feeds {} [#[5], #[], #[0, 0, 0, 104, 101], #[108, 108, 111], #[0, 0],
          #[0, 0, 4, 0, 0], #[0, 105, 105, 119, 97]] yields d ∧
        yields.flatten = [#[104, 101, 108, 108, 111], #[], #[105, 105, 119, 97]] ∧
        (yields.take 3).flatten = [] ∧
        (yields.take 5).flatten = [#[104, 101, 108, 108, 111]] ∧
        (yields.take 6).flatten = [#[104, 101, 108, 108, 111], #[]] ∧
        d.buffered = 0 := by
  have hlen : ∀ p ∈ ([#[104, 101, 108, 108, 111], #[], #[105, 105, 119, 97]] : List Bytes),
      p.size ≤ maxLength := by
    decide
  refine ⟨hlen, ?_⟩
  obtain ⟨wire, hwire, hcut⟩ := payloads_of_pieces hlen
  have hbytes : #[5, 0, 0, 0, 104, 101, 108, 108, 111, 0, 0, 0, 0, 4, 0, 0, 0, 105, 105, 119, 97] =
      wire := Option.some.inj (hwire ▸ by decide)
  obtain ⟨yields, d, hfeeds, -, hall, htaken, hleft⟩ := hcut
    [#[5], #[], #[0, 0, 0, 104, 101], #[108, 108, 111], #[0, 0], #[0, 0, 4, 0, 0],
      #[0, 105, 105, 119, 97]] (by rw [← hbytes]; decide)
  exact ⟨yields, d, hfeeds, hall, htaken 3, htaken 5, htaken 6, hleft⟩

end Decoder

end ArmStream.Frame
