import ArmStream.Frame.Decoder

/-!
# Frames in a stream

Frames stand in a stream one behind the other. Of an initial part of the stream some frames are
complete, and at most one more has begun. A decoder that gets this part, cut into any pieces, gives
back exactly the complete frames, in order.

## Main definitions

- `Frame.stream`: the bytes of several frames.
- `Frame.ends`: where the frames end.
- `Frame.completed`: how many frames end within the first bytes.
- `Frame.remainder`: what is left when the complete frames are taken out.
- `Frame.Decoder.announced`: the length in front of a decoder's buffer.

## Main statements

- `Frame.append?_eq_some_iff`: writing a frame.
- `Frame.Decoder.next_eq`, `Frame.Decoder.buffer_of_next`: what a decoder finds in any buffer.
- `Frame.Decoder.drain_of_isPrefix`: what a decoder takes from an initial part of a stream.
- `Frame.Decoder.drain_extend`: what it takes when a piece more comes.
- `Frame.Decoder.feedAll_of_isPrefix`: the same for a part that comes in pieces.
-/

namespace ArmStream.Frame

def stream (payloads : List (List UInt8)) : List UInt8 := payloads.flatMap encode

/-- Where the frames end, the first of which begins at `start`. -/
def ends (start : Nat) : List (List UInt8) → List Nat
  | [] => []
  | payload :: rest =>
    (start + (encode payload).length) :: ends (start + (encode payload).length) rest

/-- How many of the frames end within the first `n` bytes. -/
def completed (payloads : List (List UInt8)) (n : Nat) : Nat := (ends 0 payloads).countP (· ≤ n)

@[simp] theorem length_encode (payload : List UInt8) :
    (encode payload).length = headerLength + payload.length := by
  simp [encode]

@[simp] theorem stream_nil : stream [] = [] := rfl

@[simp] theorem stream_cons (payload : List UInt8) (rest : List (List UInt8)) :
    stream (payload :: rest) = encode payload ++ stream rest := rfl

@[simp] theorem stream_append (ps qs : List (List UInt8)) :
    stream (ps ++ qs) = stream ps ++ stream qs := by
  simp [stream]

/-- A frame is written if its payload is not too long. -/
theorem append?_eq_some_iff {buffer payload buffer' : Bytes} :
    append? buffer payload = some buffer' ↔
      payload.size ≤ maxLength ∧ buffer' = buffer ++ (encode payload.toList).toArray := by
  have hframe : buffer ++ LittleEndian.encode headerLength payload.size ++ payload =
      buffer ++ (encode payload.toList).toArray := by
    apply Array.toList_inj.1
    simp [encode]
  unfold append? header?
  by_cases hsize : payload.size ≤ maxLength
  · simp only [hsize, if_true, hframe, Option.some.injEq, true_and]
    exact eq_comm
  · simp [hsize]

/-! ## The ends of frames -/

theorem ends_append (start : Nat) (ps qs : List (List UInt8)) :
    ends start (ps ++ qs) = ends start ps ++ ends (start + (stream ps).length) qs := by
  induction ps generalizing start with
  | nil => simp [ends]
  | cons p ps ih => simp [ends, ih, Nat.add_assoc]

theorem length_ends (start : Nat) (ps : List (List UInt8)) :
    (ends start ps).length = ps.length := by
  induction ps generalizing start with
  | nil => rfl
  | cons p ps ih => simp [ends, ih]

theorem ends_add (d start : Nat) (ps : List (List UInt8)) :
    ends (d + start) ps = (ends start ps).map (d + ·) := by
  induction ps generalizing start with
  | nil => rfl
  | cons p ps ih => simp [ends, ← ih, Nat.add_assoc]

theorem mem_ends {start e : Nat} {ps : List (List UInt8)} (h : e ∈ ends start ps) :
    start < e ∧ e ≤ start + (stream ps).length := by
  induction ps generalizing start with
  | nil => simp [ends] at h
  | cons p ps ih =>
    simp only [ends, length_encode, headerLength, List.mem_cons] at h
    simp only [stream_cons, List.length_append, length_encode, headerLength]
    rcases h with rfl | h
    · omega
    · have := ih h
      omega

theorem ends_ascending (start : Nat) (ps : List (List UInt8)) :
    (ends start ps).Pairwise (· < ·) := by
  induction ps generalizing start with
  | nil => exact .nil
  | cons p ps ih => exact .cons (fun e he => (mem_ends he).1) (ih _)

/-! ## Complete frames -/

theorem completed_cons (p : List UInt8) (ps : List (List UInt8)) (n : Nat) :
    completed (p :: ps) n =
      if (encode p).length ≤ n then completed ps (n - (encode p).length) + 1 else 0 := by
  have hshift : ends (0 + (encode p).length) ps = (ends 0 ps).map ((encode p).length + ·) := by
    rw [Nat.add_comm, ends_add]
  split
  next h =>
    have hcount : (fun e => decide ((encode p).length + e ≤ n)) =
        fun e => decide (e ≤ n - (encode p).length) := by
      funext e
      exact decide_eq_decide.2 (by omega)
    simp only [completed, ends, hshift, List.countP_cons, List.countP_map, Function.comp_def,
      hcount]
    simpa using h
  next h =>
    refine List.countP_eq_zero.2 fun e he => ?_
    have hle : (encode p).length ≤ e := by
      rcases List.mem_cons.1 he with rfl | he
      · omega
      · have := (mem_ends he).1
        omega
    simp only [decide_eq_true_eq]
    omega

theorem completed_le (ps : List (List UInt8)) (n : Nat) : completed ps n ≤ n := by
  induction ps generalizing n with
  | nil => exact Nat.zero_le n
  | cons p ps ih =>
    rw [completed_cons]
    split
    next h =>
      have := ih (n - (encode p).length)
      simp only [length_encode, headerLength] at h this ⊢
      omega
    next => exact Nat.zero_le n

theorem completed_mono (ps : List (List UInt8)) {m n : Nat} (h : m ≤ n) :
    completed ps m ≤ completed ps n :=
  List.countP_mono_left fun e _ he => by
    simp only [decide_eq_true_eq] at he ⊢
    omega

/-- Complete frames may be counted from behind some of them. -/
theorem completed_drop {ps : List (List UInt8)} {k n : Nat} (h : k ≤ completed ps n) :
    (stream (ps.take k)).length ≤ n ∧
      completed ps n = k + completed (ps.drop k) (n - (stream (ps.take k)).length) := by
  induction k generalizing ps n with
  | zero => simp
  | succ k ih =>
    cases ps with
    | nil => simp [completed, ends] at h
    | cons p ps =>
      rw [completed_cons] at h ⊢
      split at h
      next hle =>
        obtain ⟨hlen, hcount⟩ := ih (Nat.le_of_succ_le_succ h)
        rw [if_pos hle, List.take_succ_cons, stream_cons, List.length_append, List.drop_succ_cons,
          ← Nat.sub_sub]
        omega
      next => omega

/-- What is left of the first bytes of a stream when its complete frames are taken out. -/
def remainder (payloads : List (List UInt8)) (b : List UInt8) : List UInt8 :=
  b.drop (stream (payloads.take (completed payloads b.length))).length

theorem stream_append_remainder {ps : List (List UInt8)} {b : List UInt8} (h : b <+: stream ps) :
    stream (ps.take (completed ps b.length)) ++ remainder ps b = b := by
  obtain ⟨hlen, -⟩ := completed_drop (Nat.le_refl (completed ps b.length))
  have hbegin : stream (ps.take (completed ps b.length)) <+: stream ps :=
    ⟨stream (ps.drop _), by rw [← stream_append, List.take_append_drop]⟩
  exact List.prefix_iff_eq_append.1 (List.prefix_of_prefix_length_le hbegin h hlen)

/-- The payloads of the frames that end behind the first `m` bytes and within the first `n`. -/
def between (payloads : List (List UInt8)) (m n : Nat) : List (List UInt8) :=
  (payloads.take (completed payloads n)).drop (completed payloads m)

theorem between_zero (ps : List (List UInt8)) (n : Nat) :
    between ps 0 n = ps.take (completed ps n) := by
  have hnone : completed ps 0 = 0 := Nat.le_zero.1 (completed_le ps 0)
  rw [between, hnone, List.drop_zero]

theorem between_append_between (ps : List (List UInt8)) {l m n : Nat} (hlm : l ≤ m) (hmn : m ≤ n) :
    between ps l m ++ between ps m n = between ps l n := by
  have hfirst := completed_mono ps hlm
  have hsecond := completed_mono ps hmn
  have hcount : completed ps n - completed ps l =
      (completed ps m - completed ps l) + (completed ps n - completed ps m) := by omega
  have hstart : completed ps l + (completed ps m - completed ps l) = completed ps m := by omega
  simp only [between, List.drop_take]
  rw [hcount, List.take_add, List.drop_drop, hstart]

/-- Bytes that follow the bytes `b` belong to the frames that `b` leaves incomplete. -/
theorem fed_append {ps : List (List UInt8)} {b c : List UInt8} (h : b ++ c <+: stream ps) :
    remainder ps b ++ c <+: stream (ps.drop (completed ps b.length)) ∧
    completed ps (b ++ c).length = completed ps b.length +
      completed (ps.drop (completed ps b.length)) (remainder ps b ++ c).length ∧
    remainder ps (b ++ c) =
      remainder (ps.drop (completed ps b.length)) (remainder ps b ++ c) := by
  obtain ⟨k, hk⟩ : ∃ k, k = completed ps b.length := ⟨_, rfl⟩
  have hsplit : stream (ps.take k) ++ remainder ps b = b :=
    hk ▸ stream_append_remainder ((List.prefix_append b c).trans h)
  have hall : b ++ c = stream (ps.take k) ++ (remainder ps b ++ c) := by
    rw [← List.append_assoc, hsplit]
  have hframes : stream ps = stream (ps.take k) ++ stream (ps.drop k) := by
    rw [← stream_append, List.take_append_drop]
  have hcount : completed ps (b ++ c).length =
      k + completed (ps.drop k) (remainder ps b ++ c).length := by
    have hmono : k ≤ completed ps (b ++ c).length := hk ▸ completed_mono ps (by simp)
    rw [(completed_drop hmono).2, hall, List.length_append, Nat.add_sub_cancel_left]
  rw [← hk]
  refine ⟨?_, hcount, ?_⟩
  · rw [hall, hframes] at h
    exact (List.prefix_append_right_inj _).1 h
  · rw [remainder, remainder, hcount, List.take_add, stream_append, List.length_append, hall,
      List.drop_length_add_append]

namespace Decoder

/-! ## Taking frames -/

/-- The first bytes of a frame say how long it is. -/
theorem decode_take_header {b payload rest : List UInt8} (hlen : payload.length ≤ maxLength)
    (h : b <+: encode payload ++ rest) (hsize : headerLength ≤ b.length) :
    LittleEndian.decode (b.take headerLength) = payload.length := by
  have htake : b.take headerLength = LittleEndian.encode headerLength payload.length := by
    rw [List.prefix_iff_eq_take.1 h, List.take_take, Nat.min_eq_left hsize, encode,
      List.append_assoc]
    exact List.take_left' (by simp)
  rw [htake, LittleEndian.decode_encode]
  exact Nat.mod_eq_of_lt (Nat.lt_of_le_of_lt hlen (by decide))

theorem next_of_frame {d : Decoder} {payload rest : List UInt8}
    (hlen : payload.length ≤ maxLength) (h : d.buffer.toList = encode payload ++ rest) :
    d.next = .frame payload.toArray ⟨rest.toArray⟩ := by
  obtain ⟨buffer⟩ := d
  obtain rfl : buffer = (encode payload ++ rest).toArray := by simpa using congrArg List.toArray h
  have hsize : headerLength ≤ (encode payload ++ rest).length := by
    simp [Nat.add_assoc]
  have hdecode := decode_take_header hlen (List.prefix_refl (encode payload ++ rest)) hsize
  have hbody : ((encode payload ++ rest).toArray.extract headerLength
      (headerLength + payload.length)) = payload.toArray := by
    simp [encode]
  have hrest : ((encode payload ++ rest).toArray.extract (headerLength + payload.length)
      (encode payload ++ rest).toArray.size) = rest.toArray := by
    simp
  unfold next
  rw [if_neg (by simpa using hsize), ← hrest, ← hbody]
  simp [hdecode, Nat.not_lt_of_le hlen]

/-- A frame that has only begun gives nothing yet. -/
theorem next_of_begun {d : Decoder} {payload rest : List UInt8}
    (hlen : payload.length ≤ maxLength) (h : d.buffer.toList <+: encode payload ++ rest)
    (hshort : d.buffer.size < (encode payload).length) : d.next = .incomplete := by
  obtain ⟨buffer⟩ := d
  unfold next
  split
  next => rfl
  next hheader =>
    have hdecode := decode_take_header hlen h (by simpa using hheader)
    rw [length_encode] at hshort
    simp [hdecode, Nat.not_lt_of_le hlen, hshort]

theorem next_of_empty {d : Decoder} (h : d.buffer.toList = []) : d.next = .incomplete := by
  have hsize : d.buffer.size = 0 := by simpa using congrArg List.length h
  simp [next, hsize, headerLength]

/-- The length that stands in front of the buffer. -/
def announced (d : Decoder) : Nat := LittleEndian.decode (d.buffer.toList.take headerLength)

/-- A decoder looks at the announced length only if it is there, and at the payload only if its
length may be. -/
theorem next_eq (d : Decoder) :
    d.next =
      if d.buffered < headerLength then .incomplete
      else if maxLength < d.announced then .tooLong d.announced
      else if d.buffered < headerLength + d.announced then .incomplete
      else .frame ((d.buffer.toList.drop headerLength).take d.announced).toArray
        ⟨(d.buffer.toList.drop (headerLength + d.announced)).toArray⟩ := by
  have hlen : (d.buffer.extract 0 headerLength).toList = d.buffer.toList.take headerLength := by
    simp
  have hpayload (n : Nat) : d.buffer.extract headerLength (headerLength + n) =
      ((d.buffer.toList.drop headerLength).take n).toArray := by
    apply Array.toList_inj.1
    simp [List.extract_eq_take_drop]
  have hrest (n : Nat) : d.buffer.extract n d.buffer.size = (d.buffer.toList.drop n).toArray := by
    apply Array.toList_inj.1
    rw [Array.toList_extract, List.extract_eq_take_drop, List.take_of_length_le (by simp)]
  unfold next buffered announced
  dsimp only
  rw [hlen, hpayload, hrest]

/-- The bytes that announce a length are that length written out. -/
theorem encode_announced {d : Decoder} (h : headerLength ≤ d.buffered) :
    LittleEndian.encode headerLength d.announced = d.buffer.toList.take headerLength := by
  have hfront : (d.buffer.toList.take headerLength).length = headerLength :=
    List.length_take_of_le (by rwa [Array.length_toList])
  have hback := LittleEndian.encode_decode (d.buffer.toList.take headerLength)
  rwa [hfront] at hback

/-- A frame that comes stood in front of what is left. -/
theorem buffer_of_next {d d' : Decoder} {payload : Bytes} (h : d.next = .frame payload d') :
    payload.size ≤ maxLength ∧ d.buffer.toList = encode payload.toList ++ d'.buffer.toList := by
  rw [next_eq] at h
  split at h
  next => cases h
  next hheader =>
    split at h
    next => cases h
    next hlen =>
      split at h
      next => cases h
      next hsize =>
        cases h
        have hbody : ((d.buffer.toList.drop headerLength).take d.announced).length =
            d.announced := by
          refine List.length_take_of_le ?_
          rw [List.length_drop, Array.length_toList]
          simp only [buffered] at hsize
          omega
        refine ⟨by simpa [hbody] using hlen, ?_⟩
        rw [encode, hbody, encode_announced (Nat.le_of_not_lt hheader), ← List.drop_drop,
          List.append_assoc, List.take_append_drop, List.take_append_drop]

theorem takeAll_of_isPrefix {payloads : List (List UInt8)}
    (hlen : ∀ payload ∈ payloads, payload.length ≤ maxLength) {d : Decoder}
    (h : d.buffer.toList <+: stream payloads) (fuel : Nat) (taken : List Bytes)
    (hfuel : completed payloads d.buffer.size < fuel) :
    d.takeAll fuel taken =
      (taken.reverse ++ (payloads.take (completed payloads d.buffer.size)).map List.toArray, none,
        ⟨(remainder payloads d.buffer.toList).toArray⟩) := by
  induction payloads generalizing d fuel taken with
  | nil =>
    obtain ⟨fuel, rfl⟩ := Nat.exists_eq_succ_of_ne_zero (Nat.ne_of_gt hfuel)
    have hempty : d.buffer.toList = [] := by simpa using h
    simp [takeAll, next_of_empty hempty, remainder]
  | cons payload rest ih =>
    obtain ⟨fuel, rfl⟩ := Nat.exists_eq_succ_of_ne_zero (Nat.ne_of_gt (Nat.zero_lt_of_lt hfuel))
    have hpayload := hlen payload (by simp)
    by_cases hcomplete : (encode payload).length ≤ d.buffer.size
    -- the first frame is complete, and the buffer behind it begins the rest of the stream
    · obtain ⟨tail, htail⟩ : ∃ tail, d.buffer.toList = encode payload ++ tail := by
        have hbegin : encode payload <+: d.buffer.toList :=
          List.prefix_of_prefix_length_le (List.prefix_append _ _) h (by simpa using hcomplete)
        exact hbegin.imp fun _ => Eq.symm
      have hnext := next_of_frame hpayload htail
      have htail' : tail <+: stream rest := by
        rw [htail, stream_cons] at h
        exact (List.prefix_append_right_inj _).1 h
      have hsize : d.buffer.size = (encode payload).length + tail.length := by
        simpa using congrArg List.length htail
      have hcount : completed (payload :: rest) d.buffer.size = completed rest tail.length + 1 := by
        rw [completed_cons, if_pos hcomplete, hsize, Nat.add_sub_cancel_left]
      have htaken := ih (fun p hp => hlen p (List.mem_cons_of_mem payload hp))
        (d := ⟨tail.toArray⟩) htail' fuel (payload.toArray :: taken) (by simpa [hcount] using hfuel)
      have hleft : remainder (payload :: rest) d.buffer.toList = remainder rest tail := by
        have hcount' : completed (payload :: rest) d.buffer.toList.length =
            completed rest tail.length + 1 := by simpa using hcount
        rw [remainder, hcount', htail, List.take_succ_cons, stream_cons, List.length_append,
          List.drop_length_add_append, remainder]
      simp [takeAll, hnext, htaken, hcount, hleft]
    -- the first frame is cut, so nothing is taken
    · have hnext := next_of_begun hpayload h (Nat.lt_of_not_le hcomplete)
      have hcount : completed (payload :: rest) d.buffer.size = 0 := by
        rw [completed_cons, if_neg hcomplete]
      simp [takeAll, hnext, hcount, remainder]

theorem drain_of_isPrefix {payloads : List (List UInt8)}
    (hlen : ∀ payload ∈ payloads, payload.length ≤ maxLength) {d : Decoder}
    (h : d.buffer.toList <+: stream payloads) :
    d.drain =
      ((payloads.take (completed payloads d.buffer.size)).map List.toArray, none,
        ⟨(remainder payloads d.buffer.toList).toArray⟩) := by
  simpa [drain] using takeAll_of_isPrefix hlen h (d.buffered + 1) []
    (Nat.lt_succ_of_le (completed_le payloads d.buffer.size))

/-! ## A stream in pieces -/

/-- Feeds pieces one after the other and takes the frames that each of them completes, up to a
frame that is too long. -/
def feedAll (d : Decoder) : List Bytes → List Bytes × Option Nat × Decoder
  | [] => ([], none, d)
  | piece :: pieces =>
    match (d.extend piece).drain with
    | (frames, some len, d) => (frames, some len, d)
    | (frames, none, d) =>
      let (more, e, d) := feedAll d pieces
      (frames ++ more, e, d)

/-- A decoder that got `b` and gave back the frames in it gets one piece more. -/
theorem drain_extend {payloads : List (List UInt8)}
    (hlen : ∀ payload ∈ payloads, payload.length ≤ maxLength) {b : List UInt8} {piece : Bytes}
    (h : b ++ piece.toList <+: stream payloads) :
    (extend ⟨(remainder payloads b).toArray⟩ piece).drain =
      ((between payloads b.length (b ++ piece.toList).length).map List.toArray, none,
        ⟨(remainder payloads (b ++ piece.toList)).toArray⟩) := by
  obtain ⟨hrest, hcount, hleft⟩ := fed_append h
  have hbuffer : (extend ⟨(remainder payloads b).toArray⟩ piece).buffer.toList =
      remainder payloads b ++ piece.toList := by simp [extend]
  have hsize : (extend ⟨(remainder payloads b).toArray⟩ piece).buffer.size =
      (remainder payloads b ++ piece.toList).length := by simp [extend]
  have hdrain := drain_of_isPrefix (fun p hp => hlen p (List.mem_of_mem_drop hp)) (hbuffer ▸ hrest)
  rw [hdrain, hbuffer, hsize, hleft, between, hcount, List.drop_take, Nat.add_sub_cancel_left]

/-- The same for several pieces. -/
theorem feedAll_of_fed {payloads : List (List UInt8)}
    (hlen : ∀ payload ∈ payloads, payload.length ≤ maxLength) {b : List UInt8}
    {pieces : List Bytes} (h : b ++ pieces.flatMap Array.toList <+: stream payloads) :
    feedAll ⟨(remainder payloads b).toArray⟩ pieces =
      ((between payloads b.length (b ++ pieces.flatMap Array.toList).length).map List.toArray, none,
        ⟨(remainder payloads (b ++ pieces.flatMap Array.toList)).toArray⟩) := by
  induction pieces generalizing b with
  | nil => simp [feedAll, between]
  | cons piece pieces ih =>
    rw [List.flatMap_cons, ← List.append_assoc] at h ⊢
    have hdrain := drain_extend hlen ((List.prefix_append _ _).trans h)
    have hmore := between_append_between payloads
      (List.prefix_append b piece.toList).length_le
      (List.prefix_append (b ++ piece.toList) (pieces.flatMap Array.toList)).length_le
    simp only [feedAll, hdrain, ih h]
    rw [← List.map_append, hmore]

/-- From any pieces of an initial part of a stream of frames that are not too long, a decoder takes
exactly the complete frames. -/
theorem feedAll_of_isPrefix {payloads : List (List UInt8)}
    (hlen : ∀ payload ∈ payloads, payload.length ≤ maxLength) {pieces : List Bytes}
    (h : pieces.flatMap Array.toList <+: stream payloads) :
    feedAll {} pieces =
      ((payloads.take (completed payloads (pieces.flatMap Array.toList).length)).map List.toArray,
        none, ⟨(remainder payloads (pieces.flatMap Array.toList)).toArray⟩) := by
  have hnew : remainder payloads [] = [] := List.drop_nil
  have hfed := feedAll_of_fed hlen (b := []) h
  rwa [hnew, List.length_nil, between_zero, List.nil_append] at hfed

end Decoder

end ArmStream.Frame
