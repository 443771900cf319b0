import Mathlib
import ArmStream.Proofs.Frames
import ArmStream.Proofs.Peers
import ArmStream.Proofs.Run

/-!
# Accounts of streams

The account of a stream holds the frames that were handed to it, the bytes that it took and the
offers that were made to it. The buffer of its peer holds the bytes between the two. After each
offer that did not fail the peer lists exactly the frames that are not complete yet; after one that
failed it still lists those that this offer completed.

## Main definitions

- `Account`: the account of a stream.
- `Peer.Serves`: the buffer holds what the stream has not taken.
- `Peer.Settled`: the list of frame ends is that of the frames that are not complete.

## Main statements

- `Peer.Serves.push`, `Peer.Settled.push`: a frame more.
- `Peer.Serves.flush`, `Peer.Settled.flush`: an offer.
-/

namespace ArmStream

structure Account where
  /-- The payloads of the frames that were handed to it. -/
  frames : List (List UInt8) := []
  /-- The bytes that it took. -/
  taken : List UInt8 := []
  offers : List Offer := []

namespace Account

def hand (a : Account) (payload : List UInt8) : Account :=
  { a with frames := a.frames ++ [payload] }

def take (a : Account) (bytes : List UInt8) (offer : Offer) : Account :=
  { a with taken := a.taken ++ bytes, offers := a.offers ++ [offer] }

def completed (a : Account) : Nat := Frame.completed a.frames a.taken.length

/-- The stream took a part of what it was given, and each offer counts the frames that it
completed. -/
structure Balanced (a : Account) : Prop where
  taken : a.taken <+: Frame.stream a.frames
  short : ∀ payload ∈ a.frames, payload.length ≤ Frame.maxLength
  completed : a.completed = (a.offers.map Offer.frames).sum

theorem balanced_empty : Balanced {} := ⟨by simp, by simp, rfl⟩

end Account

namespace Frame

/-! ## Counting the ends of frames -/

theorem ends_concat (start : Nat) (ps : List (List UInt8)) (payload : List UInt8) :
    ends start (ps ++ [payload]) =
      ends start ps ++ [start + (stream ps).length + (encode payload).length] := by
  simp [ends_append, ends]

/-- A frame behind what was taken is not complete. -/
theorem completed_concat {ps : List (List UInt8)} {n : Nat} (h : n ≤ (stream ps).length)
    (payload : List UInt8) : completed (ps ++ [payload]) n = completed ps n := by
  have hlate : ¬ 0 + (stream ps).length + (encode payload).length ≤ n := by
    simp only [length_encode, headerLength]
    omega
  have hnone := List.countP_singleton (a := 0 + (stream ps).length + (encode payload).length)
    (p := fun e => decide (e ≤ n))
  rw [completed, ends_concat, List.countP_append, hnone, if_neg (by simpa using hlate),
    Nat.add_zero, completed]

/-- The frames that end within `m` bytes end within `n` bytes or behind them. -/
theorem countP_filter_ends (ps : List (List UInt8)) {m n : Nat} (h : n ≤ m) :
    ((ends 0 ps).filter (n < ·)).countP (· ≤ m) + completed ps n = completed ps m := by
  unfold completed
  generalize ends 0 ps = l
  induction l with
  | nil => rfl
  | cons e l ih =>
    by_cases hn : n < e
    · by_cases hm : e ≤ m
      · simp only [hn, hm, Nat.not_le_of_lt hn, decide_true, decide_false, not_false_eq_true,
          Bool.false_eq_true, List.filter_cons_of_pos, List.countP_cons_of_pos,
          List.countP_cons_of_neg]
        omega
      · simp only [hn, hm, Nat.not_le_of_lt hn, decide_true, decide_false, not_false_eq_true,
          Bool.false_eq_true, List.filter_cons_of_pos, List.countP_cons_of_neg]
        omega
    · have hm : e ≤ m := Nat.le_trans (Nat.le_of_not_lt hn) h
      simp only [hn, hm, Nat.le_of_not_lt hn, decide_true, decide_false, not_false_eq_true,
        Bool.false_eq_true, List.filter_cons_of_neg, List.countP_cons_of_pos]
      omega

end Frame

/-- In an ascending list the numbers above a bound come last. -/
theorem dropWhile_eq_filter {l : List Nat} (h : l.Pairwise (· < ·)) (n : Nat) :
    l.dropWhile (· ≤ n) = l.filter (n < ·) := by
  induction l with
  | nil => rfl
  | cons e l ih =>
    obtain ⟨hlt, hrest⟩ := List.pairwise_cons.1 h
    by_cases he : e ≤ n
    · simp [he, Nat.not_lt_of_le he, ih hrest]
    · have habove : ∀ x ∈ l, n < x := fun x hx => Nat.lt_trans (Nat.lt_of_not_le he) (hlt x hx)
      rw [List.dropWhile_cons_of_neg (by simpa using he),
        List.filter_cons_of_pos (by simpa using he),
        List.filter_eq_self.2 fun x hx => decide_eq_true (habove x hx)]

namespace Peer

/-- The buffer of a peer holds what its stream has not taken. -/
structure Serves (p : Peer) (a : Account) : Prop where
  offset_le : p.offset ≤ p.buffer.size
  offset_le_taken : p.offset ≤ a.taken.length
  stream : Frame.stream a.frames = a.taken ++ p.buffer.toList.drop p.offset

/-- The peer lists the frames that are not complete. The bytes before its buffer were taken. -/
structure Settled (p : Peer) (a : Account) : Prop where
  ends : p.frameEnds.map (· + (a.taken.length - p.offset)) =
    (Frame.ends 0 a.frames).filter (a.taken.length < ·)

variable {σ : Type} {p p' : Peer} {a : Account}

theorem serves_new (conn : Conn) : Serves { conn := conn } {} := ⟨by simp, by simp, by simp⟩

theorem settled_new (conn : Conn) : Settled { conn := conn } {} := ⟨rfl⟩

/-! ## A frame more -/

theorem Serves.length_stream (h : p.Serves a) :
    (Frame.stream a.frames).length = a.taken.length + p.unsent := by
  simp [h.stream, unsent]

theorem Serves.push (h : p.Serves a) {payload : Bytes} (hpush : p.push? payload = some p') :
    p'.Serves (a.hand payload.toList) := by
  obtain ⟨-, rfl⟩ := push?_eq hpush
  refine ⟨Nat.le_trans h.offset_le (by simp), h.offset_le_taken, ?_⟩
  have hdrop : (p.buffer.toList ++ Frame.encode payload.toList).drop p.offset =
      p.buffer.toList.drop p.offset ++ Frame.encode payload.toList :=
    List.drop_append_of_le_length (Array.length_toList ▸ h.offset_le)
  simp [Account.hand, h.stream, hdrop]

theorem Settled.push (h : p.Settled a) (hserves : p.Serves a) {payload : Bytes}
    (hpush : p.push? payload = some p') : p'.Settled (a.hand payload.toList) := by
  obtain ⟨-, rfl⟩ := push?_eq hpush
  have hlength := hserves.length_stream
  have hoffset := hserves.offset_le
  have htaken := hserves.offset_le_taken
  have hend : 0 + (Frame.stream a.frames).length + (Frame.encode payload.toList).length =
      p.buffer.size + (Frame.headerLength + payload.size) + (a.taken.length - p.offset) := by
    simp only [hlength, unsent, Frame.length_encode, Array.length_toList]
    omega
  have hlate : a.taken.length < 0 + (Frame.stream a.frames).length +
      (Frame.encode payload.toList).length := by
    simp only [hlength, Frame.length_encode, Frame.headerLength]
    omega
  constructor
  change (p.frameEnds ++ [_]).map (· + (a.taken.length - p.offset)) =
    (Frame.ends 0 (a.frames ++ [payload.toList])).filter (a.taken.length < ·)
  rw [Frame.ends_concat, List.filter_append, List.map_append, h.ends, List.map_singleton, ← hend,
    List.filter_cons_of_pos (by simpa using hlate), List.filter_nil]

end Peer

theorem Account.Balanced.hand {a : Account} (h : a.Balanced) {payload : List UInt8}
    (hlen : payload.length ≤ Frame.maxLength) : (a.hand payload).Balanced := by
  refine ⟨?_, ?_, ?_⟩
  · simp only [Account.hand, Frame.stream_append]
    exact h.taken.trans (List.prefix_append _ _)
  · intro q hq
    rcases List.mem_append.1 hq with hq | hq
    · exact h.short q hq
    · exact List.mem_singleton.1 hq ▸ hlen
  · simp only [Account.completed, Account.hand, Frame.completed_concat h.taken.length_le]
    exact h.completed

/-! ## An offer -/

namespace Peer

variable {σ : Type} {p : Peer} {a : Account} {n : Nat}

def front (p : Peer) (n : Nat) : List UInt8 := (p.buffer.toList.drop p.offset).take n

theorem length_front (h : n ≤ p.unsent) : (p.front n).length = n := by
  simpa [front, unsent] using Nat.min_eq_left h

theorem Serves.took (h : p.Serves a) (hn : n ≤ p.unsent) (offer : Offer) :
    (p.took n).Serves (a.take (p.front n) offer) := by
  have hoffset := h.offset_le
  have htaken := h.offset_le_taken
  refine ⟨?_, ?_, ?_⟩
  · simp only [unsent] at hn
    simp only [Peer.took]
    omega
  · simp only [Peer.took, Account.take, List.length_append, length_front hn]
    omega
  · simp only [Peer.took, Account.take, h.stream, front, List.append_assoc]
    rw [← List.drop_drop, List.take_append_drop]

theorem Serves.settle (h : p.Serves a) : p.settle.1.Serves a := by
  unfold Peer.settle
  split
  next hall =>
    refine ⟨Nat.le_refl _, Nat.zero_le _, ?_⟩
    have hnone : p.buffer.toList.drop p.offset = [] := by simp [hall]
    simp [h.stream, hnone]
  next => exact ⟨h.offset_le, h.offset_le_taken, h.stream⟩

theorem Settled.ascending (h : p.Settled a) : p.frameEnds.Pairwise (· < ·) := by
  have hascending := (Frame.ends_ascending 0 a.frames).filter (a.taken.length < ·)
  rw [← h.ends, List.pairwise_map] at hascending
  exact hascending.imp fun hlt => by omega

/-- The frames of a peer that end within its next bytes. -/
theorem Settled.countP_le (h : p.Settled a) (hserves : p.Serves a) (n : Nat) :
    p.frameEnds.countP (· ≤ p.offset + n) + a.completed =
      Frame.completed a.frames (a.taken.length + n) := by
  have htaken := hserves.offset_le_taken
  have hcount := Frame.countP_filter_ends a.frames (Nat.le_add_right a.taken.length n)
  rw [← h.ends, List.countP_map] at hcount
  rw [← hcount, Account.completed]
  congr 2
  funext e
  simp only [Function.comp_apply]
  exact decide_eq_decide.2 (by omega)

/-- After an offer that did not fail the peer forgets the frames that are complete. -/
theorem Settled.settle (h : p.Settled a) (hserves : p.Serves a) (hn : n ≤ p.unsent)
    (offer : Offer) : (p.took n).settle.1.Settled (a.take (p.front n) offer) := by
  have htaken := hserves.offset_le_taken
  have hserves' := (hserves.took hn offer).length_stream
  have hlength : (a.take (p.front n) offer).taken.length = a.taken.length + n := by
    simp [Account.take, length_front hn]
  -- the frames that stay, as ends in the whole stream
  have hleft : (p.frameEnds.dropWhile (· ≤ p.offset + n)).map (· + (a.taken.length - p.offset)) =
      (Frame.ends 0 a.frames).filter (a.taken.length + n < ·) := by
    have hsame (e : Nat) :
        decide (p.offset + n < e) = decide (a.taken.length + n < e + (a.taken.length - p.offset)) :=
      decide_eq_decide.2 (by omega)
    have hboth (e : Nat) : (decide (a.taken.length + n < e) && decide (a.taken.length < e)) =
        decide (a.taken.length + n < e) := by
      grind
    calc (p.frameEnds.dropWhile (· ≤ p.offset + n)).map (· + (a.taken.length - p.offset))
        = (p.frameEnds.map (· + (a.taken.length - p.offset))).filter (a.taken.length + n < ·) := by
          rw [dropWhile_eq_filter h.ascending, List.filter_map]
          exact congrArg _ (List.filter_congr fun e _ => hsame e)
      _ = (Frame.ends 0 a.frames).filter (a.taken.length + n < ·) := by
          rw [h.ends, List.filter_filter]
          exact List.filter_congr fun e _ => hboth e
  constructor
  rw [hlength]
  change _ = (Frame.ends 0 a.frames).filter (a.taken.length + n < ·)
  rw [← hleft]
  unfold Peer.settle
  split
  next hall =>
    -- all was taken, so no frame stays
    have hstream : (Frame.stream a.frames).length = a.taken.length + n := by
      rw [hlength] at hserves'
      simpa [unsent, hall, Account.take] using hserves'
    have hnone : (Frame.ends 0 a.frames).filter (a.taken.length + n < ·) = [] := by
      refine List.filter_eq_nil_iff.2 fun e he => ?_
      have hle := (Frame.mem_ends he).2
      simp only [decide_eq_true_eq]
      omega
    have hempty := List.map_eq_nil_iff.1 (hleft.trans hnone)
    change (p.frameEnds.dropWhile (· ≤ p.offset + n)).map _ = _
    rw [hempty]
    rfl
  next =>
    have hbase : a.taken.length + n - (p.took n).offset = a.taken.length - p.offset := by
      simp only [Peer.took]
      omega
    change (p.frameEnds.dropWhile (· ≤ p.offset + n)).map
      (· + (a.taken.length + n - (p.took n).offset)) = _
    rw [hbase]

theorem settle_frames (h : p.frameEnds.Pairwise (· < ·)) (n : Nat) :
    (p.took n).settle.2 = p.frameEnds.countP (· ≤ p.offset + n) := by
  have hdrop := dropWhile_eq_filter h (p.offset + n)
  have hsplit := List.length_eq_countP_add_countP (l := p.frameEnds) (p := (· ≤ p.offset + n))
  change p.frameEnds.length - (p.frameEnds.dropWhile (· ≤ p.offset + n)).length = _
  rw [hdrop, ← List.countP_eq_length_filter]
  simp only [decide_eq_true_eq, Nat.not_le] at hsplit
  omega

theorem Serves.flush (h : p.Serves a) (net : Net σ) (w : σ) :
    (p.flush net w).peer.Serves
      (a.take (p.front (p.flush net w).bytes) (.made p (p.flush net w))) := by
  obtain ⟨hn, ⟨-, hpeer, -⟩ | ⟨-, hpeer, -⟩⟩ := p.flush_eq net w
  · rw [hpeer]
    exact (h.took hn _).settle
  · rw [hpeer]
    exact h.took hn _

/-- An offer that did not fail counts the frames that it completed. -/
theorem Settled.flush (h : p.Settled a) (hserves : p.Serves a) {net : Net σ} {w : σ}
    (hsettled : (p.flush net w).outcome = .settled) :
    (p.flush net w).peer.Settled
        (a.take (p.front (p.flush net w).bytes) (.made p (p.flush net w))) ∧
      (p.flush net w).frames = (Offer.made p (p.flush net w)).frames := by
  obtain ⟨hn, ⟨-, hpeer, hframes⟩ | ⟨hfailed, -, -⟩⟩ := p.flush_eq net w
  · rw [hframes, settle_frames h.ascending, hpeer]
    exact ⟨h.settle hserves hn _, rfl⟩
  · exact absurd hsettled hfailed

end Peer

/-- An offer counts the frames that it completes. -/
theorem Account.Balanced.take {σ : Type} {a : Account} {p : Peer} (h : a.Balanced)
    (hserves : p.Serves a) (hsettled : p.Settled a) {r : Peer.Written σ}
    (hn : r.bytes ≤ p.unsent) : (a.take (p.front r.bytes) (.made p r)).Balanced := by
  have hcount := hsettled.countP_le hserves r.bytes
  refine ⟨?_, h.short, ?_⟩
  · refine ⟨p.buffer.toList.drop (p.offset + r.bytes), ?_⟩
    exact (hserves.took hn _).stream.symm
  · simp only [Account.completed, Account.take, List.length_append, Peer.length_front hn] at *
    rw [← hcount, List.map_append, List.sum_append, ← h.completed, Nat.add_comm]
    simp [Offer.made, Account.completed]

end ArmStream
