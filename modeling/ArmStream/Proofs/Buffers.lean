import ArmStream.Proofs.Accounts

/-!
# What the buffer of a peer holds

From some place on, which the stream has passed, the buffer of a peer is made of whole frames, and
the peer lists where these end. A frame more goes behind them; the bytes that the stream takes
move the offset over them. After an offer that did not fail the frames that are complete leave the
list, and the place moves behind them; so the stream lacks bytes of each frame that is left. A
peer without frames has an empty buffer.

## Main definitions

- `Peer.Holds`: the frames in the buffer.
- `Peer.Unfinished`: the stream lacks bytes of each frame that the peer lists.

## Main statements

- `Frame.exists_dropWhile_ends`: forgetting the frames that are complete.
- `Peer.Holds.push`, `Peer.Holds.flush`: what the operations keep.
- `Peer.Holds.unsent_eq_zero_iff`: nothing is unsent exactly if no frame is listed.
-/

namespace ArmStream

namespace Frame

/-- Of frames that stand one behind the other, those that end within the first `n` bytes come
first. The others start within these bytes and end behind them. -/
theorem exists_dropWhile_ends {start n : Nat} (h : start ≤ n) (frames : List (List UInt8)) :
    ∃ done left, frames = done ++ left ∧ start + (stream done).length ≤ n ∧
      (ends start frames).dropWhile (· ≤ n) = ends (start + (stream done).length) left ∧
      ∀ e ∈ ends (start + (stream done).length) left, n < e := by
  induction frames generalizing start with
  | nil => exact ⟨[], [], rfl, h, rfl, by simp [ends]⟩
  | cons payload frames ih =>
    by_cases hend : start + (encode payload).length ≤ n
    · obtain ⟨done, left, rfl, hdone, hdrop, hleft⟩ := ih hend
      refine ⟨payload :: done, left, rfl, ?_⟩
      simp only [stream_cons, List.length_append, ← Nat.add_assoc]
      exact ⟨hdone, by rw [ends, List.dropWhile_cons_of_pos (by simpa using hend), hdrop], hleft⟩
    · refine ⟨[], payload :: frames, rfl, h, ?_, ?_⟩
      · rw [ends, List.dropWhile_cons_of_neg (by simpa using hend)]
        rfl
      · intro e he
        rcases List.mem_cons.mp he with rfl | he
        · exact Nat.lt_of_not_le hend
        · exact Nat.lt_trans (Nat.lt_of_not_le hend) (mem_ends he).1

/-- The last frame ends where the stream does. -/
theorem getLast?_ends {frames : List (List UInt8)} (h : frames ≠ []) (start : Nat) :
    (ends start frames).getLast? = some (start + (stream frames).length) := by
  rcases List.eq_nil_or_concat frames with rfl | ⟨front, payload, rfl⟩
  · exact absurd rfl h
  · simp [ends_concat, Nat.add_assoc]

end Frame

namespace Peer

/-- From `start` on, which the stream has passed, the buffer is made of these frames, and the peer
lists where they end. -/
structure Holds (p : Peer) (start : Nat) (frames : List (List UInt8)) : Prop where
  start_le : start ≤ p.offset
  offset_le : p.offset ≤ p.buffer.size
  bytes : p.buffer.toList.drop start = Frame.stream frames
  ends : p.frameEnds = Frame.ends start frames
  /-- What the stream took completely does not stay in the buffer. -/
  empty : frames = [] → p.buffer = #[] ∧ p.offset = 0

/-- The stream lacks bytes of each frame that the peer lists. -/
def Unfinished (p : Peer) : Prop := ∀ e ∈ p.frameEnds, p.offset < e

variable {σ : Type} {p p' : Peer} {start n : Nat} {frames : List (List UInt8)}

theorem holds_new (conn : Conn) : Holds { conn := conn } 0 [] :=
  ⟨Nat.le_refl _, Nat.le_refl _, rfl, rfl, fun _ => ⟨rfl, rfl⟩⟩

theorem unfinished_new (conn : Conn) : Unfinished { conn := conn } := by
  simp [Unfinished]

namespace Holds

/-- The buffer ends with the last frame. -/
theorem size_eq (h : p.Holds start frames) :
    p.buffer.size = start + (Frame.stream frames).length := by
  have hstart := Nat.le_trans h.start_le h.offset_le
  have hlength := congrArg List.length h.bytes
  rw [List.length_drop, Array.length_toList] at hlength
  omega

theorem length_frameEnds (h : p.Holds start frames) : p.frameEnds.length = frames.length := by
  rw [h.ends, Frame.length_ends]

theorem ascending (h : p.Holds start frames) : p.frameEnds.Pairwise (· < ·) :=
  h.ends ▸ Frame.ends_ascending start frames

/-- The bytes that the stream has not taken end with the frames. -/
theorem unsent_suffix (h : p.Holds start frames) :
    p.buffer.toList.drop p.offset <:+ Frame.stream frames := by
  rw [← h.bytes, ← Nat.add_sub_of_le h.start_le, ← List.drop_drop]
  exact List.drop_suffix _ _

/-- A peer with nothing unsent lists no frame, if the stream lacks bytes of each that it lists. -/
theorem unsent_eq_zero_iff (h : p.Holds start frames) (hopen : p.Unfinished) :
    p.unsent = 0 ↔ p.frameEnds = [] := by
  constructor
  · intro hunsent
    by_contra hne
    have hframes : frames ≠ [] := by
      rintro rfl
      exact hne h.ends
    have hlast := Frame.getLast?_ends hframes start
    rw [← h.ends, ← h.size_eq] at hlast
    have := hopen _ (List.mem_of_getLast? hlast)
    simp only [unsent] at hunsent
    omega
  · intro hnil
    have hframes : frames = [] := by
      rw [← List.length_eq_zero_iff, ← h.length_frameEnds, hnil, List.length_nil]
    simp [unsent, h.empty hframes]

/-! ## A frame more -/

theorem push (h : p.Holds start frames) {payload : Bytes} (hpush : p.push? payload = some p') :
    p'.Holds start (frames ++ [payload.toList]) := by
  obtain ⟨-, rfl⟩ := push?_eq hpush
  have hstart := Nat.le_trans h.start_le h.offset_le
  have hsize := h.size_eq
  refine ⟨h.start_le, Nat.le_trans h.offset_le (by simp), ?_, ?_, by simp⟩
  · simp [List.drop_append_of_le_length, hstart, h.bytes]
  · simp [h.ends, Frame.ends_concat, hsize]

theorem unfinished_push (h : p.Holds start frames) (hopen : p.Unfinished) {payload : Bytes}
    (hpush : p.push? payload = some p') : p'.Unfinished := by
  obtain ⟨-, rfl⟩ := push?_eq hpush
  have hoffset := h.offset_le
  intro e he
  rcases List.mem_append.mp he with he | he
  · exact hopen e he
  · obtain rfl := List.mem_singleton.mp he
    simp only [Frame.headerLength]
    omega

/-! ## An offer -/

theorem took (h : p.Holds start frames) (hn : n ≤ p.unsent) : (p.took n).Holds start frames := by
  have hoffset := h.offset_le
  have hstart := h.start_le
  simp only [unsent] at hn
  refine ⟨Nat.le_trans hstart (Nat.le_add_right _ _), ?_, h.bytes, h.ends, ?_⟩
  · simp only [Peer.took]
    omega
  · intro hframes
    obtain ⟨hbuffer, hzero⟩ := h.empty hframes
    simpa [Peer.took, hbuffer, hzero] using hn

/-- After the frames that are complete are forgotten, the stream lacks bytes of all others. -/
theorem settle (h : p.Holds start frames) :
    ∃ start' frames', p.settle.1.Holds start' frames' ∧ frames' <:+ frames ∧
      p.settle.1.Unfinished := by
  obtain ⟨done, left, rfl, hdone, hdrop, hleft⟩ := Frame.exists_dropWhile_ends h.start_le frames
  have hsize := h.size_eq
  rw [Frame.stream_append, List.length_append, ← Nat.add_assoc] at hsize
  rw [← h.ends] at hdrop
  unfold Peer.settle
  split
  next hall =>
    -- all was taken, so no frame is left
    have hnone : left = [] := by
      by_contra hne
      have hlast := Frame.getLast?_ends hne (start + (Frame.stream done).length)
      have := hleft _ (List.mem_of_getLast? hlast)
      omega
    subst hnone
    refine ⟨0, [], ⟨Nat.le_refl _, Nat.le_refl _, rfl, hdrop, fun _ => ⟨rfl, rfl⟩⟩,
      List.nil_suffix, ?_⟩
    simp [Unfinished, hdrop, Frame.ends]
  next hsome =>
    have hoffset := h.offset_le
    refine ⟨start + (Frame.stream done).length, left, ⟨hdone, hoffset, ?_, hdrop, ?_⟩,
      List.suffix_append _ _, ?_⟩
    · rw [← List.drop_drop, h.bytes, Frame.stream_append, List.drop_left]
    · rintro rfl
      simp only [Frame.stream_nil, List.length_nil, Nat.add_zero] at hsize
      omega
    · rw [Unfinished, hdrop]
      exact hleft

theorem flush (h : p.Holds start frames) (net : Net σ) (w : σ) :
    ∃ start' frames', (p.flush net w).peer.Holds start' frames' ∧ frames' <:+ frames ∧
      ((p.flush net w).outcome = .settled → (p.flush net w).peer.Unfinished) := by
  obtain ⟨hn, ⟨hsettled, hpeer, -⟩ | ⟨hfailed, hpeer, -⟩⟩ := p.flush_eq net w
  · obtain ⟨start', frames', hholds, hsuffix, hopen⟩ := (h.took hn).settle
    rw [hpeer]
    exact ⟨start', frames', hholds, hsuffix, fun _ => hopen⟩
  · rw [hpeer]
    exact ⟨start, frames, h.took hn, List.suffix_rfl, fun hsettled => absurd hsettled hfailed⟩

end Holds

/-- An offer leaves no more unsent than there was. -/
theorem unsent_flush_le (net : Net σ) (p : Peer) (w : σ) :
    (p.flush net w).peer.unsent ≤ p.unsent := by
  obtain ⟨hn, ⟨-, hpeer, -⟩ | ⟨-, hpeer, -⟩⟩ := p.flush_eq net w
  · rw [hpeer, settle]
    split
    next => simp [unsent]
    next =>
      have := p.unsent_took (p.flush net w).bytes
      simp only [unsent, Peer.took] at this ⊢
      omega
  · rw [hpeer, unsent_took]
    omega

end Peer

end ArmStream
