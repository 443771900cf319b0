import ArmStream.Link.Peer
import ArmStream.Proofs.Frames

/-!
# What a peer does with its bytes

An offer moves the offset of a peer by the bytes that its stream took and does nothing else to it.
Only an offer that did not fail counts frames; it forgets those that end within the offset. No
frame is lost or counted twice on the way.

## Main definitions

- `Peer.took`: a peer after its stream took some bytes.

## Main statements

- `Peer.push?_eq`: a frame more.
- `Peer.offer_induction`, `Peer.flush_cases`: what an offer does.
- `Peer.length_flush`: frames are counted or kept.
-/

namespace ArmStream.Peer

variable {σ : Type} {p p' : Peer}

/-! ## A frame more -/

theorem push?_eq {payload : Bytes} (h : p.push? payload = some p') :
    payload.size ≤ Frame.maxLength ∧
      p' = { p with
        buffer := p.buffer ++ (Frame.encode payload.toList).toArray
        frameEnds := p.frameEnds ++ [p.buffer.size + (Frame.headerLength + payload.size)] } := by
  unfold push? at h
  split at h
  next => simp at h
  next buffer hbuffer =>
    obtain ⟨hsize, rfl⟩ := Frame.append?_eq_some_iff.1 hbuffer
    obtain rfl := Option.some.inj h
    refine ⟨hsize, ?_⟩
    simp [Frame.encode]

/-! ## Offers -/

def took (p : Peer) (n : Nat) : Peer := { p with offset := p.offset + n }

@[simp] theorem took_zero (p : Peer) : p.took 0 = p := rfl

/-- What each write keeps, an offer keeps. A write takes at most what is unsent. -/
theorem offer_induction (net : Net σ) {P : Peer → σ → Nat → Prop}
    (hok : ∀ {p : Peer} {w w' : σ} {taken n : Nat},
      net.write p.conn p.buffer p.offset w = (.ok n, w') → P p w taken →
      P (p.took (min n p.unsent)) w' (taken + min n p.unsent))
    (hfail : ∀ {p : Peer} {w w' : σ} {taken : Nat} {r : Reply Nat},
      net.write p.conn p.buffer p.offset w = (r, w') → (∀ n, r ≠ .ok n) → P p w taken →
      P p w' taken)
    (fuel : Nat) {p : Peer} {w : σ} {taken : Nat} (h : P p w taken) :
    P (p.offer net fuel w taken).1 (p.offer net fuel w taken).2.1
      (p.offer net fuel w taken).2.2.1 := by
  induction fuel generalizing p w taken with
  | zero => exact h
  | succ fuel ih =>
    unfold offer
    split
    next =>
      split
      next w' hwrite => simpa using hok hwrite h
      next n w' _ hwrite => exact ih (hok hwrite h)
      next w' hwrite => exact hfail hwrite (by simp) h
      next w' hwrite => exact ih (hfail hwrite (by simp) h)
      next w' _ _ hwrite => exact hfail hwrite (by simp) h
      next w' hwrite => exact hfail hwrite (by simp) h
    next => exact h

/-- After an offer that did not fail the frames are settled; otherwise only the offset moved. -/
theorem flush_cases (net : Net σ) {P : Peer → σ → Nat → Prop}
    (hok : ∀ {p : Peer} {w w' : σ} {taken n : Nat},
      net.write p.conn p.buffer p.offset w = (.ok n, w') → P p w taken →
      P (p.took (min n p.unsent)) w' (taken + min n p.unsent))
    (hfail : ∀ {p : Peer} {w w' : σ} {taken : Nat} {r : Reply Nat},
      net.write p.conn p.buffer p.offset w = (r, w') → (∀ n, r ≠ .ok n) → P p w taken →
      P p w' taken)
    {p : Peer} {w : σ} (h : P p w 0) :
    ∃ q, P q (p.flush net w).world (p.flush net w).bytes ∧
      ((p.flush net w).outcome = .settled ∧ (p.flush net w).peer = q.settle.1 ∧
          (p.flush net w).frames = q.settle.2 ∨
        (p.flush net w).outcome ≠ .settled ∧ (p.flush net w).peer = q ∧
          (p.flush net w).frames = 0) := by
  have hoffer := offer_induction net (P := P) hok hfail (p.unsent + net.patience w) h
  unfold flush
  split
  next q w' n hend =>
    rw [hend] at hoffer
    exact ⟨q, hoffer, .inl ⟨rfl, rfl, rfl⟩⟩
  next q w' n outcome hne hend =>
    rw [hend] at hoffer
    exact ⟨q, hoffer, .inr ⟨hne, rfl, rfl⟩⟩

theorem took_took (p : Peer) (m n : Nat) : (p.took m).took n = p.took (m + n) := by
  simp [took, Nat.add_assoc]

theorem unsent_took (p : Peer) (n : Nat) : (p.took n).unsent = p.unsent - n := by
  simp [took, unsent, Nat.sub_sub]

/-- An offer moves the offset, at most to the end of the buffer. -/
theorem flush_eq (net : Net σ) (p : Peer) (w : σ) :
    (p.flush net w).bytes ≤ p.unsent ∧
      ((p.flush net w).outcome = .settled ∧
          (p.flush net w).peer = (p.took (p.flush net w).bytes).settle.1 ∧
          (p.flush net w).frames = (p.took (p.flush net w).bytes).settle.2 ∨
        (p.flush net w).outcome ≠ .settled ∧
          (p.flush net w).peer = p.took (p.flush net w).bytes ∧ (p.flush net w).frames = 0) := by
  obtain ⟨q, ⟨hn, rfl⟩, hend⟩ := flush_cases net (w := w)
    (P := fun q _ n => n ≤ p.unsent ∧ q = p.took n)
    (by
      rintro _ _ _ m n - ⟨hm, rfl⟩
      rw [unsent_took, took_took]
      exact ⟨by omega, rfl⟩)
    (fun _ _ h => h) ⟨Nat.zero_le _, rfl⟩
  exact ⟨hn, hend⟩

theorem length_settle (p : Peer) :
    p.settle.2 + p.settle.1.frameEnds.length = p.frameEnds.length := by
  have hle := (List.dropWhile_sublist (l := p.frameEnds) (· ≤ p.offset)).length_le
  simp only [settle]
  split <;> exact Nat.sub_add_cancel hle

/-- A frame is counted as sent or stays with the peer. -/
theorem length_flush (net : Net σ) (p : Peer) (w : σ) :
    (p.flush net w).frames + (p.flush net w).peer.frameEnds.length = p.frameEnds.length := by
  rcases (p.flush_eq net w).2 with ⟨-, hpeer, hframes⟩ | ⟨-, hpeer, hframes⟩
  · rw [hpeer, hframes]
    exact (p.took _).length_settle
  · rw [hpeer, hframes, Nat.zero_add]
    rfl

theorem conn_flush (net : Net σ) (p : Peer) (w : σ) : (p.flush net w).peer.conn = p.conn := by
  rcases (p.flush_eq net w).2 with ⟨-, hpeer, -⟩ | ⟨-, hpeer, -⟩
  · rw [hpeer, settle]
    split <;> rfl
  · rw [hpeer]
    rfl

end ArmStream.Peer
