import Mathlib
import ArmStream.Proofs.Moves

/-!
# Links that differ in what they read

Take two networks that answer every call alike, except that reading may return other bytes in other
pieces before it comes to the same end. A link on one of them and a link on the other that start
equal stay equal but for their worlds and the number of bytes received: there is one lemma for each
function of the loop and of its callers. Loops that read may make more calls on one side than on the
other; all the others make the same calls.

## Main definitions

- `Net.Call`, `Net.answer`: the calls that do not read.
- `Source`, `Net.Reads`, `Net.Hears`: reading from a source until it has no more.
- `Net.Lockstep`: two networks that answer alike.
- `Twin`: two links that are equal but for their worlds and the bytes received.

## Main statements

- `Net.Reads.discardInput`, `Net.Reads.discardDatagrams`: reading counts the bytes and keeps only
  how it ended.
- `Net.Lockstep.handOn`, `Net.Lockstep.react`, `Net.Lockstep.reopen`: the stages of the loop keep
  links twins, hand on the same messages and make the same offers.
- `Net.Lockstep.submit`, `Net.Lockstep.leave`: so do callers, and the end of the loop.
-/

namespace ArmStream

variable {σ τ : Type}

/-! ## Calls -/

namespace Net

/-- The calls other than those that read, each with the type of its answer. -/
inductive Call : Type → Type where
  | now : Call Nat
  | patience : Call Nat
  | names : Call NameService
  | bind (scheme : Scheme) (a : SocketAddress) : Call (Reply Unit)
  | connect (a : SocketAddress) : Call (Reply Conn)
  | aim (a : SocketAddress) : Call (Reply Unit)
  | boundAddress : Call (Reply SocketAddress)
  | newPoll : Call (Reply Unit)
  | newWaker : Call (Reply Unit)
  | startThread : Call (Reply Unit)
  | register (socket : Socket) (token : Token) : Call (Reply Unit)
  | deregister (conn : Conn) : Call (Reply Unit)
  | wake : Call (Reply Unit)
  | accept : Call (Reply Conn)
  | takeError (conn : Conn) : Call (Reply (Option IoError))
  | peerAddress (conn : Conn) : Call (Reply Unit)
  | setNodelay (conn : Conn) : Call (Reply Unit)
  | write (conn : Conn) (buffer : Bytes) (offset : Nat) : Call (Reply Nat)
  | send (bytes : Bytes) : Call (Reply Nat)
  | close (conn : Conn) : Call Unit
  | closeAll : Call Unit

abbrev answer (net : Net σ) {α : Type} : Call α → σ → α × σ
  | .now, w => (net.now w, w)
  | .patience, w => (net.patience w, w)
  | .names, w => (net.names w, w)
  | .bind scheme a, w => net.bind scheme a w
  | .connect a, w => net.connect a w
  | .aim a, w => net.aim a w
  | .boundAddress, w => net.boundAddress w
  | .newPoll, w => net.newPoll w
  | .newWaker, w => net.newWaker w
  | .startThread, w => net.startThread w
  | .register socket token, w => net.register socket token w
  | .deregister conn, w => net.deregister conn w
  | .wake, w => net.wake w
  | .accept, w => net.accept w
  | .takeError conn, w => net.takeError conn w
  | .peerAddress conn, w => net.peerAddress conn w
  | .setNodelay conn, w => net.setNodelay conn w
  | .write conn buffer offset, w => net.write conn buffer offset w
  | .send bytes, w => net.send bytes w
  | .close conn, w => ((), net.close conn w)
  | .closeAll, w => ((), net.closeAll w)

end Net

/-- Two calls give the same answer and lead to related worlds. -/
def Agree {α : Type} (R : σ → τ → Prop) (p : α × σ) (q : α × τ) : Prop :=
  ∃ a w v, p = (a, w) ∧ q = (a, v) ∧ R w v

theorem Agree.mk {α : Type} {R : σ → τ → Prop} {a : α} {w : σ} {v : τ} (h : R w v) :
    Agree R (a, w) (a, v) :=
  ⟨a, w, v, rfl, rfl, h⟩

/-! ## Reading -/

inductive Source where
  | stream (conn : Conn)
  | datagrams
  deriving DecidableEq, Repr, Inhabited

inductive Heard where
  /-- So many bytes arrived. -/
  | got (n : Nat)
  | again
  | done (outcome : Peer.ReadEnd)
  deriving DecidableEq, Repr, Inhabited

/-- A stream is read until it has no more, ends or fails; datagrams until there are no more. An
empty datagram counts, while an empty read from a stream is its end. -/
def Source.sort : Source → Reply Bytes → Heard
  | .stream _, .ok bytes => if bytes.size = 0 then .done .ended else .got bytes.size
  | .stream _, .fail .wouldBlock => .done .waiting
  | .stream _, .fail .interrupted => .again
  | .stream _, .fail _ => .done .ended
  | .datagrams, .ok bytes => .got bytes.size
  | .datagrams, .fail .interrupted => .again
  | .datagrams, .fail .connectionRefused => .again
  | .datagrams, .fail _ => .done .waiting
  | _, .fatal => .done .died

namespace Net

variable {net : Net σ}

def listen (net : Net σ) : Source → σ → Reply Bytes × σ
  | .stream conn, w => net.read conn Peer.readChunk w
  | .datagrams, w => net.receive Peer.readChunk w

/-- So many reads in a row, with the sizes of those that succeeded and the end of the last. -/
inductive Reads (net : Net σ) (source : Source) :
    Nat → List Nat → Peer.ReadEnd → σ → σ → Prop where
  | done {w w' : σ} {r : Reply Bytes} {e : Peer.ReadEnd} :
      net.listen source w = (r, w') → source.sort r = .done e → Reads net source 1 [] e w w'
  | again {w w₁ w' : σ} {r : Reply Bytes} {n : Nat} {sizes : List Nat} {e : Peer.ReadEnd} :
      net.listen source w = (r, w₁) → source.sort r = .again →
      Reads net source n sizes e w₁ w' → Reads net source (n + 1) sizes e w w'
  | got {w w₁ w' : σ} {r : Reply Bytes} {n k : Nat} {sizes : List Nat} {e : Peer.ReadEnd} :
      net.listen source w = (r, w₁) → source.sort r = .got k →
      Reads net source n sizes e w₁ w' → Reads net source (n + 1) (k :: sizes) e w w'

/-- The loop reads until the source has no more, which takes no more reads than it has patience
for. -/
def Hears (net : Net σ) (source : Source) (sizes : List Nat) (e : Peer.ReadEnd) (w w' : σ) : Prop :=
  ∃ n ≤ net.patience w, net.Reads source n sizes e w w'

/-- How one read of a stream goes on. -/
theorem discardInput_succ (net : Net σ) (conn : Conn) (fuel : Nat) {w w' : σ} {r : Reply Bytes}
    (hread : net.listen (.stream conn) w = (r, w')) (count : Nat) :
    Peer.discardInput net conn (fuel + 1) w count =
      match (Source.stream conn).sort r with
      | .done e => (w', count, e)
      | .again => Peer.discardInput net conn fuel w' count
      | .got n => Peer.discardInput net conn fuel w' (count + n) := by
  replace hread : net.read conn Peer.readChunk w = (r, w') := hread
  simp only [Peer.discardInput, hread]
  rcases r with bytes | e | _
  · by_cases hend : bytes.size = 0 <;> simp [Source.sort, hend]
  · cases e <;> rfl
  · rfl

theorem Reads.discardInput {conn : Conn} {n : Nat} {sizes : List Nat} {e : Peer.ReadEnd} {w w' : σ}
    (h : net.Reads (.stream conn) n sizes e w w') {fuel : Nat} (hfuel : n ≤ fuel) (count : Nat) :
    Peer.discardInput net conn fuel w count = (w', count + sizes.sum, e) := by
  induction h generalizing fuel count with
  | done hread hsort =>
    obtain ⟨fuel, rfl⟩ := Nat.exists_eq_add_of_le' hfuel
    rw [discardInput_succ net conn fuel hread, hsort]
    rfl
  | again hread hsort hrest ih =>
    obtain ⟨fuel, rfl⟩ := Nat.exists_eq_add_of_le' (Nat.le_trans (Nat.le_add_left 1 _) hfuel)
    rw [discardInput_succ net conn fuel hread, hsort]
    exact ih (Nat.le_of_succ_le_succ hfuel) count
  | got hread hsort hrest ih =>
    obtain ⟨fuel, rfl⟩ := Nat.exists_eq_add_of_le' (Nat.le_trans (Nat.le_add_left 1 _) hfuel)
    rw [discardInput_succ net conn fuel hread, hsort, List.sum_cons, ← Nat.add_assoc]
    exact ih (Nat.le_of_succ_le_succ hfuel) _

/-- How one read of a datagram goes on. -/
theorem discardDatagrams_succ (net : Net σ) (fuel : Nat) {s : LinkState σ} {w' : σ}
    {r : Reply Bytes} (hread : net.listen .datagrams s.world = (r, w')) :
    s.discardDatagrams net (fuel + 1) =
      match Source.datagrams.sort r with
      | .done e => { s with world := w', loopDied := s.loopDied || e == .died }
      | .again => { s with world := w' }.discardDatagrams net fuel
      | .got n => ({ s with world := w' }.countReceived n).discardDatagrams net fuel := by
  replace hread : net.receive Peer.readChunk s.world = (r, w') := hread
  simp only [LinkState.discardDatagrams, hread]
  rcases r with bytes | e | _
  · rfl
  · cases e <;> simp [Source.sort]
  · simp [Source.sort]

theorem Reads.discardDatagrams {n : Nat} {sizes : List Nat} {e : Peer.ReadEnd} {w w' : σ}
    (h : net.Reads .datagrams n sizes e w w') {s : LinkState σ} (hs : s.world = w) {fuel : Nat}
    (hfuel : n ≤ fuel) :
    s.discardDatagrams net fuel =
      { { s with world := w' }.countReceived sizes.sum with
        loopDied := s.loopDied || e == .died } := by
  induction h generalizing fuel s with
  | done hread hsort =>
    subst hs
    obtain ⟨fuel, rfl⟩ := Nat.exists_eq_add_of_le' hfuel
    rw [discardDatagrams_succ net fuel hread, hsort]
    rfl
  | again hread hsort hrest ih =>
    subst hs
    obtain ⟨fuel, rfl⟩ := Nat.exists_eq_add_of_le' (Nat.le_trans (Nat.le_add_left 1 _) hfuel)
    rw [discardDatagrams_succ net fuel hread, hsort]
    exact ih rfl (Nat.le_of_succ_le_succ hfuel)
  | got hread hsort hrest ih =>
    subst hs
    obtain ⟨fuel, rfl⟩ := Nat.exists_eq_add_of_le' (Nat.le_trans (Nat.le_add_left 1 _) hfuel)
    rw [discardDatagrams_succ net fuel hread, hsort]
    refine (ih rfl (Nat.le_of_succ_le_succ hfuel)).trans ?_
    simp [LinkState.countReceived, Nat.add_assoc]

/-- Two networks, in related worlds, give the same answers to each call that does not read; and
reading comes to the same end on both. The relation is kept. It also relates the numbers of bytes
that were received in each world. -/
structure Lockstep (net : Net σ) (net' : Net τ) (R : σ × Nat → τ × Nat → Prop) : Prop where
  call : ∀ {α : Type} (c : Call α) {w : σ} {v : τ} {k m : Nat}, R (w, k) (v, m) →
    Agree (fun w v => R (w, k) (v, m)) (net.answer c w) (net'.answer c v)
  hear : ∀ (source : Source) {w : σ} {v : τ} {k m : Nat}, R (w, k) (v, m) →
    ∃ e w' v' sizes sizes', net.Hears source sizes e w w' ∧ net'.Hears source sizes' e v v' ∧
      R (w', k + sizes.sum) (v', m + sizes'.sum)

end Net

/-! ## Links that differ in their worlds -/

namespace LinkState

/-- The link in another world, after so many bytes were received. -/
def place (s : LinkState σ) (v : τ) (m : Nat) : LinkState τ :=
  { s with world := v, metrics.bytesReceived := m }

section Place

variable (s : LinkState σ) (v : τ) (m : Nat)

@[simp] theorem place_world : (s.place v m).world = v := rfl

@[simp] theorem place_config : (s.place v m).config = s.config := rfl

@[simp] theorem place_carrier : (s.place v m).carrier = s.carrier := rfl

@[simp] theorem place_queue : (s.place v m).queue = s.queue := rfl

@[simp] theorem place_outbox : (s.place v m).outbox = s.outbox := rfl

@[simp] theorem place_loopDied : (s.place v m).loopDied = s.loopDied := rfl

@[simp] theorem place_receiving : (s.place v m).receiving = s.receiving := rfl

theorem place_release (b : Builder) : (s.place v m).release b = (s.release b).place v m := by
  unfold release place
  dsimp only
  split <;> rfl

end Place

end LinkState

/-- Two links are equal but for their worlds and the numbers of bytes received, and these are
related. -/
def Twin (R : σ × Nat → τ × Nat → Prop) (s : LinkState σ) (s' : LinkState τ) : Prop :=
  ∃ v m, s' = s.place v m ∧ R (s.world, s.metrics.bytesReceived) (v, m)

def Twins {α : Type} (R : σ × Nat → τ × Nat → Prop) (r : LinkState σ × α) (r' : LinkState τ × α) :
    Prop :=
  ∃ s s' a, r = (s, a) ∧ r' = (s', a) ∧ Twin R s s'

theorem Twins.mk {α : Type} {R : σ × Nat → τ × Nat → Prop} {s : LinkState σ} {s' : LinkState τ}
    {a : α} (h : Twin R s s') : Twins R (s, a) (s', a) :=
  ⟨s, s', a, rfl, rfl, h⟩

namespace Twin

variable {R : σ × Nat → τ × Nat → Prop} {s : LinkState σ} {s' : LinkState τ}

theorem loopDied_eq (h : Twin R s s') : s'.loopDied = s.loopDied := by
  obtain ⟨v, m, rfl, -⟩ := h
  rfl

theorem outbox_eq (h : Twin R s s') : s'.outbox = s.outbox := by
  obtain ⟨v, m, rfl, -⟩ := h
  rfl

theorem stopped_eq (h : Twin R s s') : s'.stopped = s.stopped := by
  obtain ⟨v, m, rfl, -⟩ := h
  rfl

theorem release (h : Twin R s s') (b : Builder) : Twin R (s.release b) (s'.release b) := by
  obtain ⟨v, m, rfl, hR⟩ := h
  exact ⟨v, m, s.place_release v m b, by simpa using hR⟩

theorem foldl_release (h : Twin R s s') (bs : List Builder) :
    Twin R (bs.foldl LinkState.release s) (bs.foldl LinkState.release s') := by
  induction bs generalizing s s' with
  | nil => exact h
  | cons b bs ih => exact ih (h.release b)

theorem countDropped (h : Twin R s s') (n : Nat) :
    Twin R (s.countDropped n) (s'.countDropped n) := by
  obtain ⟨v, m, rfl, hR⟩ := h
  exact ⟨v, m, rfl, hR⟩

theorem acquire (h : Twin R s s') : Twin R s.acquire.2 s'.acquire.2 := by
  obtain ⟨v, m, rfl, hR⟩ := h
  unfold LinkState.acquire LinkState.place
  dsimp only
  split
  next => exact ⟨v, m, rfl, hR⟩
  next => exact ⟨v, m, rfl, hR⟩

theorem guard (h : Twin R s s') : Twin R s.guard s'.guard := by
  obtain ⟨v, m, rfl, hR⟩ := h
  exact ⟨v, m, rfl, hR⟩

theorem countSubmitted (h : Twin R s s') : Twin R s.countSubmitted s'.countSubmitted := by
  obtain ⟨v, m, rfl, hR⟩ := h
  exact ⟨v, m, rfl, hR⟩

theorem enqueue (h : Twin R s s') (b : Builder) : Twins R (s.enqueue b) (s'.enqueue b) := by
  obtain ⟨v, m, rfl, hR⟩ := h
  unfold LinkState.enqueue
  simp only [LinkState.place_receiving, LinkState.place_config, LinkState.place_queue]
  by_cases hgone : (!s.receiving) = true
  · simp only [hgone, if_true]
    exact .mk ⟨v, m, rfl, hR⟩
  by_cases hfull : s.config.queueCapacity ≤ s.queue.length
  · simp only [hgone, hfull, if_true]
    exact .mk ⟨v, m, rfl, hR⟩
  · simp only [hgone, hfull, if_false]
    exact .mk ⟨v, m, rfl, hR⟩

theorem isIdle_eq (h : Twin R s s') : s'.isIdle = s.isIdle := by
  obtain ⟨v, m, rfl, -⟩ := h
  rfl

theorem giveUp (h : Twin R s s') : Twin R s.giveUp s'.giveUp := by
  obtain ⟨v, m, rfl, hR⟩ := h
  have hemptied : Twin R { s with queue := [], outbox := [] }
      { s.place v m with queue := [], outbox := [] } := ⟨v, m, rfl, hR⟩
  exact (hemptied.foldl_release _).countDropped _

/-! ## Handing messages over -/

theorem take (h : Twin R s s') (b : Builder) : Twin R (s.take b) (s'.take b) := by
  have hdropped := (h.countDropped 1).release b
  obtain ⟨v, m, rfl, hR⟩ := h
  unfold LinkState.take
  simp only [LinkState.place_config, LinkState.place_outbox]
  by_cases hfull : s.config.pendingHighWaterMark ≤ s.outbox.length
  · simpa only [hfull, if_true] using hdropped
  · simp only [hfull, if_false]
    exact ⟨v, m, rfl, hR⟩

theorem foldl_take (h : Twin R s s') (bs : List Builder) :
    Twin R (bs.foldl LinkState.take s) (bs.foldl LinkState.take s') := by
  induction bs generalizing s s' with
  | nil => exact h
  | cons b bs ih => exact ih (h.take b)

theorem takeSubmissions (h : Twin R s s') : Twin R s.takeSubmissions s'.takeSubmissions := by
  obtain ⟨v, m, rfl, hR⟩ := h
  have hemptied : Twin R { s with queue := [] } { s.place v m with queue := [] } :=
    ⟨v, m, rfl, hR⟩
  exact hemptied.foldl_take s.queue

theorem handOver? (h : Twin R s s') (t : Streams) :
    s.handOver? t = none ∧ s'.handOver? t = none ∨
    ∃ s₁ s₁' t₁, s.handOver? t = some (s₁, t₁) ∧ s'.handOver? t = some (s₁', t₁) ∧
      Twin R s₁ s₁' := by
  obtain ⟨v, m, rfl, hR⟩ := h
  unfold LinkState.handOver?
  simp only [LinkState.place_config, LinkState.place_outbox]
  split
  next => exact .inl ⟨rfl, rfl⟩
  next b rest _ =>
    split
    next => exact .inl ⟨rfl, rfl⟩
    next token p _ =>
      have hkept : Twin R { s with outbox := rest } { s.place v m with outbox := rest } :=
        ⟨v, m, rfl, hR⟩
      right
      split
      next p' _ => exact ⟨_, _, _, rfl, rfl, hkept.release b⟩
      next => exact ⟨_, _, _, rfl, rfl, (hkept.countDropped 1).release b⟩

theorem handOverAll (h : Twin R s s') (fuel : Nat) (t : Streams) :
    Twins R (LinkState.handOverAll fuel s t) (LinkState.handOverAll fuel s' t) := by
  induction fuel generalizing s s' t with
  | zero => exact .mk h
  | succ fuel ih =>
    unfold LinkState.handOverAll
    rcases h.handOver? t with ⟨hl, hr⟩ | ⟨s₁, s₁', t₁, hl, hr, h₁⟩
    · simp only [hl, hr]
      exact .mk h
    · simp only [hl, hr]
      exact ih h₁ t₁

theorem recipient (h : Twin R s s') (t : Streams) : s'.recipient t = s.recipient t := by
  obtain ⟨v, m, rfl, -⟩ := h
  rfl

theorem recipients (h : Twin R s s') (fuel : Nat) (t : Streams) :
    LinkState.recipients fuel s' t = LinkState.recipients fuel s t := by
  induction fuel generalizing s s' t with
  | zero => rfl
  | succ fuel ih =>
    unfold LinkState.recipients
    rcases h.handOver? t with ⟨hl, hr⟩ | ⟨s₁, s₁', t₁, hl, hr, h₁⟩
    · simp only [hl, hr]
    · simp only [hl, hr, ih h₁ t₁, h.recipient t]

end Twin

namespace Net.Lockstep

variable {net : Net σ} {net' : Net τ} {R : σ × Nat → τ × Nat → Prop} {s : LinkState σ}
  {s' : LinkState τ} {w : σ} {v : τ} {k m : Nat}

section Sockets

variable (hnet : net.Lockstep net' R)

include hnet

theorem patience_eq (hR : R (w, k) (v, m)) : net'.patience v = net.patience w := by
  obtain ⟨r, w', v', hl, hr, -⟩ := hnet.call .patience hR
  exact (congrArg Prod.fst hr).trans (congrArg Prod.fst hl).symm

theorem names_eq (hR : R (w, k) (v, m)) : net'.names v = net.names w := by
  obtain ⟨r, w', v', hl, hr, -⟩ := hnet.call .names hR
  exact (congrArg Prod.fst hr).trans (congrArg Prod.fst hl).symm

theorem now_eq (hR : R (w, k) (v, m)) : net'.now v = net.now w := by
  obtain ⟨r, w', v', hl, hr, -⟩ := hnet.call .now hR
  exact (congrArg Prod.fst hr).trans (congrArg Prod.fst hl).symm

theorem close (conn : Conn) (hR : R (w, k) (v, m)) :
    R (net.close conn w, k) (net'.close conn v, m) := by
  obtain ⟨u, w', v', hl, hr, hR'⟩ := hnet.call (.close conn) hR
  obtain rfl := congrArg Prod.snd hl
  obtain rfl := congrArg Prod.snd hr
  exact hR'

theorem closeAll (hR : R (w, k) (v, m)) : R (net.closeAll w, k) (net'.closeAll v, m) := by
  obtain ⟨u, w', v', hl, hr, hR'⟩ := hnet.call .closeAll hR
  obtain rfl := congrArg Prod.snd hl
  obtain rfl := congrArg Prod.snd hr
  exact hR'

/-! ### Offering bytes to peers -/

theorem offer (hR : R (w, k) (v, m)) (fuel : Nat) (p : Peer) (taken : Nat) :
    ∃ q w' v' n e, p.offer net fuel w taken = (q, w', n, e) ∧
      p.offer net' fuel v taken = (q, v', n, e) ∧ R (w', k) (v', m) := by
  induction fuel generalizing p w v taken with
  | zero => exact ⟨p, w, v, taken, .settled, rfl, rfl, hR⟩
  | succ fuel ih =>
    unfold Peer.offer
    by_cases hmore : p.offset < p.buffer.size
    · obtain ⟨r, w₁, v₁, hl, hr, hR₁⟩ := hnet.call (.write p.conn p.buffer p.offset) hR
      simp only [hmore, if_true, hl, hr]
      rcases r with n | e | _
      · cases n with
        | zero => exact ⟨_, _, _, _, _, rfl, rfl, hR₁⟩
        | succ n => exact ih hR₁ _ _
      · cases e with
        | interrupted => exact ih hR₁ _ _
        | _ => exact ⟨_, _, _, _, _, rfl, rfl, hR₁⟩
      · exact ⟨_, _, _, _, _, rfl, rfl, hR₁⟩
    · simp only [hmore, if_false]
      exact ⟨_, _, _, _, _, rfl, rfl, hR⟩

theorem flush (hR : R (w, k) (v, m)) (p : Peer) :
    ∃ q w' v' n f o, p.flush net w = ⟨q, w', n, f, o⟩ ∧ p.flush net' v = ⟨q, v', n, f, o⟩ ∧
      R (w', k) (v', m) := by
  obtain ⟨q, w', v', n, e, hl, hr, hR'⟩ := hnet.offer hR (p.unsent + net.patience w) p 0
  unfold Peer.flush
  rw [hnet.patience_eq hR]
  simp only [hl, hr]
  cases e <;> exact ⟨_, _, _, _, _, _, rfl, rfl, hR'⟩

/-- An offer to a peer does the same on both sides. -/
theorem write (h : Twin R s s') (p : Peer) :
    (p.flush net' s'.world).peer = (p.flush net s.world).peer ∧
      Offer.made p (p.flush net' s'.world) = Offer.made p (p.flush net s.world) ∧
      Twins R (s.noteWritten (p.flush net s.world)) (s'.noteWritten (p.flush net' s'.world)) := by
  obtain ⟨v, m, rfl, hR⟩ := h
  obtain ⟨q, w', v', n, f, o, hl, hr, hR'⟩ := hnet.flush hR p
  rw [LinkState.place_world, hl, hr]
  refine ⟨rfl, rfl, ?_⟩
  cases o <;> exact .mk ⟨v', m, rfl, hR'⟩

theorem offerAll (h : Twin R s s') (todo : List (Token × Peer)) :
    Twins R (s.offerAll net todo) (s'.offerAll net' todo) ∧
      s'.offersTo net' todo = s.offersTo net todo := by
  induction todo generalizing s s' with
  | nil => exact ⟨.mk h, rfl⟩
  | cons entry rest ih =>
    obtain ⟨token, p⟩ := entry
    obtain ⟨hpeer, hmade, s₁, s₁', alive, hl, hr, h₁⟩ := hnet.write h p
    obtain ⟨⟨s₂, s₂', lists, hl', hr', h₂⟩, hoffers⟩ := ih h₁
    unfold LinkState.offerAll LinkState.offersTo
    simp only [hl, hr, hl', hr', h.loopDied_eq, hpeer, hmade, hoffers]
    cases s.loopDied with
    | true => exact ⟨.mk h, trivial⟩
    | false => exact ⟨.mk h₂, trivial⟩

/-! ### Parting with peers -/

theorem part (h : Twin R s s') (t : Streams) (token : Token) :
    Twins R (s.part net t token) (s'.part net' t token) := by
  obtain ⟨v, m, rfl, hR⟩ := h
  unfold LinkState.part
  split
  next => exact .mk ⟨v, m, rfl, hR⟩
  next p _ =>
    obtain ⟨r, w₁, v₁, hl, hr, hR₁⟩ := hnet.call (.deregister p.conn) hR
    have hclosed := hnet.close p.conn hR₁
    have hnow := hnet.now_eq hclosed
    simp only [LinkState.place_world, hl, hr]
    cases r with
    | fatal => exact .mk ⟨v₁, m, rfl, hR₁⟩
    | ok | fail =>
      simp only [LinkState.nextAttempt, LinkState.countDropped, LinkState.place_config, hnow]
      exact .mk ⟨_, m, rfl, hclosed⟩

theorem partAll (h : Twin R s s') (t : Streams) (tokens : List Token) :
    Twins R (s.partAll net t tokens) (s'.partAll net' t tokens) := by
  induction tokens generalizing s s' t with
  | nil => exact .mk h
  | cons token rest ih =>
    obtain ⟨s₁, s₁', t₁, hl, hr, h₁⟩ := hnet.part h t token
    unfold LinkState.partAll
    simp only [hl, hr, h.loopDied_eq]
    cases s.loopDied with
    | true => exact .mk h
    | false => exact ih h₁ t₁

/-! ### Handing messages on -/

theorem handOnStreams (h : Twin R s s') (t : Streams) :
    Twin R (s.handOnStreams net t) (s'.handOnStreams net' t) := by
  obtain ⟨s₁, s₁', t₁, hl₁, hr₁, h₁⟩ := h.handOverAll s.outbox.length t
  obtain ⟨⟨s₂, s₂', ⟨peers, failed⟩, hl₂, hr₂, h₂⟩, -⟩ := hnet.offerAll h₁ t₁.peers
  obtain ⟨s₃, s₃', t₃, hl₃, hr₃, v, m, rfl, hR⟩ := hnet.partAll h₂ { t₁ with peers := peers } failed
  unfold LinkState.handOnStreams
  simp only [h.outbox_eq, hl₁, hr₁, hl₂, hr₂, hl₃, hr₃]
  exact ⟨v, m, rfl, hR⟩

theorem sendOldest (h : Twin R s s') (b : Builder) (rest : List Builder) :
    Twins R (s.sendOldest net b rest) (s'.sendOldest net' b rest) := by
  obtain ⟨v, m, rfl, hR⟩ := h
  unfold LinkState.sendOldest
  split
  next =>
    have hwithheld : Twin R ({ s with outbox := rest }.countDropped 1)
        ({ s.place v m with outbox := rest }.countDropped 1) := ⟨v, m, rfl, hR⟩
    exact .mk (hwithheld.release b)
  next bytes _ =>
    obtain ⟨r, w₁, v₁, hl, hr, hR₁⟩ := hnet.call (.send bytes) hR
    simp only [LinkState.place_world, hl, hr]
    rcases r with n | e | _
    · have hsent : Twin R ({ s with world := w₁, outbox := rest }.countSent 1 n)
          ({ s.place v m with world := v₁, outbox := rest }.countSent 1 n) := ⟨v₁, m, rfl, hR₁⟩
      exact .mk (hsent.release b)
    · have hfailed : Twin R
          ({ s with world := w₁, outbox := rest }.countSendError.countDropped 1)
          ({ s.place v m with world := v₁, outbox := rest }.countSendError.countDropped 1) :=
        ⟨v₁, m, rfl, hR₁⟩
      cases e with
      | wouldBlock | interrupted => exact .mk ⟨v₁, m, rfl, hR₁⟩
      | _ => exact .mk (hfailed.release b)
    · exact .mk ⟨v₁, m, rfl, hR₁⟩

theorem sendDatagrams (h : Twin R s s') (fuel : Nat) :
    Twin R (s.sendDatagrams net fuel) (s'.sendDatagrams net' fuel) ∧
      s'.sendings net' fuel = s.sendings net fuel := by
  induction fuel generalizing s s' with
  | zero => exact ⟨h, rfl⟩
  | succ fuel ih =>
    unfold LinkState.sendDatagrams LinkState.sendings
    simp only [h.outbox_eq]
    cases s.outbox with
    | nil => exact ⟨h, rfl⟩
    | cons b rest =>
      obtain ⟨s₁, s₁', sending, hl, hr, h₁⟩ := hnet.sendOldest h b rest
      simp only [hl, hr]
      cases sending with
      | blocked | died => exact ⟨h₁, rfl⟩
      | sent | givenUp | again =>
        obtain ⟨hrest, hlog⟩ := ih h₁
        simp only [hlog]
        exact ⟨hrest, trivial⟩

/-- Handing on does the same on both sides. -/
theorem handOn (h : Twin R s s') :
    Twin R (s.handOn net) (s'.handOn net') ∧ s'.departures net' = s.departures net ∧
      s'.offers net' = s.offers net := by
  have hall := h
  obtain ⟨v, m, rfl, hR⟩ := h
  have hpatience := hnet.patience_eq hR
  unfold LinkState.handOn LinkState.departures LinkState.offers
  simp only [LinkState.place_carrier, LinkState.place_outbox, LinkState.place_world, hpatience]
  cases s.carrier with
  | streams t =>
    obtain ⟨s₁, s₁', t₁, hl, hr, h₁⟩ := hall.handOverAll s.outbox.length t
    simp only [hl, hr]
    exact ⟨hnet.handOnStreams hall t, hall.recipients _ t, (hnet.offerAll h₁ t₁.peers).2⟩
  | datagrams =>
    obtain ⟨hsent, hlog⟩ := hnet.sendDatagrams hall (s.outbox.length + net.patience s.world)
    exact ⟨hsent, hlog, rfl⟩

/-! ### Accepting and opening streams -/

theorem hurry (h : Twin R s s') (conn : Conn) :
    Twin R (s.hurry net conn) (s'.hurry net' conn) := by
  obtain ⟨v, m, rfl, hR⟩ := h
  obtain ⟨r, w₁, v₁, hl, hr, hR₁⟩ := hnet.call (.setNodelay conn) hR
  unfold LinkState.hurry
  simp only [LinkState.place_world, hl, hr]
  cases r <;> exact ⟨v₁, m, rfl, hR₁⟩

theorem welcome (h : Twin R s s') (t : Streams) (conn : Conn) :
    Twins R (s.welcome net t conn) (s'.welcome net' t conn) := by
  obtain ⟨v, m, rfl, hR⟩ := h
  obtain ⟨r, w₁, v₁, hl, hr, hR₁⟩ := hnet.call (.register (.stream conn) t.nextToken) hR
  unfold LinkState.welcome LinkState.registerStream
  simp only [LinkState.place_world, hl, hr]
  cases r with
  | fatal => exact .mk ⟨v₁, m, rfl, hR₁⟩
  | fail e => exact .mk ⟨_, m, rfl, hnet.close conn hR₁⟩
  | ok =>
    have hwatched : Twin R { s with world := w₁ } { s.place v m with world := v₁ } :=
      ⟨v₁, m, rfl, hR₁⟩
    have hhurried := hnet.hurry hwatched conn
    dsimp only
    rw [hhurried.loopDied_eq]
    generalize LinkState.hurry net { s with world := w₁ } conn = s₁ at hhurried ⊢
    obtain ⟨v₂, m₂, heq, hR₂⟩ := hhurried
    rw [heq]
    cases s₁.loopDied with
    | true => exact .mk ⟨v₂, m₂, rfl, hR₂⟩
    | false => exact .mk ⟨v₂, m₂, rfl, hR₂⟩

theorem welcomeAll (h : Twin R s s') (fuel : Nat) (t : Streams) :
    Twins R (LinkState.welcomeAll net fuel s t) (LinkState.welcomeAll net' fuel s' t) := by
  induction fuel generalizing s s' t with
  | zero => exact .mk h
  | succ fuel ih =>
    obtain ⟨v, m, rfl, hR⟩ := h
    obtain ⟨r, w₁, v₁, hl, hr, hR₁⟩ := hnet.call .accept hR
    have hasked : Twin R { s with world := w₁ } { s.place v m with world := v₁ } :=
      ⟨v₁, m, rfl, hR₁⟩
    unfold LinkState.welcomeAll
    simp only [LinkState.place_world, hl, hr]
    rcases r with conn | e | _
    · obtain ⟨s₂, s₂', t₂, hl₂, hr₂, h₂⟩ := hnet.welcome hasked t conn
      simp only [hl₂, hr₂, h₂.loopDied_eq]
      cases s₂.loopDied with
      | true => exact .mk h₂
      | false => exact ih h₂ t₂
    · cases e with
      | interrupted => exact ih hasked t
      | _ => exact .mk hasked
    · exact .mk ⟨v₁, m, rfl, hR₁⟩

theorem opening (conn : Conn) (hR : R (w, k) (v, m)) :
    Agree (fun w v => R (w, k) (v, m)) (LinkState.opening net conn w)
      (LinkState.opening net' conn v) := by
  obtain ⟨r, w₁, v₁, hl, hr, hR₁⟩ := hnet.call (.takeError conn) hR
  obtain ⟨r', w₂, v₂, hl', hr', hR₂⟩ := hnet.call (.peerAddress conn) hR₁
  unfold LinkState.opening
  simp only [hl, hr]
  rcases r with cause | e | _
  · cases cause with
    | some e => exact .mk hR₁
    | none =>
      simp only [hl', hr']
      rcases r' with _ | e | _
      · exact .mk hR₂
      · cases e <;> exact .mk hR₂
      · exact .mk hR₂
  · exact .mk hR₁
  · exact .mk hR₁

theorem settleOpening (h : Twin R s s') (t : Streams) (conn : Conn) :
    Twins R (s.settleOpening net t conn) (s'.settleOpening net' t conn) := by
  obtain ⟨v, m, rfl, hR⟩ := h
  obtain ⟨o, w₁, v₁, hl, hr, hR₁⟩ := hnet.opening conn hR
  have hlooked : Twin R { s with world := w₁ } { s.place v m with world := v₁ } :=
    ⟨v₁, m, rfl, hR₁⟩
  unfold LinkState.settleOpening
  simp only [LinkState.place_world, hl, hr]
  cases o with
  | died => exact .mk ⟨v₁, m, rfl, hR₁⟩
  | stillOpening => exact .mk hlooked
  | connected =>
    have hhurried := hnet.hurry hlooked conn
    dsimp only
    rw [hhurried.loopDied_eq]
    cases (LinkState.hurry net { s with world := w₁ } conn).loopDied with
    | true => exact .mk hhurried
    | false => exact .mk hhurried
  | refused =>
    obtain ⟨r, w₂, v₂, hl₂, hr₂, hR₂⟩ := hnet.call (.deregister conn) hR₁
    have hclosed := hnet.close conn hR₂
    simp only [hl₂, hr₂]
    cases r with
    | fatal => exact .mk ⟨v₂, m, rfl, hR₂⟩
    | ok | fail =>
      simp only [LinkState.nextAttempt, LinkState.place_config, hnet.now_eq hclosed]
      exact .mk ⟨_, m, rfl, hclosed⟩

theorem settleOutbound (h : Twin R s s') (t : Streams) (e : Event) :
    Twins R (s.settleOutbound net t e) (s'.settleOutbound net' t e) := by
  unfold LinkState.settleOutbound
  cases t.connecting with
  | none => exact .mk h
  | some conn =>
    by_cases hout : e.token = Token.outbound
    · simp only [hout, if_true]
      exact hnet.settleOpening h t conn
    · simp only [hout, if_false]
      exact .mk h

theorem reopen (h : Twin R s s') : Twin R (s.reopen net) (s'.reopen net') := by
  have hall := h
  obtain ⟨v, m, rfl, hR⟩ := h
  unfold LinkState.reopen
  simp only [LinkState.place_loopDied, LinkState.place_carrier, LinkState.place_world,
    hnet.now_eq hR]
  cases s.carrier with
  | datagrams => exact hall
  | streams t =>
    dsimp only
    cases t.reopenAt with
    | none => exact hall
    | some due =>
      dsimp only
      cases s.loopDied || decide (net.now s.world < due) with
      | true => exact hall
      | false =>
        obtain ⟨r, w₁, v₁, hl, hr, hR₁⟩ := hnet.call (.connect t.remote) hR
        simp only [hl, hr, Bool.false_eq_true, if_false]
        rcases r with conn | e | _
        · obtain ⟨r', w₂, v₂, hl₂, hr₂, hR₂⟩ :=
            hnet.call (.register (.stream conn) Token.outbound) hR₁
          have hclosed := hnet.close conn hR₂
          simp only [LinkState.registerStream, hl₂, hr₂]
          cases r' with
          | fatal => exact ⟨v₂, m, rfl, hR₂⟩
          | fail e =>
            simp only [LinkState.nextAttempt, hnet.now_eq hclosed]
            exact ⟨_, m, rfl, hclosed⟩
          | ok => exact ⟨v₂, m, rfl, hR₂⟩
        · simp only [LinkState.nextAttempt, hnet.now_eq hR₁]
          exact ⟨v₁, m, rfl, hR₁⟩
        · exact ⟨v₁, m, rfl, hR₁⟩

/-! ### Reading -/

theorem readPeer (h : Twin R s s') (p : Peer) :
    Twins R (s.readPeer net p) (s'.readPeer net' p) := by
  obtain ⟨v, m, rfl, hR⟩ := h
  obtain ⟨e, w', v', sizes, sizes', ⟨n, hn, hl⟩, ⟨n', hn', hr⟩, hR'⟩ :=
    hnet.hear (.stream p.conn) hR
  -- The numbers of reads differ. All that is kept of them is the end, and the count of bytes.
  unfold LinkState.readPeer
  simp only [LinkState.place_world, hl.discardInput hn, hr.discardInput hn', Nat.zero_add]
  cases e <;> exact .mk ⟨v', _, rfl, hR'⟩

theorem hearEvent (h : Twin R s s') (e : Event) (p : Peer) :
    Twins R (s.hear net e p) (s'.hear net' e p) := by
  unfold LinkState.hear
  cases e.readable with
  | true => exact hnet.readPeer h p
  | false => exact .mk h

theorem discardDatagrams (h : Twin R s s') :
    Twin R (s.discardDatagrams net (net.patience s.world))
      (s'.discardDatagrams net' (net'.patience s'.world)) := by
  obtain ⟨v, m, rfl, hR⟩ := h
  obtain ⟨e, w', v', sizes, sizes', ⟨n, hn, hl⟩, ⟨n', hn', hr⟩, hR'⟩ := hnet.hear .datagrams hR
  rw [LinkState.place_world, hl.discardDatagrams rfl hn, hr.discardDatagrams rfl hn']
  exact ⟨v', _, rfl, hR'⟩

/-! ### Reacting to events -/

theorem servePeer (h : Twin R s s') (t : Streams) (e : Event) (p : Peer) :
    Twins R (s.servePeer net t e p) (s'.servePeer net' t e p) := by
  obtain ⟨s₁, s₁', alive, hl, hr, h₁⟩ := hnet.hearEvent h e p
  obtain ⟨hpeer, -, s₂, s₂', kept, hl₂, hr₂, h₂⟩ := hnet.write h₁ p
  have hparted := hnet.part h₂ (t.setPeer e.token (p.flush net s₁.world).peer) e.token
  unfold LinkState.servePeer
  simp only [hl, hr, h₁.loopDied_eq, hpeer, hl₂, hr₂]
  cases hdied : s₁.loopDied with
  | true => exact .mk h₁
  | false =>
    cases alive with
    | false =>
      simp only [Bool.false_and, Bool.false_eq_true, if_false, h₁.loopDied_eq, hdied, Bool.or_false]
      exact hnet.part h₁ t e.token
    | true =>
      cases e.writable with
      | false =>
        simp only [Bool.and_false, Bool.or_true, if_true, if_false, Bool.false_eq_true]
        exact .mk h₁
      | true =>
        simp only [Bool.and_true, if_true, if_false, Bool.false_eq_true, h₂.loopDied_eq]
        cases s₂.loopDied || kept with
        | true => exact .mk h₂
        | false => exact hparted

theorem reactStream (h : Twin R s s') (t : Streams) (e : Event) :
    Twins R (s.reactStream net t e) (s'.reactStream net' t e) := by
  obtain ⟨s₁, s₁', t₁, hl, hr, h₁⟩ := hnet.settleOutbound h t e
  unfold LinkState.reactStream
  simp only [hl, hr, h₁.loopDied_eq]
  cases s₁.loopDied with
  | true => exact .mk h₁
  | false =>
    cases t₁.peer? e.token with
    | none => exact .mk h₁
    | some p => exact hnet.servePeer h₁ t₁ e p

/-- The reaction to an event does the same on both sides. -/
theorem react (h : Twin R s s') (e : Event) : Twin R (s.react net e) (s'.react net' e) := by
  have hall := h
  obtain ⟨v, m, rfl, hR⟩ := h
  have hpatience := hnet.patience_eq hR
  unfold LinkState.react
  simp only [LinkState.place_loopDied, LinkState.place_carrier, LinkState.place_world]
  by_cases hquiet : (s.loopDied || decide (e.token = Token.waker)) = true
  · simp only [hquiet, if_true]
    exact hall
  simp only [hquiet]
  cases s.carrier with
  | streams t =>
    by_cases hlistener : e.token = Token.listener
    · obtain ⟨s₁, s₁', t₁, hl, hr, v₁, m₁, rfl, hR₁⟩ :=
        hnet.welcomeAll hall (net.patience s.world) t
      simp only [hlistener, if_true, hpatience, hl, hr]
      exact ⟨v₁, m₁, rfl, hR₁⟩
    · obtain ⟨s₁, s₁', t₁, hl, hr, v₁, m₁, rfl, hR₁⟩ := hnet.reactStream hall t e
      simp only [hlistener, if_false, hl, hr]
      exact ⟨v₁, m₁, rfl, hR₁⟩
  | datagrams =>
    by_cases hread : e.token ≠ Token.listener ∧ e.readable = true
    · simp only [if_pos hread]
      exact hnet.discardDatagrams hall
    · simp only [if_neg hread]
      exact hall

theorem answers (h : Twin R s s') (e : Event) : s'.answers net' e = s.answers net e := by
  have hall := h
  obtain ⟨v, m, rfl, hR⟩ := h
  unfold LinkState.answers
  simp only [LinkState.place_loopDied, LinkState.place_carrier]
  cases s.carrier with
  | datagrams => rfl
  | streams t =>
    obtain ⟨s₁, s₁', t₁, hl, hr, h₁⟩ := hnet.settleOutbound hall t e
    simp only [hl, hr]
    cases t₁.peer? e.token with
    | none => rfl
    | some p =>
      obtain ⟨s₂, s₂', alive, hl₂, hr₂, h₂⟩ := hnet.hearEvent h₁ e p
      obtain ⟨-, hmade, -⟩ := hnet.write h₂ p
      simp only [hl₂, hr₂, h₁.loopDied_eq, h₂.loopDied_eq, hmade]

/-! ### The end of the loop -/

theorem vanish (h : Twin R s s') : Twin R (s.vanish net) (s'.vanish net') := by
  obtain ⟨v, m, rfl, hR⟩ := h
  exact ⟨_, m, rfl, hnet.closeAll hR⟩

theorem leave (h : Twin R s s') : Twin R (s.leave net) (s'.leave net') := by
  obtain ⟨v, m, rfl, hR⟩ := h
  have hstopped : Twin R { s with stopped := true } { s.place v m with stopped := true } :=
    ⟨v, m, rfl, hR⟩
  exact hnet.vanish hstopped.giveUp

/-! ### Callers -/

theorem wake (h : Twin R s s') : Twin R (s.wake net) (s'.wake net') := by
  obtain ⟨v, m, rfl, hR⟩ := h
  obtain ⟨r, w₁, v₁, hl, hr, hR₁⟩ := hnet.call .wake hR
  unfold LinkState.wake
  simp only [LinkState.place_world, hl, hr]
  cases r <;> exact ⟨v₁, m, rfl, hR₁⟩

theorem submit (h : Twin R s s') (b : Builder) :
    Twins R (s.submit net b) (s'.submit net' b) := by
  have hreleased := h.release b
  obtain ⟨s₁, s₁', answer, hl, hr, h₁⟩ := h.enqueue b
  have hconfig : s₁'.config = s₁.config := by
    obtain ⟨v, m, rfl, -⟩ := h₁
    rfl
  unfold LinkState.submit
  simp only [hl, hr, h.stopped_eq]
  cases b.finished with
  | false => exact .mk hreleased
  | true =>
    cases s.stopped with
    | true => exact .mk hreleased
    | false =>
      cases answer with
      | queued => exact .mk (hnet.wake h₁.countSubmitted)
      | full =>
        dsimp only
        rw [hconfig]
        exact .mk ((h₁.release b).countDropped 1)
      | gone => exact .mk (h₁.release b)

theorem dropGuard (h : Twin R s s') : Twin R (s.dropGuard net) (s'.dropGuard net') := by
  obtain ⟨v, m, rfl, hR⟩ := h
  have hleft : Twin R { s with guards := s.guards - 1 }
      { s.place v m with guards := s.guards - 1 } := ⟨v, m, rfl, hR⟩
  have hguards : (s.place v m).guards = s.guards := rfl
  unfold LinkState.dropGuard
  by_cases hlast : s.guards = 1
  · rw [if_pos hlast, if_pos (hguards.trans hlast)]
    exact hnet.wake hleft
  · rw [if_neg hlast, if_neg (hguards ▸ hlast)]
    exact hleft

theorem stop (h : Twin R s s') : Twin R (s.stop net) (s'.stop net') := by
  obtain ⟨v, m, rfl, hR⟩ := h
  have hstopped : Twin R { s with stopped := true } { s.place v m with stopped := true } :=
    ⟨v, m, rfl, hR⟩
  exact hnet.wake hstopped

end Sockets

end Net.Lockstep

end ArmStream
