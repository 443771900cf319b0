import Mathlib
import ArmStream.Proofs.Peers
import ArmStream.Proofs.Steps

/-!
# Who becomes a peer

A stream becomes a peer in two ways: it was accepted, or the stream to the remote side got
connected. Either way its token is that of no other peer, so no peer, and no frame that waits in its
buffer, is ever replaced. The stream to the remote side is always in exactly one place: it is being
opened, it is to be opened later, or it is a peer.

## Main definitions

- `Arrival`: a stream becomes a peer among others.
- `LinkState.arrivals`, `System.arrivals`: the arrivals in the reaction to an event, and in an
  action.
- `Streams.entries`: the tokens of the peers with their streams.

## Main statements

- `LinkState.fresh_arrivals`: no arrival takes the token of a peer.
- `System.entries_step`: peers only come by arrivals.
- `Reachable.peers_never_collide`: where the stream to the remote side is, and that each token has
  one peer.
-/

namespace ArmStream

variable {σ : Type} {net : Net σ}

/-! ## Arrivals -/

structure Arrival where
  token : Token
  conn : Conn
  /-- The peers that are there already. -/
  present : List (Token × Peer)
  deriving DecidableEq, Repr, Inhabited

namespace Arrival

/-- No peer that is there has the token of the new one. -/
def Fresh (a : Arrival) : Prop := a.token ∉ a.present.map Prod.fst

def after (a : Arrival) : List (Token × Peer) :=
  Streams.insertPeer a.token { conn := a.conn } a.present

end Arrival

namespace LinkState

/-- The arrival of an accepted stream, if it can be watched. -/
def newcomer? (net : Net σ) (s : LinkState σ) (t : Streams) (conn : Conn) : Option Arrival :=
  match registerStream net conn t.nextToken s.world with
  | (.ok _, w) =>
    if ({ s with world := w }.hurry net conn).loopDied then none
    else some ⟨t.nextToken, conn, t.peers⟩
  | (_, _) => none

def newcomers (net : Net σ) : (fuel : Nat) → LinkState σ → Streams → List Arrival
  | 0, _, _ => []
  | fuel + 1, s, t =>
    match net.accept s.world with
    | (.ok conn, w) =>
      let r := welcome net { s with world := w } t conn
      (newcomer? net { s with world := w } t conn).toList ++
        if r.1.loopDied then [] else newcomers net fuel r.1 r.2
    | (.fail .interrupted, w) => newcomers net fuel { s with world := w } t
    | (_, _) => []

/-- The arrival of the stream to the remote side, if an event tells that it is connected. -/
def connected? (net : Net σ) (s : LinkState σ) (t : Streams) (e : Event) : Option Arrival :=
  match t.connecting with
  | some conn =>
    if e.token = Token.outbound then
      match opening net conn s.world with
      | (.connected, w) =>
        if ({ s with world := w }.hurry net conn).loopDied then none
        else some ⟨Token.outbound, conn, t.peers⟩
      | (_, _) => none
    else none
  | none => none

def arrivals (net : Net σ) (s : LinkState σ) (e : Event) : List Arrival :=
  if s.loopDied || e.token = Token.waker then []
  else
    match s.carrier with
    | .datagrams => []
    | .streams t =>
      if e.token = Token.listener then newcomers net (net.patience s.world) s t
      else (s.connected? net t e).toList

end LinkState

/-- The arrivals in an action: streams become peers only when the loop reacts to an event. -/
def System.arrivals (net : Net σ) (y : System σ) : Action → List Arrival
  | .proceed =>
    match y.stage with
    | .reacting (e :: _) => y.link.arrivals net e
    | _ => []
  | _ => []

/-! ## No arrival takes the token of a peer -/

namespace Streams

theorem insertPeer_perm {k : Token} {peers : List (Token × Peer)} (p : Peer)
    (h : k ∉ peers.map Prod.fst) : (insertPeer k p peers).Perm ((k, p) :: peers) := by
  induction peers with
  | nil => exact .refl _
  | cons q rest ih =>
    obtain ⟨other, q⟩ := q
    obtain ⟨hne, hrest⟩ := by simpa only [List.map_cons, List.mem_cons, not_or] using h
    unfold insertPeer
    split
    next => exact .refl _
    next => exact ((ih hrest).cons _).trans (.swap _ _ _)

theorem Sound.fresh_nextToken {t : Streams} (ht : t.Sound) : t.nextToken ∉ t.tokens := by
  intro hmem
  rcases ht.bounded _ hmem with heq | ⟨-, hlt⟩
  · exact absurd (heq ▸ ht.first_le) (Nat.not_le_of_lt Token.outbound_lt_firstInbound)
  · exact Nat.lt_irrefl _ hlt

end Streams

namespace LinkState

variable {s : LinkState σ} {t : Streams}

theorem fresh_newcomer? (net : Net σ) (s : LinkState σ) (ht : t.Sound) (conn : Conn) :
    ∀ a ∈ s.newcomer? net t conn, a.Fresh := by
  intro a ha
  unfold newcomer? at ha
  split at ha
  next =>
    split at ha
    next => cases ha
    next =>
      obtain rfl := Option.some.inj ha
      exact ht.fresh_nextToken
  next => cases ha

theorem fresh_newcomers (net : Net σ) (fuel : Nat) (ht : t.Sound) :
    ∀ a ∈ s.newcomers net fuel t, a.Fresh := by
  induction fuel generalizing s t with
  | zero => simp [newcomers]
  | succ fuel ih =>
    intro a ha
    unfold newcomers at ha
    split at ha
    next conn w haccept =>
      have hmoves := Moves.welcome net (d := []) ht haccept
      rcases List.mem_append.1 ha with hfirst | hmore
      · exact fresh_newcomer? net _ ht conn a (Option.mem_toList.1 hfirst)
      · split at hmore
        next => cases hmore
        next halive => exact ih (hmoves.sound (by simpa using halive) ht) a hmore
    next => exact ih ht a ha
    next => cases ha

theorem fresh_connected? (net : Net σ) (s : LinkState σ) (ht : t.Sound) (e : Event) :
    ∀ a ∈ s.connected? net t e, a.Fresh := by
  intro a ha
  unfold connected? at ha
  split at ha
  next conn hconn =>
    split at ha
    next =>
      split at ha
      next =>
        split at ha
        next => cases ha
        next =>
          obtain rfl := Option.some.inj ha
          exact (ht.not_mem_of_connecting hconn).2
      next => cases ha
    next => cases ha
  next => cases ha

/-- No arrival takes the token of a peer. -/
theorem fresh_arrivals (net : Net σ) (hcarrier : s.carrier = .streams t) (ht : t.Sound)
    (e : Event) : ∀ a ∈ s.arrivals net e, a.Fresh := by
  intro a ha
  simp only [arrivals, hcarrier] at ha
  split at ha
  next => cases ha
  next =>
    split at ha
    next => exact fresh_newcomers net _ ht a ha
    next => exact fresh_connected? net s ht e a (Option.mem_toList.1 ha)

end LinkState

/-! ## Peers only come by arrivals -/

def Arrival.entry (a : Arrival) : Token × Conn := (a.token, a.conn)

namespace Streams

def entry (q : Token × Peer) : Token × Conn := (q.1, q.2.conn)

def entries (t : Streams) : List (Token × Conn) := t.peers.map entry

variable {t : Streams} {k : Token} {p : Peer}

theorem mem_insertPeer {peers : List (Token × Peer)} {q : Token × Peer}
    (h : q ∈ insertPeer k p peers) : q = (k, p) ∨ q ∈ peers := by
  induction peers with
  | nil => exact .inl (List.mem_singleton.1 h)
  | cons r rest ih =>
    obtain ⟨other, r⟩ := r
    unfold insertPeer at h
    grind

theorem entries_setPeer (t : Streams) (k : Token) (p : Peer) :
    (t.setPeer k p).entries ⊆ t.entries ++ [(k, p.conn)] := by
  intro x hx
  obtain ⟨q, hq, rfl⟩ := List.mem_map.1 hx
  rcases mem_insertPeer hq with rfl | hold
  · simp [entry]
  · exact List.mem_append_left _ (List.mem_map_of_mem hold)

/-- A peer's buffer changes. -/
theorem entries_setPeer_of_mem (h : (k, p) ∈ t.peers) {p' : Peer} (hconn : p'.conn = p.conn) :
    (t.setPeer k p').entries ⊆ t.entries := by
  have hold : (k, p'.conn) ∈ t.entries := hconn ▸ List.mem_map_of_mem (f := entry) h
  exact List.Subset.trans (entries_setPeer t k p')
    (List.append_subset.2 ⟨List.Subset.refl _, by simpa using hold⟩)

theorem entries_erasePeer (t : Streams) (k : Token) : (t.erasePeer k).entries ⊆ t.entries :=
  List.map_subset _ List.filter_sublist.subset

theorem mem_of_peer? (h : t.peer? k = some p) : (k, p) ∈ t.peers := by
  obtain ⟨pre, post, hpeers⟩ := exists_split_of_peer? h
  simp [hpeers]

end Streams

namespace LinkState

open Streams

/-! ### Handing messages on -/

theorem entries_handOver? {s s' : LinkState σ} {t t' : Streams}
    (h : s.handOver? t = some (s', t')) : t'.entries ⊆ t.entries := by
  unfold handOver? at h
  split at h
  next => cases h
  next b rest _ =>
    split at h
    next => cases h
    next k p hturn =>
      obtain ⟨pre, post, hpeers⟩ := exists_split_of_turn? hturn
      dsimp only at h
      split at h
      next p' hpushed =>
        cases h
        have hconn : p'.conn = p.conn := by
          split at hpushed
          next =>
            obtain ⟨-, rfl⟩ := Peer.push?_eq hpushed
            rfl
          next => cases hpushed
        exact entries_setPeer_of_mem (t := { t with lastServed := some k })
          (by simp [hpeers]) hconn
      next =>
        cases h
        exact List.Subset.refl _

theorem entries_handOverAll (fuel : Nat) (s : LinkState σ) (t : Streams) :
    (s.handOverAll fuel t).2.entries ⊆ t.entries := by
  induction fuel generalizing s t with
  | zero => exact List.Subset.refl _
  | succ fuel ih =>
    unfold handOverAll
    split
    next => exact List.Subset.refl _
    next s' t' h => exact List.Subset.trans (ih s' t') (entries_handOver? h)

variable (net : Net σ) (s : LinkState σ)

theorem map_entry_offerAll (todo : List (Token × Peer)) :
    (s.offerAll net todo).2.1.map entry = todo.map entry := by
  induction todo generalizing s with
  | nil => rfl
  | cons q rest ih =>
    unfold offerAll
    split
    next => rfl
    next => simp [ih, entry, Peer.conn_flush]

theorem entries_part (t : Streams) (k : Token) : (s.part net t k).2.entries ⊆ t.entries := by
  unfold part
  split
  next => exact List.Subset.refl _
  next => split <;> exact entries_erasePeer t k

theorem entries_partAll (t : Streams) (tokens : List Token) :
    (s.partAll net t tokens).2.entries ⊆ t.entries := by
  induction tokens generalizing s t with
  | nil => exact List.Subset.refl _
  | cons k rest ih =>
    unfold partAll
    split
    next => exact List.Subset.refl _
    next => exact List.Subset.trans (ih _ _) (entries_part net s t k)

theorem entries_handOnStreams (t : Streams) :
    ∃ t', (s.handOnStreams net t).carrier = .streams t' ∧ t'.entries ⊆ t.entries := by
  have hoffered := map_entry_offerAll net (s.handOverAll s.outbox.length t).1
    (s.handOverAll s.outbox.length t).2.peers
  refine ⟨_, rfl, List.Subset.trans (entries_partAll net _ _ _) ?_⟩
  rw [entries, hoffered]
  exact entries_handOverAll s.outbox.length s t

/-! ### Reacting to sockets -/

theorem entries_welcome (t : Streams) (conn : Conn) :
    (s.welcome net t conn).2.entries ⊆
      t.entries ++ (s.newcomer? net t conn).toList.map Arrival.entry := by
  unfold welcome newcomer?
  dsimp only
  split
  next => simp [entries]
  next => simp [entries]
  next w hregister =>
    simp only [hregister]
    split
    next => simp [entries]
    next => exact entries_setPeer { t with nextToken := t.nextToken + 1 } _ _

theorem entries_welcomeAll (fuel : Nat) (t : Streams) :
    (s.welcomeAll net fuel t).2.entries ⊆
      t.entries ++ (s.newcomers net fuel t).map Arrival.entry := by
  induction fuel generalizing s t with
  | zero => simp [welcomeAll, newcomers]
  | succ fuel ih =>
    unfold welcomeAll newcomers
    split
    next conn w haccept =>
      have hfirst := entries_welcome net { s with world := w } t conn
      simp only [haccept, List.map_append]
      rw [← List.append_assoc]
      split
      next => simpa using hfirst
      next =>
        exact List.Subset.trans (ih _ _) (List.append_subset.2
          ⟨List.Subset.trans hfirst (List.subset_append_left _ _), List.subset_append_right _ _⟩)
    next w haccept =>
      simp only [haccept]
      exact ih { s with world := w } t
    next => simp
    next => simp

theorem entries_settleOutbound (t : Streams) (e : Event) :
    (s.settleOutbound net t e).2.entries ⊆
      t.entries ++ (s.connected? net t e).toList.map Arrival.entry := by
  unfold settleOutbound connected?
  cases t.connecting with
  | none => simp
  | some conn =>
    dsimp only
    split
    next =>
      unfold settleOpening
      split
      next => simp
      next => simp
      next w hopening =>
        simp only [hopening]
        split
        next => simp [entries]
        next => exact entries_setPeer { t with connecting := none } Token.outbound { conn := conn }
      next =>
        dsimp only
        split <;> simp [entries]
    next => simp

theorem entries_servePeer {t : Streams} {e : Event} {p : Peer} (hp : t.peer? e.token = some p) :
    (s.servePeer net t e p).2.entries ⊆ t.entries := by
  have hwritten (w : σ) : (t.setPeer e.token (p.flush net w).peer).entries ⊆ t.entries :=
    entries_setPeer_of_mem (mem_of_peer? hp) (Peer.conn_flush net p w)
  unfold servePeer
  dsimp only
  split
  next => exact List.Subset.refl _
  next =>
    split
    next =>
      dsimp only
      split
      next => exact hwritten _
      next => exact List.Subset.trans (entries_part net _ _ _) (hwritten _)
    next =>
      dsimp only
      split
      next => exact List.Subset.refl _
      next => exact entries_part net _ _ _

theorem entries_reactStream (t : Streams) (e : Event) :
    (s.reactStream net t e).2.entries ⊆
      t.entries ++ (s.connected? net t e).toList.map Arrival.entry := by
  have hsettled := entries_settleOutbound net s t e
  unfold reactStream
  dsimp only
  split
  next => exact hsettled
  next =>
    split
    next => exact hsettled
    next p hp => exact List.Subset.trans (entries_servePeer net _ hp) hsettled

theorem entries_react {t : Streams} (hcarrier : s.carrier = .streams t) (e : Event) :
    ∃ t', (s.react net e).carrier = .streams t' ∧
      t'.entries ⊆ t.entries ++ (s.arrivals net e).map Arrival.entry := by
  unfold react arrivals
  simp only [hcarrier]
  split
  next => exact ⟨t, hcarrier, by simp⟩
  next =>
    refine ⟨_, rfl, ?_⟩
    split
    next => exact entries_welcomeAll net s _ t
    next => exact entries_reactStream net s t e

theorem entries_reopen {t : Streams} (hcarrier : s.carrier = .streams t) :
    ∃ t', (s.reopen net).carrier = .streams t' ∧ t'.entries ⊆ t.entries := by
  unfold reopen
  simp only [hcarrier]
  split
  next => exact ⟨t, hcarrier, List.Subset.refl _⟩
  next =>
    split
    next => exact ⟨t, hcarrier, List.Subset.refl _⟩
    next =>
      split
      next => exact ⟨_, rfl, List.Subset.refl _⟩
      next => exact ⟨_, rfl, List.Subset.refl _⟩
      next => split <;> exact ⟨_, rfl, List.Subset.refl _⟩

end LinkState

/-! ## Systems -/

namespace System

open Streams

variable {y : System σ} {t : Streams}

@[simp] theorem enter_carrier (net : Net σ) (y : System σ) (s : LinkState σ) (next : Stage) :
    (y.enter net s next).link.carrier = s.carrier := by
  unfold enter
  split <;> rfl

/-- The next stage of the loop brings no peers but those that arrive. -/
theorem entries_proceed (net : Net σ) (ht : y.link.carrier = .streams t) :
    ∃ t', (y.proceed net).link.carrier = .streams t' ∧
      t'.entries ⊆ t.entries ++ (y.arrivals net .proceed).map Arrival.entry := by
  have hsame {s : LinkState σ} (hs : s.carrier = y.link.carrier) :
      ∃ t', s.carrier = .streams t' ∧
        t'.entries ⊆ t.entries ++ (y.arrivals net .proceed).map Arrival.entry :=
    ⟨t, hs.trans ht, List.subset_append_left _ _⟩
  unfold proceed
  split
  next => exact hsame rfl
  next =>
    obtain ⟨pool, htaken⟩ := y.link.takeSubmissions_eq
    exact hsame (by rw [htaken])
  next =>
    rw [enter_carrier, LinkState.handOn, ht]
    obtain ⟨t', ht', hsub⟩ := LinkState.entries_handOnStreams net y.link t
    exact ⟨t', ht', List.Subset.trans hsub (List.subset_append_left _ _)⟩
  next => exact hsame rfl
  next => exact hsame rfl
  next => exact hsame rfl
  next e rest hstage =>
    rw [enter_carrier, arrivals, hstage]
    exact LinkState.entries_react net y.link ht e
  next =>
    rw [enter_carrier]
    obtain ⟨t', ht', hsub⟩ := LinkState.entries_reopen net y.link ht
    exact ⟨t', ht', List.Subset.trans hsub (List.subset_append_left _ _)⟩
  next =>
    obtain ⟨pool, hleft⟩ := y.link.leave_eq net
    exact hsame (by rw [hleft])
  next => exact hsame rfl
  next => exact hsame rfl

/-- What callers do, and the end of the wait, leave the streams as they are. -/
theorem step_carrier (net : Net σ) (y : System σ) {a : Action} (ha : a ≠ .proceed) :
    (y.step net a).link.carrier = y.link.carrier := by
  rcases a.isCallers_or with hcallers | rfl | ⟨r, rfl⟩
  · have hcalled := called_step net y hcallers
    generalize y.step net a = y' at hcalled ⊢
    cases hcalled with
    | aside | submitted | refused => rfl
  · exact absurd rfl ha
  · simp only [step, answer]
    split
    next => split <;> simp
    next => rfl

/-- Peers only come by arrivals. -/
theorem entries_step (net : Net σ) (ht : y.link.carrier = .streams t) (a : Action) :
    ∃ t', (y.step net a).link.carrier = .streams t' ∧
      t'.entries ⊆ t.entries ++ (y.arrivals net a).map Arrival.entry := by
  by_cases ha : a = .proceed
  · subst ha
    exact entries_proceed net ht
  · exact ⟨t, (step_carrier net y ha).trans ht, List.subset_append_left _ _⟩

theorem fresh_arrivals (net : Net σ) (hy : y.Sound) (a : Action) :
    ∀ b ∈ y.arrivals net a, b.Fresh := by
  intro b hb
  unfold arrivals at hb
  split at hb
  next =>
    split at hb
    next e rest hstage =>
      have hlive : y.stage.isLive = true := by simp [hstage, Stage.isLive]
      cases hcarrier : y.link.carrier with
      | datagrams => simp [LinkState.arrivals, hcarrier] at hb
      | streams t =>
        exact LinkState.fresh_arrivals net hcarrier (hy.streams hlive t hcarrier) e b hb
    next => cases hb
  next => cases hb

end System

namespace Reachable

variable {w₀ : σ} {y : System σ} {t : Streams}

/-- The peers are in order also when the loop has left. -/
theorem sound_streams (h : Reachable net w₀ y) (hdied : y.stage ≠ .died)
    (ht : y.link.carrier = .streams t) : t.Sound := by
  suffices hall : y.stage ≠ .died → ∀ t, y.link.carrier = .streams t → t.Sound from hall hdied t ht
  refine h.induction (P := fun y => y.stage ≠ .died → ∀ t, y.link.carrier = .streams t → t.Sound)
    (fun s hfresh _ => (sound_of_fresh hfresh).streams rfl) ?_
  intro y y' hy hkept htransition hdied'
  rcases Stage.live_or_ended hdied' with hlive' | hended
  · exact (hy.sound.transition htransition).streams hlive'
  cases htransition with
  | aside | submitted | refused => exact hkept hdied'
  | left hlive =>
    obtain ⟨pool, hleft⟩ := y.link.leave_eq net
    rw [hleft]
    exact hy.sound.streams hlive
  | died => exact absurd rfl hdied'
  | passed _ hnext | took _ hnext | worked _ hnext | sent _ hnext | heard _ _ hnext =>
    obtain rfl := hended
    simp [Stage.isLive] at hnext

/-- On a stream link, unless a call of the system ended the thread of its loop, the stream to the
remote side is in exactly one place, each other peer has a token of its own out of those given to
accepted streams, and the peer that got the last message is still there. Whatever happens next, a
stream that becomes a peer takes the token of no peer that is there, so all of these stay, and peers
come in no other way. -/
theorem peers_never_collide (h : Reachable net w₀ y) (hdied : y.stage ≠ .died)
    (ht : y.link.carrier = .streams t) :
    (t.connecting.isSome ∧ t.reopenAt = none ∧ Token.outbound ∉ t.tokens ∨
      t.connecting = none ∧ t.reopenAt.isSome ∧ Token.outbound ∉ t.tokens ∨
      t.connecting = none ∧ t.reopenAt = none ∧ Token.outbound ∈ t.tokens) ∧
    t.tokens.Nodup ∧
    (∀ k ∈ t.tokens, k ≠ Token.outbound → Token.firstInbound ≤ k ∧ k < t.nextToken) ∧
    (∀ k, t.lastServed = some k → k ∈ t.tokens) ∧
    ∀ action,
      (∀ a ∈ y.arrivals net action, a.token ∉ a.present.map Prod.fst ∧
        a.after.Perm ((a.token, { conn := a.conn }) :: a.present)) ∧
      ∃ t', (y.step net action).link.carrier = .streams t' ∧
        t'.entries ⊆ t.entries ++ (y.arrivals net action).map Arrival.entry := by
  have hsound := h.sound_streams hdied ht
  refine ⟨hsound.outbound, hsound.ascending.imp Nat.ne_of_lt, ?_, hsound.served, fun action => ?_⟩
  · intro k hk hne
    exact (hsound.bounded k hk).resolve_left hne
  · refine ⟨fun a ha => ?_, System.entries_step net ht action⟩
    have hfresh := System.fresh_arrivals net h.sound action a ha
    exact ⟨hfresh, Streams.insertPeer_perm _ hfresh⟩

end Reachable

/-- The scripted network, on which streams are accepted as the script has it. -/
def Net.welcoming : Net (List (Reply Nat)) where
  __ := Net.scripted
  accept w :=
    match w with
    | [] => (.fail .wouldBlock, [])
    | r :: rest => (r, rest)

/-- The stream to the remote side is connected when the first stream is accepted. -/
theorem Reachable.peers_never_collide_of_accept :
    ∃ (y : System (List (Reply Nat))) (t : Streams) (a : Arrival),
      Reachable Net.welcoming [.ok 7] y ∧ y.stage ≠ .died ∧ y.link.carrier = .streams t ∧
      y.arrivals Net.welcoming .proceed = [a] ∧
      a.entry = (Token.firstInbound, 7) ∧ a.present.map Prod.fst = [Token.outbound] ∧
      a.token ∉ a.present.map Prod.fst := by
  obtain ⟨y, hreach, hy⟩ := Reachable.exists_of_run Net.welcoming [.ok 7]
    "tcp://127.0.0.1:0" "tcp://10.9.8.7:30010" {}
    [.guard, .proceed, .proceed, .proceed, .proceed,
      .wake (.ok [{ token := Token.outbound, writable := true },
        { token := Token.listener, readable := true }]), .proceed]
    (fun y => y.stage != .died && y.link.carrier != .datagrams &&
      (y.arrivals Net.welcoming .proceed).map (fun a => (a.entry, a.present.map Prod.fst)) ==
        [((Token.firstInbound, 7), [Token.outbound])]) (by cbv)
  simp only [Bool.and_eq_true, bne_iff_ne, beq_iff_eq] at hy
  obtain ⟨⟨hdied, hcarrier⟩, harrivals⟩ := hy
  obtain ⟨t, ht⟩ := Carrier.exists_streams hcarrier
  obtain ⟨a, hone, ha⟩ := List.map_eq_singleton_iff.1 harrivals
  obtain ⟨hentry, hpresent⟩ := Prod.mk.inj ha
  obtain ⟨-, -, -, -, hnext⟩ := hreach.peers_never_collide hdied ht
  have hfresh := (hnext .proceed).1 a (by simp [hone])
  exact ⟨y, t, a, hreach, hdied, ht, hone, hentry, hpresent, hfresh.1⟩

end ArmStream
