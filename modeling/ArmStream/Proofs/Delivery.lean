import Mathlib
import ArmStream.Proofs.Accounts
import ArmStream.Proofs.Order
import ArmStream.Proofs.Recording
import ArmStream.Proofs.RoundTrip

/-!
# Messages arrive in order

Each stream has an account of its own, and no two peers share a stream. What a peer does to its
buffer it does to the account of its stream, and nothing else touches that account. So the bytes
that a stream took are the first bytes of the frames that were handed to it, whatever the order in
which peers come, stall, fail and leave.

## Main definitions

- `History.messagesTo`, `History.framesTo`: what was handed to a stream.
- `History.account`: the account of a stream in a recorded run.
- `Delivering`: the accounts of all streams are in order.

## Main statements

- `Delivering.move`: each move keeps the accounts in order.
- `Reachable.delivering`: they are in order in each reachable system.
- `Reachable.delivered_in_order`: what a stream took, and what its reader makes of it.
-/

namespace ArmStream

variable {σ : Type} {net : Net σ}

namespace History

def messagesTo (h : History) (c : Conn) : List Nat :=
  (h.handOvers.filter fun o => o.recipient.conn? = some c).map HandOver.message

theorem messagesTo_sublist (h : History) (c : Conn) : (h.messagesTo c).Sublist h.line := by
  have hhandedOn := List.Sublist.map HandOver.message
    (List.filter_sublist (l := h.handOvers) (p := fun o => o.recipient.conn? = some c))
  exact hhandedOn.trans (by simp [line])

def payload (h : History) (m : Nat) : List UInt8 := (h.message m).buffer.toList

def framesTo (h : History) (c : Conn) : List (List UInt8) := (h.messagesTo c).map h.payload

def offersTo (h : History) (c : Conn) : List Offer := h.offers.filter fun o => o.conn = c

def account (h : History) (r : Recording σ) (c : Conn) : Account where
  frames := h.framesTo c
  taken := r.taken c
  offers := h.offersTo c

variable {h : History} {r r' : Recording σ} {c : Conn}

/-! ## How accounts change -/

theorem messagesTo_depart (h : History) (c : Conn) (recipient : Recipient) :
    (h.depart [recipient]).messagesTo c =
      h.messagesTo c ++ if recipient.conn? = some c then h.pending.take 1 else [] := by
  cases hpending : h.pending with
  | nil => simp [messagesTo, depart, hpending]
  | cons m ms =>
    by_cases hc : recipient.conn? = some c <;>
      simp [messagesTo, depart, hpending, List.filter_append, hc]

/-- A message that is handed to a stream is a frame more in its account, and in no other. -/
theorem account_handed {m : Nat} {ms : List Nat} (hpending : h.pending = m :: ms) (k : Token)
    (c₀ : Conn) :
    (h.depart [.peer k c₀]).account r c =
      if c = c₀ then (h.account r c₀).hand (h.payload m) else h.account r c := by
  have hmessages := h.messagesTo_depart c (.peer k c₀)
  have hoffers : (h.depart [.peer k c₀]).offersTo c = h.offersTo c := rfl
  have hframes : (h.depart [.peer k c₀]).framesTo c =
      if c = c₀ then h.framesTo c ++ [h.payload m] else h.framesTo c := by
    change ((h.depart [.peer k c₀]).messagesTo c).map h.payload = _
    by_cases hc : c = c₀
    · subst hc
      simp [hmessages, hpending, Recipient.conn?, framesTo]
    · simp [hmessages, Recipient.conn?, hc, Ne.symm hc, framesTo]
  rw [account, hframes, hoffers]
  split
  next hc =>
    subst hc
    rfl
  next => rfl

/-- A message that is given up is in no account. -/
theorem account_withheld : (h.depart [.nobody]).account r c = h.account r c := by
  have hmessages := h.messagesTo_depart c .nobody
  have hoffers : (h.depart [.nobody]).offersTo c = h.offersTo c := rfl
  have hframes : (h.depart [.nobody]).framesTo c = h.framesTo c := by
    change ((h.depart [.nobody]).messagesTo c).map h.payload = _
    simp [hmessages, Recipient.conn?, framesTo]
  rw [account, hframes, hoffers, account]

/-- An offer changes the account of its stream only. -/
theorem account_offered (o : Offer) (bytes : List UInt8)
    (htaken : r'.taken = Function.update r.taken o.conn (r.taken o.conn ++ bytes)) :
    (h.offer [o]).account r' c =
      if c = o.conn then (h.account r o.conn).take bytes o else h.account r c := by
  have hframes : (h.offer [o]).framesTo c = h.framesTo c := rfl
  by_cases hc : c = o.conn
  · have hoffers : (h.offer [o]).offersTo c = h.offersTo c ++ [o] := by
      simp [offersTo, offer, hc]
    rw [account, hframes, hoffers, htaken, if_pos hc, hc, Function.update_self]
    rfl
  · have hoffers : (h.offer [o]).offersTo c = h.offersTo c := by
      simp [offersTo, offer, Ne.symm hc]
    rw [account, hframes, hoffers, htaken, if_neg hc, Function.update_of_ne hc, account]

theorem account_extends (h : History) (hr : r.Extends r') : h.account r' c = h.account r c := by
  rw [account, hr.taken_eq, account]

end History

/-! ## Accounts in order -/

/-- The streams that are open or being opened. -/
def Streams.conns (t : Streams) : List Conn := t.connecting.toList ++ t.peers.map fun q => q.2.conn

/-- The accounts of all streams are in order. Peers in `doomed` had a failed write. -/
structure Delivering (h : History) (r : Recording σ) (t : Streams) (doomed : List Token) :
    Prop where
  nodup : t.conns.Nodup
  known : ∀ c ∈ t.conns, c < r.names.length
  /-- Nothing was given to a stream that does not exist yet or is not connected yet. -/
  untouched : ∀ c, r.names.length ≤ c ∨ t.connecting = some c → h.account r c = {}
  balanced : ∀ c, (h.account r c).Balanced
  serves : ∀ q ∈ t.peers, q.2.Serves (h.account r q.2.conn)
  settled : ∀ q ∈ t.peers, q.1 ∉ doomed → q.2.Settled (h.account r q.2.conn)

namespace Delivering

variable {h h' : History} {r r' : Recording σ} {t t' : Streams} {doomed doomed' : List Token}

/-- Calls that take no bytes change no account. -/
theorem extend (hd : Delivering h r t doomed) (hr : r.Extends r') : Delivering h r' t doomed where
  nodup := hd.nodup
  known c hc := Nat.lt_of_lt_of_le (hd.known c hc) hr.names_le
  untouched c hc := by
    rw [h.account_extends hr]
    exact hd.untouched c (hc.imp_left fun hle => Nat.le_trans hr.names_le hle)
  balanced c := by
    rw [h.account_extends hr]
    exact hd.balanced c
  serves q hq := by
    rw [h.account_extends hr]
    exact hd.serves q hq
  settled q hq hdoomed := by
    rw [h.account_extends hr]
    exact hd.settled q hq hdoomed

/-- Histories with the same accounts. -/
theorem congr (hd : Delivering h r t doomed) (hsame : ∀ c, h'.account r c = h.account r c) :
    Delivering h' r t doomed where
  nodup := hd.nodup
  known := hd.known
  untouched c hc := (hsame c).trans (hd.untouched c hc)
  balanced c := hsame c ▸ hd.balanced c
  serves q hq := hsame q.2.conn ▸ hd.serves q hq
  settled q hq hdoomed := hsame q.2.conn ▸ hd.settled q hq hdoomed

/-- No two peers share a stream, and none has the stream that is being opened. -/
theorem conn_ne {k : Token} {p : Peer} {pre post : List (Token × Peer)}
    (hd : Delivering h r t doomed) (hpeers : t.peers = pre ++ (k, p) :: post) :
    (∀ q ∈ pre ++ post, q.2.conn ≠ p.conn) ∧ t.connecting ≠ some p.conn ∧
      p.conn < r.names.length := by
  have hnodup := hd.nodup
  have hknown := hd.known p.conn (by simp [Streams.conns, hpeers])
  simp only [Streams.conns, hpeers, List.map_append, List.map_cons] at hnodup
  obtain ⟨-, hpeersNodup, hdisjoint⟩ := List.nodup_append.1 hnodup
  obtain ⟨-, hpost, hpre⟩ := List.nodup_append.1 hpeersNodup
  refine ⟨fun q hq heq => ?_, fun heq => ?_, hknown⟩
  · rcases List.mem_append.1 hq with hq | hq
    · exact hpre q.2.conn (List.mem_map_of_mem hq) p.conn (by simp) heq
    · exact (List.nodup_cons.1 hpost).1 (heq ▸ List.mem_map_of_mem hq)
  · exact hdisjoint p.conn (by simp [heq]) p.conn (by simp) rfl

/-- One peer and the account of its stream change together. -/
theorem update {k : Token} {p p' : Peer} {pre post : List (Token × Peer)} {a : Account}
    (hd : Delivering h r t doomed) (hpeers : t.peers = pre ++ (k, p) :: post)
    (hpeers' : t'.peers = pre ++ (k, p') :: post) (hconnecting : t'.connecting = t.connecting)
    (hconn : p'.conn = p.conn) (hnames : r'.names = r.names)
    (haccount : ∀ c, h'.account r' c = if c = p.conn then a else h.account r c)
    (hbalanced : a.Balanced) (hserves : p'.Serves a) (hsettled : k ∉ doomed' → p'.Settled a)
    (hdoomed : ∀ j, j ∉ doomed' → j ∉ doomed) : Delivering h' r' t' doomed' := by
  obtain ⟨hother, hopening, hknown⟩ := hd.conn_ne hpeers
  have hconns : t'.conns = t.conns := by
    simp [Streams.conns, hpeers, hpeers', hconnecting, hconn]
  have hsame (q : Token × Peer) (hq : q ∈ pre ++ post) :
      q ∈ t.peers ∧ h'.account r' q.2.conn = h.account r q.2.conn := by
    refine ⟨?_, by rw [haccount, if_neg (hother q hq)]⟩
    rw [hpeers]
    exact List.mem_append.2 ((List.mem_append.1 hq).imp_right (List.mem_cons_of_mem _))
  have hcases (q : Token × Peer) (hq : q ∈ t'.peers) : q = (k, p') ∨ q ∈ pre ++ post := by
    rw [hpeers', List.mem_append, List.mem_cons] at hq
    rw [List.mem_append]
    tauto
  have hself : h'.account r' p'.conn = a := by rw [haccount, if_pos hconn]
  constructor
  · exact hconns ▸ hd.nodup
  · exact fun c hc => hnames ▸ hd.known c (hconns ▸ hc)
  · intro c hc
    rw [hnames, hconnecting] at hc
    -- the stream of the peer is known and is not being opened
    have hne : c ≠ p.conn := by
      rintro rfl
      rcases hc with hc | hc
      · exact absurd hknown (Nat.not_lt_of_le hc)
      · exact hopening hc
    rw [haccount, if_neg hne]
    exact hd.untouched c hc
  · intro c
    rw [haccount]
    split
    · exact hbalanced
    · exact hd.balanced c
  · intro q hq
    rcases hcases q hq with rfl | hq
    · exact hself ▸ hserves
    · obtain ⟨hmem, haccount'⟩ := hsame q hq
      exact haccount' ▸ hd.serves q hmem
  · intro q hq hj
    rcases hcases q hq with rfl | hq
    · exact hself ▸ hsettled hj
    · obtain ⟨hmem, haccount'⟩ := hsame q hq
      exact haccount' ▸ hd.settled q hmem (hdoomed _ hj)

/-- A peer leaves, and the streams that are open or being opened become fewer. -/
theorem fewer (hd : Delivering h r t doomed) (hpeers : ∀ q ∈ t'.peers, q ∈ t.peers)
    (hconns : t'.conns.Sublist t.conns)
    (hconnecting : ∀ c, t'.connecting = some c → t.connecting = some c)
    (hdoomed : ∀ q ∈ t'.peers, q.1 ∉ doomed' → q.1 ∉ doomed) : Delivering h r t' doomed' where
  nodup := hd.nodup.sublist hconns
  known c hc := hd.known c (hconns.mem hc)
  untouched c hc := hd.untouched c (hc.imp_right (hconnecting c))
  balanced := hd.balanced
  serves q hq := hd.serves q (hpeers q hq)
  settled q hq hj := hd.settled q (hpeers q hq) (hdoomed q hq hj)

/-- Only other fields of the streams changed. -/
theorem same (hd : Delivering h r t doomed) (hpeers : t'.peers = t.peers)
    (hconnecting : t'.connecting = t.connecting) : Delivering h r t' doomed :=
  hd.fewer (fun _ hq => hpeers ▸ hq) (by simp [Streams.conns, hpeers, hconnecting])
    (fun _ hc => hconnecting ▸ hc) fun _ _ hj => hj

/-- A stream that was given nothing becomes a peer. -/
theorem join (k : Token) {c₀ : Conn} (hd : Delivering h r t doomed) (hc₀ : h.account r c₀ = {})
    (hpeers : ∀ q ∈ t'.peers, q = (k, { conn := c₀ }) ∨ q ∈ t.peers) (hnodup : t'.conns.Nodup)
    (hknown : ∀ c ∈ t'.conns, c < r.names.length)
    (hconnecting : ∀ c, t'.connecting = some c → t.connecting = some c) :
    Delivering h r t' doomed where
  nodup := hnodup
  known := hknown
  untouched c hc := hd.untouched c (hc.imp_right (hconnecting c))
  balanced := hd.balanced
  serves q hq := by
    rcases hpeers q hq with rfl | hq
    · exact hc₀ ▸ Peer.serves_new c₀
    · exact hd.serves q hq
  settled q hq hj := by
    rcases hpeers q hq with rfl | hq
    · exact hc₀ ▸ Peer.settled_new c₀
    · exact hd.settled q hq hj

/-- A message is handed to a peer. -/
theorem handedOver {k : Token} {p p' : Peer} {pre post : List (Token × Peer)} {m : Nat}
    {ms : List Nat} (hd : Delivering h r t doomed) (hpeers : t.peers = pre ++ (k, p) :: post)
    (hpending : h.pending = m :: ms) (hpush : p.push? (h.message m).buffer = some p') :
    Delivering (h.depart [.peer k p.conn]) r
      { t with lastServed := some k, peers := pre ++ (k, p') :: post } doomed := by
  have hserves := hd.serves (k, p) (by simp [hpeers])
  obtain ⟨hlen, hp'⟩ := Peer.push?_eq hpush
  refine hd.update hpeers rfl rfl (by rw [hp']) rfl
    (fun c => History.account_handed hpending k p.conn) ?_ (hserves.push hpush) (fun hk => ?_)
    fun _ hj => hj
  · exact (hd.balanced p.conn).hand (by simpa [History.payload] using hlen)
  · exact (hd.settled (k, p) (by simp [hpeers]) hk).push hserves hpush

/-- A peer that is not doomed is offered its bytes. If a write fails it is doomed. -/
theorem offered (net : Net σ) {k : Token} {p : Peer} {pre post : List (Token × Peer)}
    (hd : Delivering h r t doomed) (hpeers : t.peers = pre ++ (k, p) :: post) (hk : k ∉ doomed) :
    Delivering (h.offer [.made p (p.flush net.recorded r)]) (p.flush net.recorded r).world
      { t with peers := pre ++ (k, (p.flush net.recorded r).peer) :: post }
      (if (p.flush net.recorded r).outcome = .settled then doomed else doomed ++ [k]) := by
  have hserves := hd.serves (k, p) (by simp [hpeers])
  have hsettled := hd.settled (k, p) (by simp [hpeers]) hk
  obtain ⟨hnames, htaken⟩ := p.flush_recorded net r
  have hbytes := (p.flush_eq net.recorded r).1
  refine hd.update hpeers rfl rfl (p.conn_flush net.recorded r) hnames
    (fun c => History.account_offered (.made p (p.flush net.recorded r)) _ htaken)
    ((hd.balanced p.conn).take hserves hsettled hbytes) (hserves.flush net.recorded r)
    (fun hk' => ?_) fun j hj => ?_
  · refine (hsettled.flush hserves ?_).1
    by_contra hfailed
    simp [hfailed] at hk'
  · split at hj
    · exact hj
    · exact fun hmem => hj (List.mem_append_left _ hmem)

/-- A peer leaves. -/
theorem parted {k : Token} {p : Peer} {pre post : List (Token × Peer)}
    (hd : Delivering h r t doomed) (ht : t.Sound) (hpeers : t.peers = pre ++ (k, p) :: post)
    (hpeers' : t'.peers = pre ++ post) (hconnecting : t'.connecting = t.connecting) :
    Delivering h r t' (doomed.filter (· ≠ k)) := by
  refine hd.fewer (fun q hq => ?_) ?_ (fun _ hc => hconnecting ▸ hc) fun q hq hj hmem => hj ?_
  · simp only [hpeers, hpeers', List.mem_append, List.mem_cons] at hq ⊢
    tauto
  · simp [Streams.conns, hpeers, hpeers', hconnecting]
  · have hne : q.1 ≠ k := ht.ne_of_split hpeers q (hpeers' ▸ hq)
    simpa [hne] using hmem

/-- A stream that the network gives is new, and nothing was given to it. -/
theorem given {answer : Reply Conn × σ} {conn : Conn} {r₁ : Recording σ}
    (hd : Delivering h r t doomed) (hgive : r.give answer = (.ok conn, r₁))
    (hcalls : net.recorded.Quiets r₁ r') :
    Delivering h r' t doomed ∧ conn ∉ t.conns ∧ conn < r'.names.length ∧
      h.account r' conn = {} := by
  have hlater := Recording.extends_of_quiets hcalls
  have hextends := (Recording.extends_of_give hgive).trans hlater
  obtain ⟨rfl, hlength, -⟩ := Recording.give_eq_ok hgive
  refine ⟨hd.extend hextends, fun hmem => Nat.lt_irrefl _ (hd.known _ hmem), ?_, ?_⟩
  · exact Nat.lt_of_lt_of_le (hlength ▸ Nat.lt_succ_self _) hlater.names_le
  · rw [h.account_extends hextends]
    exact hd.untouched _ (.inl (Nat.le_refl _))

/-- A stream is accepted and becomes a peer. -/
theorem welcomed {answer : Reply Conn × σ} {conn : Conn} {r₁ : Recording σ}
    (hd : Delivering h r t doomed) (hgive : r.give answer = (.ok conn, r₁))
    (hcalls : net.recorded.Quiets r₁ r') :
    Delivering h r' { t with
      nextToken := t.nextToken + 1
      peers := t.peers ++ [(t.nextToken, { conn := conn })] } doomed := by
  obtain ⟨hd', hnew, hlater, hempty⟩ := hd.given hgive hcalls
  have hconns : ({ t with
      nextToken := t.nextToken + 1
      peers := t.peers ++ [(t.nextToken, { conn := conn })] } : Streams).conns =
      t.conns ++ [conn] := by
    simp [Streams.conns]
  refine hd'.join t.nextToken hempty (fun q hq => ?_) ?_ (fun c hc => ?_) fun _ hc => hc
  · simpa [or_comm] using hq
  · rw [hconns]
    exact List.nodup_append.2 ⟨hd.nodup, by simp, by grind⟩
  · rw [hconns, List.mem_append, List.mem_singleton] at hc
    rcases hc with hc | rfl
    · exact hd'.known c hc
    · exact hlater

/-- The stream to the remote side is being opened again. -/
theorem reopened {answer : Reply Conn × σ} {conn : Conn} {r₁ : Recording σ}
    (hd : Delivering h r t doomed) (hnone : t.connecting = none)
    (hgive : r.give answer = (.ok conn, r₁)) (hcalls : net.recorded.Quiets r₁ r') :
    Delivering h r' { t with reopenAt := none, connecting := some conn } doomed := by
  obtain ⟨hd', hnew, hlater, hempty⟩ := hd.given hgive hcalls
  have hconns : ({ t with reopenAt := none, connecting := some conn } : Streams).conns =
      conn :: t.conns := by
    simp [Streams.conns, hnone]
  refine ⟨?_, fun c hc => ?_, fun c hc => ?_, hd'.balanced, hd'.serves, hd'.settled⟩
  · rw [hconns]
    exact List.nodup_cons.2 ⟨hnew, hd.nodup⟩
  · rw [hconns, List.mem_cons] at hc
    rcases hc with rfl | hc
    · exact hlater
    · exact hd'.known c hc
  · rcases hc with hc | hc
    · exact hd'.untouched c (.inl hc)
    · exact Option.some.inj hc ▸ hempty

/-- Each move keeps the accounts of all streams in order. -/
theorem move {x y : Working (Recording σ)} {log : List Deed} (hmove : Move net.recorded x log y)
    (hy : y.link.loopDied = false) (ht : x.streams.Sound)
    (ho : h.Ordered x.link.queue x.link.outbox)
    (hd : Delivering h x.link.world x.streams x.doomed) :
    Delivering (log.foldl History.record h) y.link.world y.streams y.doomed := by
  cases hmove with
  | died hdied => simp [hdied] at hy
  | called hcall => exact hd.extend (Recording.extends_of_quiet hcall)
  | received => exact hd
  | settled => exact hd
  | @handedOver s t d b rest k p bytes p' pre post houtbox hturn hpeers hbytes hpush =>
    rw [houtbox] at ho
    obtain ⟨m, ms, hpending, rfl, -, -⟩ := ho.exists_oldest (.peer k p.conn)
    obtain ⟨-, rfl⟩ := Builder.bytes_eq_ok_iff.1 hbytes
    rw [LinkState.release_world]
    exact hd.handedOver hpeers hpending hpush
  | withheld =>
    rw [LinkState.release_world]
    exact (hd.congr fun c => History.account_withheld).same rfl rfl
  | offered hpeers hk _ =>
    rw [LinkState.noteWritten_world]
    exact hd.offered net hpeers hk
  | parted due hpeers => exact hd.parted ht hpeers rfl rfl
  | welcomed haccept hcalls => exact hd.welcomed haccept hcalls
  | turnedAway => exact hd.same rfl rfl
  | @connected s t d conn hconnecting =>
    have hconns : ({ t with
        connecting := none
        peers := (Token.outbound, { conn := conn }) :: t.peers } : Streams).conns = t.conns := by
      simp [Streams.conns, hconnecting]
    exact hd.join Token.outbound (hd.untouched conn (.inr hconnecting))
      (fun q hq => List.mem_cons.1 hq) (hconns ▸ hd.nodup) (hconns ▸ hd.known) (by simp)
  | refused due hconnecting =>
    refine hd.fewer (fun _ hq => hq) ?_ (by simp) fun _ _ hj => hj
    simp [Streams.conns]
  | reopened hdue hconnect hcalls =>
    exact hd.reopened (ht.not_mem_of_reopenAt hdue).1 hconnect hcalls
  | postponed due' hdue hcalls =>
    exact (hd.extend (Recording.extends_of_quiets hcalls)).same rfl rfl

theorem moves {x y : Working (Recording σ)} {log : List Deed} (hmoves : Moves net.recorded x log y)
    (hy : y.link.loopDied = false) (ht : x.streams.Sound)
    (ho : h.Ordered x.link.queue x.link.outbox)
    (hd : Delivering h x.link.world x.streams x.doomed) :
    Delivering (log.foldl History.record h) y.link.world y.streams y.doomed := by
  induction hmoves generalizing h with
  | refl => exact hd
  | step hmove hmoves ih =>
    have halive := hmoves.alive hy
    rw [List.foldl_append]
    exact ih hy (hmove.sound halive ht) (ho.move hmove halive) (hd.move hmove halive ht ho)

end Delivering

/-! ## Systems -/

namespace History.Ordered

variable {h : History} {queue outbox : List Builder} {c : Conn}

/-- A message is handed to one stream at most. -/
theorem stream_unique (ho : h.Ordered queue outbox) {m : Nat} {c' : Conn}
    (hm : m ∈ h.messagesTo c) (hm' : m ∈ h.messagesTo c') : c = c' := by
  obtain ⟨o, ho₁, rfl⟩ := List.mem_map.1 hm
  obtain ⟨o', ho₂, hsame⟩ := List.mem_map.1 hm'
  obtain ⟨hmem, hconn⟩ := List.mem_filter.1 ho₁
  obtain ⟨hmem', hconn'⟩ := List.mem_filter.1 ho₂
  have hnodup : (h.handOvers.map HandOver.message).Nodup :=
    (ho.ascending.sublist (by simp [line])).imp Nat.ne_of_lt
  obtain rfl := List.inj_on_of_nodup_map hnodup hmem hmem' hsame.symm
  simpa [of_decide_eq_true hconn] using of_decide_eq_true hconn'

/-- A message that joins the queue is in no account. -/
theorem account_submit (ho : h.Ordered queue outbox) (b : Builder) (r : Recording σ) :
    (h.submit b (.ok ())).account r c = h.account r c := by
  have hpayload : ∀ m ∈ h.messagesTo c, (h.submit b (.ok ())).payload m = h.payload m := by
    intro m hm
    have hlt := ho.bounded m ((h.messagesTo_sublist c).mem hm)
    simp [payload, message, History.submit, List.getElem?_append_left hlt]
  have hframes : (h.submit b (.ok ())).framesTo c = h.framesTo c := List.map_congr_left hpayload
  have hoffers : (h.submit b (.ok ())).offersTo c = h.offersTo c := rfl
  rw [account, hframes, hoffers, account]

end History.Ordered

theorem Transition.delivering {y y' : System (Recording σ)} (hy : y.Sound)
    (ho : y.stage ≠ .died → y.history.Ordered y.link.queue y.link.outbox)
    (h : Transition net.recorded y y')
    (hd : y.stage ≠ .died → ∀ t, y.link.carrier = .streams t →
      Delivering y.history y.link.world t [])
    (hlive : y'.stage ≠ .died) {t : Streams} (ht : y'.link.carrier = .streams t) :
    Delivering y'.history y'.link.world t [] := by
  cases h with
  | passed hl _ => exact hd (Stage.ne_died hl) t ht
  | aside hcalls => exact (hd hlive t ht).extend (Recording.extends_of_quiets hcalls)
  | submitted _ _ _ _ hcall =>
    exact ((hd hlive t ht).congr fun c => (ho hlive).account_submit _ _).extend
      (Recording.extends_of_quiet hcall)
  | refused => exact (hd hlive t ht).congr fun c => rfl
  | took hl _ => exact (hd (Stage.ne_died hl) t ht).congr fun c => rfl
  | worked hl _ halive hcarrier hcarrier' hmoves =>
    obtain rfl := Carrier.streams.inj (hcarrier'.symm.trans ht)
    have hbefore := hd (Stage.ne_died hl) _ hcarrier
    exact hbefore.moves hmoves halive (hy.streams hl _ hcarrier) (ho (Stage.ne_died hl))
  | sent hl _ halive hcarrier hsends =>
    exact absurd ht (hsends.carrier_ne halive hcarrier t)
  | heard n hl _ hcarrier =>
    have hnone := hcarrier.symm.trans ht
    simp at hnone
  | left hl =>
    obtain ⟨pool, hleave⟩ := y.link.leave_eq net.recorded
    rw [hleave] at ht ⊢
    have hclosed : y.link.world.Extends (net.recorded.closeAll y.link.world) :=
      Recording.extends_of_quiet .closeAll
    exact ((hd (Stage.ne_died hl) t ht).extend hclosed).congr fun c => rfl
  | died => exact absurd rfl hlive

namespace Reachable

variable {w₀ : σ} {y : System (Recording σ)}

theorem delivering_of_fresh {s : LinkState (Recording σ)} (h : s.Fresh net.recorded (.fresh w₀))
    {t : Streams} (ht : s.carrier = .streams t) : Delivering {} s.world t [] := by
  have hempty {r : Recording σ} (hr : (Recording.fresh w₀).Extends r) (c : Conn) :
      ({} : History).account r c = {} := History.account_extends {} hr
  cases h with
  | datagrams => simp at ht
  | closed hcalls =>
    obtain rfl := Carrier.streams.inj ht
    have haccounts := hempty (Recording.extends_of_quiets hcalls)
    refine ⟨by simp [Streams.conns], by simp [Streams.conns], fun c _ => haccounts c, fun c => ?_,
      by simp, by simp⟩
    exact haccounts c ▸ Account.balanced_empty
  | @opening w₁ w₂ w config near remote conn hbefore hconnect hafter =>
    obtain rfl := Carrier.streams.inj ht
    obtain ⟨hconn, hlength, -⟩ := Recording.give_eq_ok hconnect
    have hlater := Recording.extends_of_quiets hafter
    have haccounts := hempty (((Recording.extends_of_quiets hbefore).trans
      (Recording.extends_of_give hconnect)).trans hlater)
    have hknown : conn < w.names.length := by
      subst hconn
      exact Nat.lt_of_lt_of_le (hlength ▸ Nat.lt_succ_self _) hlater.names_le
    refine ⟨by simp [Streams.conns], by simpa [Streams.conns] using hknown, fun c _ => haccounts c,
      fun c => ?_, by simp, by simp⟩
    exact haccounts c ▸ Account.balanced_empty

/-- In each reachable system the accounts of all streams are in order. -/
theorem delivering (h : Reachable net.recorded (.fresh w₀) y) (hdied : y.stage ≠ .died)
    {t : Streams} (ht : y.link.carrier = .streams t) : Delivering y.history y.link.world t [] := by
  refine induction
    (P := fun y => y.stage ≠ .died → ∀ t, y.link.carrier = .streams t →
      Delivering y.history y.link.world t []) ?_ ?_ h hdied t ht
  · intro s hfresh _ t ht
    exact delivering_of_fresh hfresh ht
  · intro y y' hy hd hstep hlive t ht
    exact hstep.delivering hy.sound hy.ordered hd hlive ht

/-- What a stream took are the first bytes of the frames of its messages. These messages are some
of those that the queue took, in the order in which it took them, and no other stream gets them.
Whoever reads the bytes, in whatever pieces, gets exactly the complete frames, and each message has
the fields that its builder took. -/
theorem delivered_in_order (h : Reachable net.recorded (.fresh w₀) y) (hdied : y.stage ≠ .died)
    {t : Streams} (ht : y.link.carrier = .streams t) (c : Conn) :
    y.link.world.taken c <+: Frame.stream (y.history.framesTo c) ∧
    (y.history.messagesTo c).Pairwise (· < ·) ∧
    (∀ m ∈ y.history.messagesTo c, m < y.history.accepted.length) ∧
    ((y.history.messagesTo c).map y.history.message).Sublist y.history.accepted ∧
    (∀ c', c' ≠ c → ∀ m ∈ y.history.messagesTo c, m ∉ y.history.messagesTo c') ∧
    (∀ pieces : List Bytes, pieces.flatMap Array.toList = y.link.world.taken c →
      Frame.Decoder.feedAll {} pieces =
        (((y.history.framesTo c).take
          (Frame.completed (y.history.framesTo c) (y.link.world.taken c).length)).map List.toArray,
          none, ⟨(Frame.remainder (y.history.framesTo c) (y.link.world.taken c)).toArray⟩)) ∧
    ∀ m ∈ y.history.messagesTo c, ∀ fields, (y.history.message m).Built fields →
      decodeFields (y.history.payload m) = .ok (⟨.jointState, fields.length⟩, fields) := by
  have ho := h.ordered hdied
  have hbalanced := (h.delivering hdied ht).balanced c
  have hsublist := y.history.messagesTo_sublist c
  have hascending := ho.ascending.sublist hsublist
  have hbounded : ∀ m ∈ y.history.messagesTo c, m < y.history.accepted.length :=
    fun m hm => ho.bounded m (hsublist.mem hm)
  refine ⟨hbalanced.taken, hascending, hbounded,
    History.Ordered.map_message_sublist hascending hbounded, ?_, ?_, ?_⟩
  · intro c' hne m hm hm'
    exact hne (ho.stream_unique hm' hm)
  · intro pieces hpieces
    rw [← hpieces]
    exact Frame.Decoder.feedAll_of_isPrefix hbalanced.short (hpieces ▸ hbalanced.taken)
  · intro m hm fields hbuilt
    have hfinished : (y.history.message m).finished = true :=
      ho.finished _ (History.message_mem (hbounded m hm))
    simpa [History.payload] using hbuilt.decodeFields_eq hfinished []

/-- Of two messages a stream takes the first and two bytes of the second, in two writes. -/
theorem delivered_in_order_of_run :
    ∃ y : System (Recording (List (Reply Nat))),
      Reachable Net.scripted.recorded (.fresh [.ok 5, .fail .interrupted, .ok 9]) y ∧
      y.stage ≠ .died ∧ (∃ t, y.link.carrier = .streams t) ∧ y.history.messagesTo 0 = [0, 1] ∧
      Frame.Decoder.feedAll {} [(y.link.world.taken 0).toArray] =
        ([Builder.bare.buffer], none, ⟨#[8, 0]⟩) ∧
      decodeFields (y.history.payload 1) = .ok (⟨.jointState, 0⟩, []) := by
  obtain ⟨y, hreach, hy⟩ := exists_of_run Net.scripted.recorded
    (.fresh [.ok 5, .fail .interrupted, .ok 9]) "tcp://127.0.0.1:0" "tcp://10.9.8.7:30010" {}
    (Action.firstRound ++ List.replicate 2 (.submit .bare) ++ List.replicate 3 .proceed)
    (fun y => y.stage != .died && y.link.carrier != .datagrams &&
      y.history.messagesTo 0 == [0, 1] && y.history.accepted == [.bare, .bare] &&
      y.link.world.taken 0 == [8, 0, 0, 0, 74, 83, 1, 1, 0, 0, 0, 0, 8, 0]) (by cbv)
  simp only [Bool.and_eq_true, beq_iff_eq, bne_iff_ne] at hy
  obtain ⟨⟨⟨⟨hdied, hcarrier⟩, hmessages⟩, haccepted⟩, htaken⟩ := hy
  obtain ⟨t, ht⟩ := Carrier.exists_streams hcarrier
  have hbuilt : Builder.bare.Built [] := .finish .empty rfl
  have hmessage : y.history.message 1 = Builder.bare := by simp [History.message, haccepted]
  obtain ⟨-, -, -, -, -, hread, hfields⟩ := hreach.delivered_in_order hdied ht 0
  refine ⟨y, hreach, hdied, ⟨t, ht⟩, hmessages, ?_, ?_⟩
  · rw [hread _ (by simp), htaken]
    have hframes : y.history.framesTo 0 =
        [Builder.bare.buffer.toList, Builder.bare.buffer.toList] := by
      simp [History.framesTo, History.payload, History.message, hmessages, haccepted]
    rw [hframes]
    cbv
  · exact hfields 1 (by simp [hmessages]) [] (hmessage ▸ hbuilt)

end Reachable

end ArmStream
