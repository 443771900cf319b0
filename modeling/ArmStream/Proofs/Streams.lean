import Mathlib.Tactic.Tauto
import ArmStream.Link.HandOn

/-!
# The peers of a link

The peers stand in ascending order of their tokens. The stream to the remote side has the smallest
token, each accepted stream a larger one than all before it. So a new peer is put at one of the
two ends and never takes the place of another.

## Main definitions

- `Streams.tokens`: the tokens of the peers.
- `Streams.Sound`: the order of the tokens, and where the stream to the remote side is.

## Main statements

- `Streams.insertPeer_of_split`, `Streams.insertPeer_nextToken`, `Streams.insertPeer_outbound`:
  where a peer is put.
- `Streams.Sound.replace`, `Streams.Sound.erase`, `Streams.Sound.welcome`,
  `Streams.Sound.connect`: what keeps the order.
-/

namespace ArmStream

theorem Token.outbound_lt_firstInbound : Token.outbound < Token.firstInbound := by decide

namespace Streams

def tokens (t : Streams) : List Token := t.peers.map Prod.fst

/-- Peers are in order, and the stream to the remote side is in exactly one place. -/
structure Sound (t : Streams) : Prop where
  ascending : t.tokens.Pairwise (· < ·)
  bounded : ∀ k ∈ t.tokens, k = Token.outbound ∨ Token.firstInbound ≤ k ∧ k < t.nextToken
  first_le : Token.firstInbound ≤ t.nextToken
  /-- The stream to the remote side is being opened, is to be opened later, or is a peer. -/
  outbound :
    t.connecting.isSome ∧ t.reopenAt = none ∧ Token.outbound ∉ t.tokens ∨
    t.connecting = none ∧ t.reopenAt.isSome ∧ Token.outbound ∉ t.tokens ∨
    t.connecting = none ∧ t.reopenAt = none ∧ Token.outbound ∈ t.tokens
  served : ∀ k, t.lastServed = some k → k ∈ t.tokens

/-! ## Finding and placing peers -/

theorem exists_split_of_peer? {t : Streams} {k : Token} {p : Peer} (h : t.peer? k = some p) :
    ∃ pre post, t.peers = pre ++ (k, p) :: post := by
  obtain ⟨pre, post, hpeers, -⟩ := List.lookup_eq_some_iff.1 h
  exact ⟨pre, post, hpeers⟩

theorem exists_peer?_of_mem {t : Streams} {k : Token} (h : k ∈ t.tokens) :
    ∃ p, t.peer? k = some p := by
  obtain ⟨q, hq, rfl⟩ := List.mem_map.1 h
  cases hp : t.peer? q.1 with
  | some p => exact ⟨p, rfl⟩
  | none => simpa using List.lookup_eq_none_iff.1 hp q hq

theorem mem_tokens_erasePeer {t : Streams} {j k : Token} (hj : j ∈ t.tokens) (hne : j ≠ k) :
    j ∈ (t.erasePeer k).tokens := by
  obtain ⟨q, hq, rfl⟩ := List.mem_map.1 hj
  exact List.mem_map_of_mem (List.mem_filter.2 ⟨hq, by simpa using hne⟩)

theorem exists_split_of_turn? {t : Streams} {len limit : Nat} {k : Token} {p : Peer}
    (h : t.turn? len limit = some (k, p)) : ∃ pre post, t.peers = pre ++ (k, p) :: post := by
  apply List.append_of_mem
  have hmem := List.mem_of_find?_eq_some h
  rcases List.mem_append.1 hmem with hafter | hall
  · cases hlast : t.lastServed with
    | none => simp [hlast] at hafter
    | some last =>
      simp only [hlast, List.mem_filter] at hafter
      exact hafter.1
  · exact hall

theorem insertPeer_of_forall_lt {k : Token} {peers : List (Token × Peer)} (p : Peer)
    (h : ∀ q ∈ peers, q.1 < k) : insertPeer k p peers = peers ++ [(k, p)] := by
  induction peers with
  | nil => rfl
  | cons q rest ih =>
    have hq : q.1 < k := h q (by simp)
    have hrest := ih fun r hr => h r (List.mem_cons_of_mem q hr)
    simp [insertPeer, Nat.lt_asymm hq, Nat.ne_of_gt hq, hrest]

theorem insertPeer_of_forall_gt {k : Token} {peers : List (Token × Peer)} (p : Peer)
    (h : ∀ q ∈ peers, k < q.1) : insertPeer k p peers = (k, p) :: peers := by
  cases peers with
  | nil => rfl
  | cons q rest => simp [insertPeer, h q (by simp)]

theorem insertPeer_of_mem {k : Token} {pre post : List (Token × Peer)} {q : Peer} (p : Peer)
    (h : ∀ r ∈ pre, r.1 < k) :
    insertPeer k p (pre ++ (k, q) :: post) = pre ++ (k, p) :: post := by
  induction pre with
  | nil => simp [insertPeer]
  | cons r rest ih =>
    have hr : r.1 < k := h r (by simp)
    have hrest := ih fun u hu => h u (List.mem_cons_of_mem r hu)
    simp [insertPeer, Nat.lt_asymm hr, Nat.ne_of_gt hr, hrest]

namespace Sound

variable {t : Streams} {k : Token} {p : Peer} {pre post : List (Token × Peer)}

theorem lt_of_split (ht : t.Sound) (h : t.peers = pre ++ (k, p) :: post) :
    (∀ r ∈ pre, r.1 < k) ∧ ∀ r ∈ post, k < r.1 := by
  have hasc := ht.ascending
  simp only [tokens, h, List.map_append, List.map_cons, List.pairwise_append,
    List.pairwise_cons] at hasc
  obtain ⟨-, ⟨hpost, -⟩, hpre⟩ := hasc
  constructor
  · intro r hr
    exact hpre r.1 (List.mem_map_of_mem hr) k (by simp)
  · intro r hr
    exact hpost r.1 (List.mem_map_of_mem hr)

/-- The other peers have other tokens. -/
theorem ne_of_split (ht : t.Sound) (h : t.peers = pre ++ (k, p) :: post) :
    ∀ r ∈ pre ++ post, r.1 ≠ k := by
  obtain ⟨hpre, hpost⟩ := ht.lt_of_split h
  intro r hr
  rcases List.mem_append.1 hr with hr | hr
  · exact Nat.ne_of_lt (hpre r hr)
  · exact Nat.ne_of_gt (hpost r hr)

end Sound

theorem peer?_of_split {t : Streams} {k : Token} {p : Peer} {pre post : List (Token × Peer)}
    (ht : t.Sound) (h : t.peers = pre ++ (k, p) :: post) : t.peer? k = some p := by
  refine List.lookup_eq_some_iff.2 ⟨pre, post, h, fun q hq => ?_⟩
  simpa using Nat.ne_of_gt ((ht.lt_of_split h).1 q hq)

theorem insertPeer_of_split {t : Streams} {k : Token} {p : Peer}
    {pre post : List (Token × Peer)} (ht : t.Sound) (h : t.peers = pre ++ (k, p) :: post)
    (p' : Peer) : insertPeer k p' t.peers = pre ++ (k, p') :: post := by
  rw [h, insertPeer_of_mem p' (ht.lt_of_split h).1]

theorem insertPeer_nextToken {t : Streams} (ht : t.Sound) (p : Peer) :
    insertPeer t.nextToken p t.peers = t.peers ++ [(t.nextToken, p)] := by
  apply insertPeer_of_forall_lt
  intro q hq
  rcases ht.bounded q.1 (List.mem_map_of_mem hq) with h | h
  · exact h ▸ Nat.lt_of_lt_of_le Token.outbound_lt_firstInbound ht.first_le
  · exact h.2

theorem insertPeer_outbound {t : Streams} (ht : t.Sound) (h : Token.outbound ∉ t.tokens)
    (p : Peer) : insertPeer Token.outbound p t.peers = (Token.outbound, p) :: t.peers := by
  apply insertPeer_of_forall_gt
  intro q hq
  have hmem : q.1 ∈ t.tokens := List.mem_map_of_mem hq
  rcases ht.bounded q.1 hmem with heq | hle
  · exact absurd (heq ▸ hmem) h
  · exact Nat.lt_of_lt_of_le Token.outbound_lt_firstInbound hle.1

theorem erasePeer_of_split {t : Streams} {k : Token} {p : Peer} {pre post : List (Token × Peer)}
    (ht : t.Sound) (h : t.peers = pre ++ (k, p) :: post) :
    t.erasePeer k = { t with peers := pre ++ post } := by
  have hkeep : (pre ++ post).filter (fun r => r.1 != k) = pre ++ post :=
    List.filter_eq_self.2 fun r hr => by simpa using ht.ne_of_split h r hr
  simpa [erasePeer, h] using hkeep

/-! ## What keeps the peers in order -/

namespace Sound

variable {t : Streams} {k : Token} {p : Peer} {pre post : List (Token × Peer)}

/-- There is no stream to the remote side yet. -/
theorem closed (remote : SocketAddress) (due : Nat) :
    Sound { remote := remote, reopenAt := some due } where
  ascending := .nil
  bounded := by simp [tokens]
  first_le := Nat.le_refl _
  outbound := .inr (.inl (by simp [tokens]))
  served := by simp

/-- The stream to the remote side is being opened. -/
theorem opening (remote : SocketAddress) (conn : Conn) :
    Sound { remote := remote, connecting := some conn } where
  ascending := .nil
  bounded := by simp [tokens]
  first_le := Nat.le_refl _
  outbound := .inl (by simp [tokens])
  served := by simp

/-- A peer's buffer changes. -/
theorem replace (ht : t.Sound) (h : t.peers = pre ++ (k, p) :: post) (p' : Peer) :
    Sound { t with peers := pre ++ (k, p') :: post } := by
  have htokens : ({ t with peers := pre ++ (k, p') :: post } : Streams).tokens = t.tokens := by
    simp [tokens, h]
  exact ⟨htokens ▸ ht.ascending, htokens ▸ ht.bounded, ht.first_le, htokens ▸ ht.outbound,
    htokens ▸ ht.served⟩

/-- A peer got the last message. -/
theorem serve (ht : t.Sound) (h : k ∈ t.tokens) : Sound { t with lastServed := some k } :=
  ⟨ht.ascending, ht.bounded, ht.first_le, ht.outbound, fun _ hk => Option.some.inj hk ▸ h⟩

/-- A peer leaves. -/
theorem erase (ht : t.Sound) (h : t.peers = pre ++ (k, p) :: post) (due : Nat) :
    Sound { t with
      peers := pre ++ post
      reopenAt := if k = Token.outbound then some due else t.reopenAt
      lastServed := if t.lastServed = some k then none else t.lastServed } := by
  have hmem (j : Token) : j ∈ t.tokens ↔ j ∈ (pre ++ post).map Prod.fst ∨ j = k := by
    simp only [tokens, h, List.map_append, List.map_cons, List.mem_append, List.mem_cons]
    tauto
  have hk : k ∉ (pre ++ post).map Prod.fst := by
    simp only [List.mem_map, not_exists, not_and]
    exact ht.ne_of_split h
  constructor
  · have hsub : ((pre ++ post).map Prod.fst).Sublist t.tokens := by
      simp [tokens, h]
    exact ht.ascending.sublist hsub
  · intro j hj
    exact ht.bounded j ((hmem j).2 (.inl hj))
  · exact ht.first_le
  · have hout := ht.outbound
    have hout' := hmem Token.outbound
    change _ ∧ _ ∧ Token.outbound ∉ (pre ++ post).map Prod.fst ∨
      _ ∧ _ ∧ Token.outbound ∉ (pre ++ post).map Prod.fst ∨
      _ ∧ _ ∧ Token.outbound ∈ (pre ++ post).map Prod.fst
    by_cases hko : k = Token.outbound
    · subst hko
      grind
    · grind
  · intro j hj
    change j ∈ (pre ++ post).map Prod.fst
    by_cases hlast : t.lastServed = some k
    · simp [hlast] at hj
    · have hserved := ht.served j (by simpa [hlast] using hj)
      grind

/-- An accepted stream takes the next token. -/
theorem welcome (ht : t.Sound) (p : Peer) :
    Sound { t with nextToken := t.nextToken + 1, peers := t.peers ++ [(t.nextToken, p)] } := by
  have hfirst := ht.first_le
  have hnext : Token.outbound < t.nextToken :=
    Nat.lt_of_lt_of_le Token.outbound_lt_firstInbound hfirst
  have hbelow : ∀ k ∈ t.tokens, k < t.nextToken := by
    intro k hk
    rcases ht.bounded k hk with rfl | h
    · exact hnext
    · exact h.2
  have htokens : ({ t with
      nextToken := t.nextToken + 1, peers := t.peers ++ [(t.nextToken, p)] } : Streams).tokens =
      t.tokens ++ [t.nextToken] := by
    simp [tokens]
  constructor
  · rw [htokens]
    exact List.pairwise_append.2 ⟨ht.ascending, List.pairwise_singleton _ _, by simpa using hbelow⟩
  · intro k hk
    rw [htokens, List.mem_append, List.mem_singleton] at hk
    rcases hk with hk | rfl
    · rcases ht.bounded k hk with h | h
      · exact .inl h
      · exact .inr ⟨h.1, Nat.lt_succ_of_lt h.2⟩
    · exact .inr ⟨hfirst, Nat.lt_succ_self _⟩
  · exact Nat.le_succ_of_le hfirst
  · have hout := ht.outbound
    have hne := Nat.ne_of_lt hnext
    rw [htokens]
    grind
  · intro k hk
    rw [htokens]
    exact List.mem_append_left _ (ht.served k hk)

/-- A stream that cannot be watched uses a token up. -/
theorem turnAway (ht : t.Sound) : Sound { t with nextToken := t.nextToken + 1 } where
  ascending := ht.ascending
  bounded k hk := (ht.bounded k hk).imp id fun h => ⟨h.1, Nat.lt_succ_of_lt h.2⟩
  first_le := Nat.le_succ_of_le ht.first_le
  outbound := ht.outbound
  served := ht.served

theorem not_mem_of_connecting (ht : t.Sound) {conn : Conn} (h : t.connecting = some conn) :
    t.reopenAt = none ∧ Token.outbound ∉ t.tokens := by
  have hout := ht.outbound
  grind

theorem not_mem_of_reopenAt (ht : t.Sound) {due : Nat} (h : t.reopenAt = some due) :
    t.connecting = none ∧ Token.outbound ∉ t.tokens := by
  have hout := ht.outbound
  grind

/-- The stream to the remote side is connected. -/
theorem connect (ht : t.Sound) {conn : Conn} (h : t.connecting = some conn) (p : Peer) :
    Sound { t with connecting := none, peers := (Token.outbound, p) :: t.peers } := by
  obtain ⟨hreopen, hout⟩ := ht.not_mem_of_connecting h
  have htokens : ({ t with
      connecting := none, peers := (Token.outbound, p) :: t.peers } : Streams).tokens =
      Token.outbound :: t.tokens := by
    simp [tokens]
  constructor
  · rw [htokens]
    refine List.pairwise_cons.2 ⟨fun k hk => ?_, ht.ascending⟩
    rcases ht.bounded k hk with rfl | h
    · exact absurd hk hout
    · exact Nat.lt_of_lt_of_le Token.outbound_lt_firstInbound h.1
  · intro k hk
    rw [htokens, List.mem_cons] at hk
    rcases hk with rfl | hk
    · exact .inl rfl
    · exact ht.bounded k hk
  · exact ht.first_le
  · rw [htokens]
    exact .inr (.inr ⟨rfl, hreopen, by simp⟩)
  · intro k hk
    rw [htokens]
    exact List.mem_cons_of_mem _ (ht.served k hk)

/-- The opening of the stream to the remote side failed. -/
theorem refuse (ht : t.Sound) {conn : Conn} (h : t.connecting = some conn) (due : Nat) :
    Sound { t with connecting := none, reopenAt := some due } :=
  ⟨ht.ascending, ht.bounded, ht.first_le,
    .inr (.inl ⟨rfl, rfl, (ht.not_mem_of_connecting h).2⟩), ht.served⟩

/-- The stream to the remote side is being opened again. -/
theorem reopen (ht : t.Sound) {due : Nat} (h : t.reopenAt = some due) (conn : Conn) :
    Sound { t with reopenAt := none, connecting := some conn } :=
  ⟨ht.ascending, ht.bounded, ht.first_le,
    .inl ⟨rfl, rfl, (ht.not_mem_of_reopenAt h).2⟩, ht.served⟩

/-- It is to be opened again at another time. -/
theorem postpone (ht : t.Sound) {due : Nat} (h : t.reopenAt = some due) (due' : Nat) :
    Sound { t with reopenAt := some due' } :=
  ⟨ht.ascending, ht.bounded, ht.first_le,
    .inr (.inl ⟨(ht.not_mem_of_reopenAt h).1, rfl, (ht.not_mem_of_reopenAt h).2⟩), ht.served⟩

end Sound

end Streams

end ArmStream
