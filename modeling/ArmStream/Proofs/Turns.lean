import ArmStream.Proofs.Building
import ArmStream.Proofs.Leftovers
import ArmStream.Proofs.Arrivals
import ArmStream.Proofs.Waiting

/-!
# Turns

A message goes to the first peer with room behind the one that got the last message. So the peers
have turns, and whose turn it is depends on who had the last one. The loop remembers that as one
token. It forgets it when the peer under that token leaves, and then starts from the smallest token
again.

A rota lists the turns of a run and the peers that left, in this order. Who had the last turn can be
read off it.

## Main definitions

- `Token.Precedes`: the order of turns.
- `Turn`, `LinkState.turns`: a turn, and the turns when messages are handed over.
- `RotaEntry`, `System.rota`: what happens in a run to the turns.
- `Follows`: each turn in a rota goes to the peer whose turn it is.

## Main statements

- `Streams.turn?_eq_some_iff`: whose turn it is.
- `System.follows_step`: what an action does to the turns.
- `Reachable.follows_rota`: whose turn it is in each run.
- `Reachable.handOvers_run`: the messages that leave the outbox are those of the turns.
-/

namespace ArmStream

variable {σ : Type} {net : Net σ}

/-! ## Whose turn it is -/

/-- In the order of turns `j` comes before `k`. The order goes from behind the token that had the
last turn upwards, and then from the smallest token to that one. -/
def Token.Precedes (last : Option Token) (j k : Token) : Prop :=
  match last with
  | none => j < k
  | some l => l < j ∧ (j < k ∨ k ≤ l) ∨ j < k ∧ k ≤ l

theorem Token.Precedes.asymm {last : Option Token} {j k : Token} (h : Precedes last j k) :
    ¬ Precedes last k j := by
  cases last <;> grind [Precedes]

theorem find?_eq_some_iff_of_pairwise {α : Type} {R : α → α → Prop} {p : α → Bool} {l : List α}
    {a : α} (hasymm : ∀ b c, R b c → ¬ R c b) (hl : l.Pairwise R) :
    l.find? p = some a ↔ a ∈ l ∧ p a ∧ ∀ b ∈ l, p b → b = a ∨ R a b := by
  have hfirst {c : α} (hc : l.find? p = some c) : ∀ b ∈ l, p b → b = c ∨ R c b := by
    obtain ⟨-, before, behind, rfl, hnot⟩ := List.find?_eq_some_iff_append.1 hc
    intro b hb hpb
    rcases List.mem_append.1 hb with hb | hb
    · exact absurd hpb (by simpa using hnot b hb)
    · rcases List.mem_cons.1 hb with rfl | hb
      · exact .inl rfl
      · exact .inr (List.rel_of_pairwise_cons (List.pairwise_append.1 hl).2.1 hb)
  constructor
  · intro h
    exact ⟨List.mem_of_find?_eq_some h, List.find?_some h, hfirst h⟩
  · rintro ⟨hmem, hpa, hall⟩
    obtain ⟨c, hc⟩ := Option.isSome_iff_exists.1 (List.find?_isSome.2 ⟨a, hmem, hpa⟩)
    rcases hfirst hc a hmem hpa with rfl | hca
    · exact hc
    · rcases hall c (List.mem_of_find?_eq_some hc) (List.find?_some hc) with rfl | hac
      · exact hc
      · exact absurd hac (hasymm c a hca)

/-- What stands in a list twice is found at its first place. -/
theorem find?_filter_append {α : Type} (p q : α → Bool) (l : List α) :
    (l.filter q ++ l).find? p = (l.filter q ++ l.filter fun a => !q a).find? p := by
  rw [List.find?_append, List.find?_append]
  cases hfound : (l.filter q).find? p with
  | some a => rfl
  | none =>
    have hnone : ∀ a ∈ l, q a → ¬ p a := by simpa [List.find?_eq_none] using hfound
    rw [Option.none_or, Option.none_or, List.find?_filter]
    refine List.find?_congr fun a ha => ?_
    cases hq : q a <;> simp_all

namespace Streams

variable {t : Streams} {len limit : Nat} {k : Token} {p : Peer}

/-- The turn goes to the first peer with room in the order of turns. -/
theorem turn?_eq_some_iff (ht : t.tokens.Pairwise (· < ·)) :
    t.turn? len limit = some (k, p) ↔
      (k, p) ∈ t.peers ∧ p.fits len limit ∧ ∀ q ∈ t.peers, q.2.fits len limit →
        q = (k, p) ∨ Token.Precedes t.lastServed k q.1 := by
  have hpeers : t.peers.Pairwise fun q r => q.1 < r.1 := List.pairwise_map.1 ht
  unfold turn?
  cases hlast : t.lastServed with
  | none =>
    dsimp only
    rw [List.nil_append]
    exact find?_eq_some_iff_of_pairwise (fun _ _ => Nat.lt_asymm) hpeers
  | some last =>
    have horder : (t.peers.filter (fun q => decide (last < q.1)) ++
        t.peers.filter (fun q => !decide (last < q.1))).Pairwise
          fun q r => Token.Precedes (some last) q.1 r.1 := by
      refine List.pairwise_append.2 ⟨?_, ?_, ?_⟩
      · refine (hpeers.filter _).imp_of_mem fun hq hr hlt => ?_
        simp only [List.mem_filter, decide_eq_true_eq] at hq
        exact .inl ⟨hq.2, .inl hlt⟩
      · refine (hpeers.filter _).imp_of_mem fun hq hr hlt => ?_
        simp only [List.mem_filter, Bool.not_eq_true', decide_eq_false_iff_not] at hr
        exact .inr ⟨hlt, Nat.le_of_not_lt hr.2⟩
      · intro q hq r hr
        simp only [List.mem_filter, decide_eq_true_eq, Bool.not_eq_true', decide_eq_false_iff_not]
          at hq hr
        exact .inl ⟨hq.2, .inr (Nat.le_of_not_lt hr.2)⟩
    have hmem (q : Token × Peer) : q ∈ t.peers.filter (fun q => decide (last < q.1)) ++
        t.peers.filter (fun q => !decide (last < q.1)) ↔ q ∈ t.peers := by
      simp only [List.mem_append, List.mem_filter]
      cases decide (last < q.1) <;> simp
    dsimp only
    rw [find?_filter_append, find?_eq_some_iff_of_pairwise (fun _ _ => Token.Precedes.asymm) horder]
    simp only [hmem]

end Streams

/-! ## Turns and rotas -/

/-- A turn: the oldest message goes to a peer. -/
structure Turn where
  /-- The streams before the message is handed over. -/
  streams : Streams
  message : Builder
  limit : Nat
  token : Token
  recipient : Recipient
  deriving DecidableEq, Repr, Inhabited

inductive RotaEntry where
  | turn (x : Turn)
  /-- The peer under a token left. -/
  | left (token : Token)
  deriving DecidableEq, Repr, Inhabited

namespace RotaEntry

def turn? : RotaEntry → Option Turn
  | .turn x => some x
  | .left _ => none

theorem turn?_eq_some_iff {e : RotaEntry} {x : Turn} : e.turn? = some x ↔ e = .turn x := by
  cases e <;> simp [turn?]

/-- Who had the last turn, if somebody is known to. -/
def after (last : Option Token) : RotaEntry → Option Token
  | .turn x => some x.token
  | .left k => if last = some k then none else last

end RotaEntry

def lastAfter (last : Option Token) (rota : List RotaEntry) : Option Token :=
  rota.foldl RotaEntry.after last

def turnsOf (rota : List RotaEntry) : List Turn := rota.filterMap RotaEntry.turn?

/-- The turn goes to the peer whose turn it is after `last`. The peer gets the message, unless that
is too long for a frame. -/
structure Turn.Due (x : Turn) (last : Option Token) : Prop where
  lastServed : x.streams.lastServed = last
  ascending : x.streams.tokens.Pairwise (· < ·)
  chosen : ∃ p, x.streams.turn? x.message.size x.limit = some (x.token, p) ∧
    x.recipient =
      if x.message.size ≤ Frame.maxLength then .peer x.token p.conn else .nobody

def Follows (last : Option Token) : List RotaEntry → Prop
  | [] => True
  | .turn x :: rest => x.Due last ∧ Follows (some x.token) rest
  | .left k :: rest => Follows (if last = some k then none else last) rest

@[simp] theorem lastAfter_nil (last : Option Token) : lastAfter last [] = last := rfl

@[simp] theorem lastAfter_turn (last : Option Token) (x : Turn) (rest : List RotaEntry) :
    lastAfter last (.turn x :: rest) = lastAfter (some x.token) rest := rfl

@[simp] theorem lastAfter_append (last : Option Token) (rota rota' : List RotaEntry) :
    lastAfter last (rota ++ rota') = lastAfter (lastAfter last rota) rota' :=
  List.foldl_append

theorem lastAfter_left (last : Option Token) (ks : List Token) :
    lastAfter last (ks.map .left) = last.filter (· ∉ ks) := by
  induction ks generalizing last with
  | nil => cases last <;> rfl
  | cons k ks ih =>
    have hcons : lastAfter last ((k :: ks).map .left) =
        lastAfter (if last = some k then none else last) (ks.map .left) := rfl
    rw [hcons, ih]
    cases last with
    | none => simp
    | some l => by_cases hl : l = k <;> simp [Option.filter, hl]

theorem follows_append {last : Option Token} {rota rota' : List RotaEntry} :
    Follows last (rota ++ rota') ↔ Follows last rota ∧ Follows (lastAfter last rota) rota' := by
  induction rota generalizing last with
  | nil => simp [Follows]
  | cons e rest ih =>
    cases e with
    | turn x => simpa [Follows, and_assoc] using fun _ => ih
    | left k => exact ih

/-- Leaving does nothing else. -/
theorem follows_of_no_turn {last : Option Token} {rota : List RotaEntry} (h : turnsOf rota = []) :
    Follows last rota := by
  induction rota generalizing last with
  | nil => trivial
  | cons e rest ih =>
    cases e with
    | turn x => simp [turnsOf, RotaEntry.turn?] at h
    | left k => exact ih (by simpa [turnsOf, RotaEntry.turn?] using h)

theorem turnsOf_left (ks : List Token) : turnsOf (ks.map .left) = [] := by
  simp [turnsOf, RotaEntry.turn?]

theorem turnsOf_turn (xs : List Turn) : turnsOf (xs.map .turn) = xs := by
  simp [turnsOf, List.filterMap_map, Function.comp_def, RotaEntry.turn?]

@[simp] theorem turnsOf_append (rota rota' : List RotaEntry) :
    turnsOf (rota ++ rota') = turnsOf rota ++ turnsOf rota' :=
  List.filterMap_append

/-! ## Turns when messages are handed over -/

namespace LinkState

def nextTurn? (s : LinkState σ) (t : Streams) : Option Turn :=
  match s.outbox with
  | [] => none
  | b :: _ =>
    (t.turn? b.size s.config.maxPeerBufferBytes).map fun (token, _) =>
      ⟨t, b, s.config.maxPeerBufferBytes, token, s.recipient t⟩

def turns : (fuel : Nat) → LinkState σ → Streams → List Turn
  | 0, _, _ => []
  | fuel + 1, s, t =>
    match s.handOver? t with
    | none => []
    | some (s', t') => (s.nextTurn? t).toList ++ turns fuel s' t'

end LinkState

theorem Peer.isSome_push? (p : Peer) (payload : Bytes) :
    (p.push? payload).isSome = decide (payload.size ≤ Frame.maxLength) := by
  unfold push?
  split
  next h =>
    have hlong : ¬ payload.size ≤ Frame.maxLength := fun hsize => by
      have hsome : Frame.append? p.buffer payload = some _ :=
        Frame.append?_eq_some_iff.2 ⟨hsize, rfl⟩
      simp [h] at hsome
    simp [hlong]
  next buffer h =>
    simp [(Frame.append?_eq_some_iff.1 h).1]

namespace LinkState

variable {s s' : LinkState σ} {t t' : Streams}

theorem exists_nextTurn? (ht : t.Sound) (hfinished : ∀ b ∈ s.outbox, b.finished = true)
    (h : s.handOver? t = some (s', t')) :
    ∃ x b, s.nextTurn? t = some x ∧ x.Due t.lastServed ∧ x.recipient = s.recipient t ∧
      s.outbox = b :: s'.outbox ∧ t'.lastServed = some x.token ∧ t'.tokens = t.tokens ∧
      t'.Sound := by
  unfold handOver? at h
  split at h
  next => cases h
  next b rest houtbox =>
    split at h
    next => cases h
    next k p hturn =>
      obtain ⟨pre, post, hpeers⟩ := Streams.exists_split_of_turn? hturn
      have hserved : Streams.Sound { t with lastServed := some k } :=
        ht.serve (by simp [Streams.tokens, hpeers])
      have hbytes := Builder.bytes_of_finished (hfinished b (by simp [houtbox]))
      have hpush := p.isSome_push? b.buffer
      have hrecipient : s.recipient t =
          if b.size ≤ Frame.maxLength then .peer k p.conn else .nobody := by
        simp only [recipient, houtbox, hturn, hbytes, hpush, decide_eq_true_eq]
        rfl
      refine ⟨⟨t, b, s.config.maxPeerBufferBytes, k, s.recipient t⟩, b,
        by simp [nextTurn?, houtbox, hturn], ⟨rfl, ht.ascending, p, hturn, hrecipient⟩, rfl, ?_⟩
      simp only [hbytes] at h
      split at h <;> obtain ⟨rfl, rfl⟩ := by simpa using h
      next p' _ =>
        rw [Streams.setPeer, Streams.insertPeer_of_split hserved hpeers]
        exact ⟨by simp [houtbox], rfl, by simp [Streams.tokens, hpeers],
          hserved.replace hpeers p'⟩
      next => exact ⟨by simp [houtbox, countDropped], rfl, rfl, hserved⟩

/-- Messages are handed over in turn. -/
theorem follows_turns (fuel : Nat) (ht : t.Sound) (hfinished : ∀ b ∈ s.outbox, b.finished = true) :
    let rota := (s.turns fuel t).map RotaEntry.turn
    Follows t.lastServed rota ∧ (s.turns fuel t).map Turn.recipient = s.recipients fuel t ∧
      (s.handOverAll fuel t).2.lastServed = lastAfter t.lastServed rota ∧
      (s.handOverAll fuel t).2.tokens = t.tokens ∧ (s.handOverAll fuel t).2.Sound := by
  induction fuel generalizing s t with
  | zero => exact ⟨trivial, rfl, rfl, rfl, ht⟩
  | succ fuel ih =>
    unfold turns recipients handOverAll
    cases h : s.handOver? t with
    | none => exact ⟨trivial, rfl, rfl, rfl, ht⟩
    | some r =>
      obtain ⟨s', t'⟩ := r
      obtain ⟨x, b, hx, hdue, hrecipient, houtbox, hlast, htokens, ht'⟩ :=
        exists_nextTurn? ht hfinished h
      obtain ⟨hfollows, hrecipients, hend, hkept, hsound⟩ :=
        ih (s := s') ht' fun c hc => hfinished c (by simp [houtbox, hc])
      rw [hlast] at hfollows hend
      simp only [hx, Option.toList_some, List.singleton_append, List.map_cons]
      exact ⟨⟨hdue, hfollows⟩, by rw [hrecipient, hrecipients], hend, hkept.trans htokens, hsound⟩

end LinkState

/-! ## Peers come and leave -/

namespace Streams

/-- Peers may have come; who had the last turn is as before. -/
structure Grown (t t' : Streams) : Prop where
  tokens : t.tokens ⊆ t'.tokens
  lastServed : t'.lastServed = t.lastServed

/-- Peers may have left; who had the last turn is forgotten if it is one of them. -/
structure Thinned (t t' : Streams) : Prop where
  tokens : t'.tokens ⊆ t.tokens
  lastServed : t'.lastServed = t.lastServed.filter (· ∈ t'.tokens)

def Served (t : Streams) : Prop := ∀ k, t.lastServed = some k → k ∈ t.tokens

variable {t t' t'' : Streams}

theorem Grown.refl (t : Streams) : Grown t t := ⟨List.Subset.refl _, rfl⟩

/-- Only other fields of the streams change. -/
theorem Grown.same (hpeers : t'.peers = t.peers) (hlast : t'.lastServed = t.lastServed) :
    Grown t t' :=
  ⟨by simp [Streams.tokens, hpeers], hlast⟩

theorem Grown.trans (h : Grown t t') (h' : Grown t' t'') : Grown t t'' :=
  ⟨List.Subset.trans h.tokens h'.tokens, h'.lastServed.trans h.lastServed⟩

theorem Grown.served (h : Grown t t') (ht : t.Served) : t'.Served := fun k hk =>
  h.tokens (ht k (h.lastServed ▸ hk))

theorem Served.filter_eq (ht : t.Served) (hsub : t.tokens ⊆ t'.tokens) :
    t.lastServed.filter (· ∈ t'.tokens) = t.lastServed := by
  cases hlast : t.lastServed with
  | none => rfl
  | some k => simp [Option.filter, hsub (ht k hlast)]

theorem Served.thinned (ht : t.Served) : Thinned t t :=
  ⟨List.Subset.refl _, (ht.filter_eq (List.Subset.refl _)).symm⟩

theorem Thinned.served (h : Thinned t t') : t'.Served := by
  intro k hk
  rw [h.lastServed, Option.filter_eq_some_iff] at hk
  simpa using hk.2

theorem Thinned.trans (h : Thinned t t') (h' : Thinned t' t'') : Thinned t t'' where
  tokens := List.Subset.trans h'.tokens h.tokens
  lastServed := by
    rw [h'.lastServed, h.lastServed]
    cases t.lastServed with
    | none => rfl
    | some k =>
      by_cases hk : k ∈ t''.tokens
      · simp [Option.filter, hk, h'.tokens hk]
      · by_cases hk' : k ∈ t'.tokens <;> simp [Option.filter, hk, hk']

theorem insertPeer_subset (k : Token) (p : Peer) (peers : List (Token × Peer)) :
    peers.map Prod.fst ⊆ (insertPeer k p peers).map Prod.fst := by
  induction peers with
  | nil => simp
  | cons q rest ih =>
    unfold insertPeer
    grind

/-- A peer comes, or the buffer of one changes. -/
theorem Grown.setPeer (h : Grown t t') (k : Token) (p : Peer) : Grown t (t'.setPeer k p) :=
  h.trans ⟨insertPeer_subset k p t'.peers, rfl⟩

end Streams

namespace LinkState

open Streams

variable (net : Net σ) {s : LinkState σ} {t : Streams}

theorem thinned_part {k : Token} (ht : t.Served) (hlive : (s.part net t k).1.loopDied = false) :
    Thinned t (s.part net t k).2 := by
  unfold part at *
  split
  next => exact ht.thinned
  next p hp =>
    have htokens : (t.erasePeer k).tokens = t.tokens.filter (· != k) := by
      simp only [Streams.tokens, erasePeer, List.filter_map]
      rfl
    simp only [hp] at hlive
    split
    next w hcall => simp [hcall] at hlive
    next w _ hcall =>
      refine ⟨?_, ?_⟩
      · change (t.erasePeer k).tokens ⊆ t.tokens
        simp [htokens]
      · change (if t.lastServed = some k then none else t.lastServed) =
          t.lastServed.filter (· ∈ (t.erasePeer k).tokens)
        rw [htokens]
        cases hlast : t.lastServed with
        | none => rfl
        | some l =>
          have hl := ht l hlast
          by_cases hlk : l = k <;> simp [Option.filter, hlk, hl]

theorem thinned_partAll {tokens : List Token} (ht : t.Served)
    (hlive : (s.partAll net t tokens).1.loopDied = false) :
    Thinned t (s.partAll net t tokens).2 := by
  induction tokens generalizing s t with
  | nil => exact ht.thinned
  | cons k rest ih =>
    unfold partAll at hlive ⊢
    split
    next => exact ht.thinned
    next halive =>
      simp only [halive, Bool.false_eq_true, if_false] at hlive
      cases hfirst : (s.part net t k).1.loopDied with
      | true => cases rest <;> simp [partAll, hfirst] at hlive
      | false =>
        have hparted := thinned_part net ht hfirst
        exact hparted.trans (ih hparted.served hlive)

/-- Handing on thins out the peers that are there when messages are handed over. -/
theorem thinned_handOnStreams (ht : (s.handOverAll s.outbox.length t).2.Served)
    (hlive : (s.handOnStreams net t).loopDied = false) :
    ∃ t', (s.handOnStreams net t).carrier = .streams t' ∧
      Thinned (s.handOverAll s.outbox.length t).2 t' := by
  unfold handOnStreams at hlive ⊢
  generalize s.handOverAll s.outbox.length t = r at *
  obtain ⟨s₁, t₁⟩ := r
  have htokens : ({ t₁ with peers := (s₁.offerAll net t₁.peers).2.1 } : Streams).tokens =
      t₁.tokens := Moves.map_fst_offerAll net s₁ t₁.peers
  have hthinned := thinned_partAll net (fun k hk => htokens ▸ ht k hk) hlive
  exact ⟨_, rfl, htokens ▸ hthinned.tokens, hthinned.lastServed⟩

theorem grown_welcome (conn : Conn) : Grown t (s.welcome net t conn).2 := by
  unfold welcome
  dsimp only
  split
  next => exact .same rfl rfl
  next => exact .same rfl rfl
  next =>
    split
    next => exact .same rfl rfl
    next =>
      refine Grown.setPeer ?_ _ _
      exact .same rfl rfl

theorem grown_welcomeAll (fuel : Nat) : Grown t (s.welcomeAll net fuel t).2 := by
  induction fuel generalizing s t with
  | zero => exact .refl t
  | succ fuel ih =>
    unfold welcomeAll
    split
    next conn w _ =>
      have hfirst := grown_welcome net (s := { s with world := w }) (t := t) conn
      dsimp only
      split
      next => exact hfirst
      next => exact hfirst.trans ih
    next => exact ih
    next => exact .refl t
    next => exact .refl t

theorem grown_settleOutbound (e : Event) : Grown t (s.settleOutbound net t e).2 := by
  unfold settleOutbound
  split
  next conn _ =>
    split
    next =>
      unfold settleOpening
      split
      next => exact .refl t
      next => exact .refl t
      next =>
        dsimp only
        split
        next => exact .same rfl rfl
        next =>
          refine Grown.setPeer ?_ _ _
          exact .same rfl rfl
      next =>
        dsimp only
        split <;> exact .same rfl rfl
    next => exact .refl t
  next => exact .refl t

/-- Between turns some peers come and then some leave. -/
theorem exists_grown_servePeer (e : Event) (p : Peer) (ht : t.Served) :
    (s.servePeer net t e p).1.loopDied = false →
      ∃ t₁, Grown t t₁ ∧ Thinned t₁ (s.servePeer net t e p).2 := by
  have hsame : ∃ t₁, Grown t t₁ ∧ Thinned t₁ t := ⟨t, .refl t, ht.thinned⟩
  unfold servePeer
  dsimp only
  split
  next => exact fun _ => hsame
  next =>
    split
    next =>
      have hgrown := (Grown.refl t).setPeer e.token (p.flush net (s.hear net e p).1.world).peer
      have hserved := hgrown.served ht
      dsimp only
      split
      next => exact fun _ => ⟨_, hgrown, hserved.thinned⟩
      next => exact fun hlive => ⟨_, hgrown, thinned_part net hserved hlive⟩
    next =>
      dsimp only
      split
      next => exact fun _ => hsame
      next => exact fun hlive => ⟨t, .refl t, thinned_part net ht hlive⟩

theorem exists_grown_reactStream (e : Event) (ht : t.Served) :
    (s.reactStream net t e).1.loopDied = false →
      ∃ t₁, Grown t t₁ ∧ Thinned t₁ (s.reactStream net t e).2 := by
  have hgrown := grown_settleOutbound net (s := s) (t := t) e
  have hserved := hgrown.served ht
  unfold reactStream
  dsimp only
  split
  next => exact fun _ => ⟨_, hgrown, hserved.thinned⟩
  next =>
    split
    next => exact fun _ => ⟨_, hgrown, hserved.thinned⟩
    next p _ =>
      intro hlive
      obtain ⟨t₁, hthen, hthinned⟩ := exists_grown_servePeer net e p hserved hlive
      exact ⟨t₁, hgrown.trans hthen, hthinned⟩

theorem exists_grown_react (e : Event) (ht : t.Served) (hcarrier : s.carrier = .streams t) :
    (s.react net e).loopDied = false →
      ∃ t₁ t', Grown t t₁ ∧ Thinned t₁ t' ∧ (s.react net e).carrier = .streams t' := by
  unfold react
  simp only [hcarrier]
  split
  next => exact fun _ => ⟨t, t, .refl t, ht.thinned, hcarrier⟩
  next =>
    split
    next =>
      have hgrown := grown_welcomeAll net (s := s) (t := t) (net.patience s.world)
      exact fun _ => ⟨_, _, hgrown, (hgrown.served ht).thinned, rfl⟩
    next =>
      intro hlive
      obtain ⟨t₁, hgrown, hthinned⟩ := exists_grown_reactStream net e ht hlive
      exact ⟨t₁, _, hgrown, hthinned, rfl⟩

theorem exists_grown_reopen (hcarrier : s.carrier = .streams t) :
    ∃ t', Grown t t' ∧ (s.reopen net).carrier = .streams t' := by
  have hsame : ∃ t', Grown t t' ∧ s.carrier = .streams t' := ⟨t, .refl t, hcarrier⟩
  unfold reopen
  simp only [hcarrier]
  split
  next => exact hsame
  next =>
    split
    next => exact hsame
    next =>
      split
      next => refine ⟨_, ?_, rfl⟩; exact .same rfl rfl
      next => refine ⟨_, ?_, rfl⟩; exact .same rfl rfl
      next => split <;> (refine ⟨_, ?_, rfl⟩; exact .same rfl rfl)

end LinkState

/-! ## Systems -/

def Carrier.tokens : Carrier → List Token
  | .streams t => t.tokens
  | .datagrams => []

namespace System

/-- The turns in an action: the loop hands messages over in one of its stages. -/
def turnsIn (y : System σ) : Action → List Turn
  | .proceed =>
    match y.stage, y.link.carrier with
    | .handing, .streams t => y.link.turns y.link.outbox.length t
    | _, _ => []
  | _ => []

def leavers (net : Net σ) (y : System σ) (a : Action) : List Token :=
  y.link.carrier.tokens.filter (· ∉ (y.step net a).link.carrier.tokens)

/-- What an action does to the turns. Peers leave after the turns. -/
def rotaIn (net : Net σ) (y : System σ) (a : Action) : List RotaEntry :=
  (y.turnsIn a).map .turn ++ (y.leavers net a).map .left

/-- The turns and the leavings of a sequence of actions, in this order. -/
def rota (net : Net σ) : System σ → List Action → List RotaEntry
  | _, [] => []
  | y, a :: rest => y.rotaIn net a ++ rota net (y.step net a) rest

variable {y : System σ} {t : Streams} {a : Action}

theorem rota_append (net : Net σ) (y : System σ) (actions later : List Action) :
    y.rota net (actions ++ later) = y.rota net actions ++ (y.run net actions).rota net later := by
  induction actions generalizing y with
  | nil => rfl
  | cons a rest ih => simp [rota, run, ih]

/-- Between turns some peers come and then some leave. -/
theorem grown_step (net : Net σ) (ht : y.link.carrier = .streams t) (hserved : t.Served)
    (ha : a = .proceed → y.stage ≠ .handing) (hlive : (y.step net a).stage.isLive = true) :
    ∃ t₁ t', t.Grown t₁ ∧ t₁.Thinned t' ∧ (y.step net a).link.carrier = .streams t' := by
  have hsame {s : LinkState σ} (hs : s.carrier = y.link.carrier) :
      ∃ t₁ t', t.Grown t₁ ∧ t₁.Thinned t' ∧ s.carrier = .streams t' :=
    ⟨t, t, .refl t, hserved.thinned, hs.trans ht⟩
  by_cases hproceed : a = .proceed
  · subst hproceed
    obtain ⟨s, stage, history⟩ := y
    cases stage with
    | handing => exact absurd rfl (ha rfl)
    | taking =>
      obtain ⟨pool, htaken⟩ := s.takeSubmissions_eq
      exact hsame (by simp [step, proceed, htaken])
    | reacting events =>
      cases events with
      | nil => exact hsame rfl
      | cons e rest =>
        have halive : (s.react net e).loopDied = false := alive_of_enter hlive
        simp only [step, proceed, enter_carrier]
        exact LinkState.exists_grown_react net e hserved ht halive
    | reopening =>
      simp only [step, proceed, enter_carrier]
      obtain ⟨t', hgrown, ht'⟩ := LinkState.exists_grown_reopen net ht
      exact ⟨t', t', hgrown, (hgrown.served hserved).thinned, ht'⟩
    | leaving why => simp [step, proceed, Stage.isLive] at hlive
    | head | resting | waiting | ended | died => exact hsame rfl
  · exact hsame (step_carrier net y hproceed)

theorem turnsIn_eq_nil (h : a = .proceed → y.stage ≠ .handing) : y.turnsIn a = [] := by
  unfold turnsIn
  split
  next =>
    split
    next hstage _ => exact absurd hstage (h rfl)
    next => rfl
  next => rfl

/-- Who had the last turn is read off the turns and the leavings of an action. -/
theorem follows_step (net : Net σ) (hy : y.Sound) (hstart : y.stage.isLive = true)
    (ht : y.link.carrier = .streams t) (hfinished : ∀ b ∈ y.link.outbox, b.finished = true)
    (a : Action) :
    Follows t.lastServed (y.rotaIn net a) ∧
      ((y.step net a).stage.isLive = true → ∃ t', (y.step net a).link.carrier = .streams t' ∧
        t'.lastServed = lastAfter t.lastServed (y.rotaIn net a)) := by
  have hsound := hy.streams hstart t ht
  -- the leavers are those of the peers before the action that are not there after it
  have hleft {t₁ t' : Streams} (ht₁ : t₁.Served) (hsub : ∀ k, t₁.lastServed = some k → k ∈ t.tokens)
      (hthinned : t₁.Thinned t') (ht' : (y.step net a).link.carrier = .streams t') :
      t'.lastServed = lastAfter t₁.lastServed ((y.leavers net a).map .left) := by
    rw [lastAfter_left, hthinned.lastServed, leavers, ht, ht']
    cases hlast : t₁.lastServed with
    | none => rfl
    | some k =>
      by_cases hk : k ∈ t'.tokens <;> simp [Option.filter, Carrier.tokens, hsub k hlast, hk]
  unfold rotaIn
  rw [follows_append, lastAfter_append]
  by_cases hhanding : a = .proceed ∧ y.stage = .handing
  · obtain ⟨rfl, hstage⟩ := hhanding
    obtain ⟨hfollows, -, hlast, htokens, ht₁⟩ :=
      LinkState.follows_turns y.link.outbox.length hsound hfinished
    have hturns : y.turnsIn .proceed = y.link.turns y.link.outbox.length t := by
      simp [turnsIn, hstage, ht]
    rw [hturns]
    refine ⟨⟨hfollows, follows_of_no_turn (turnsOf_left _)⟩, fun hlive => ?_⟩
    have halive : (y.link.handOn net).loopDied = false := by
      simp only [step, proceed, hstage] at hlive
      exact alive_of_enter hlive
    have hhandOn : y.link.handOn net = y.link.handOnStreams net t := by
      simp [LinkState.handOn, ht]
    rw [hhandOn] at halive
    obtain ⟨t', ht', hthinned⟩ := LinkState.thinned_handOnStreams net ht₁.served halive
    have hnext : (y.step net .proceed).link.carrier = .streams t' := by
      rw [(handed_eq hstage).2, hhandOn, ht']
    refine ⟨t', hnext, ?_⟩
    rw [← hlast]
    exact hleft ht₁.served (fun k hk => htokens ▸ ht₁.served k hk) hthinned hnext
  · have hno : a = .proceed → y.stage ≠ .handing := fun ha hstage => hhanding ⟨ha, hstage⟩
    rw [turnsIn_eq_nil hno]
    refine ⟨⟨trivial, follows_of_no_turn (turnsOf_left _)⟩, fun hlive => ?_⟩
    obtain ⟨t₁, t', hgrown, hthinned, ht'⟩ := grown_step net ht hsound.served hno hlive
    refine ⟨t', ht', ?_⟩
    rw [List.map_nil, lastAfter_nil, ← hgrown.lastServed]
    exact hleft (hgrown.served hsound.served)
      (fun k hk => hsound.served k (hgrown.lastServed ▸ hk)) hthinned ht'

/-- Messages leave the outbox only when the loop hands them on. -/
theorem handOvers_eq_of_step (h : a = .proceed → y.stage ≠ .handing) :
    (y.step net a).history.handOvers = y.history.handOvers := by
  rcases a.isCallers_or with hcallers | rfl | ⟨r, rfl⟩
  · have hcalled := called_step net y hcallers
    generalize y.step net a = y' at hcalled ⊢
    cases hcalled with
    | aside | submitted | refused => rfl
  · obtain ⟨s, stage, history⟩ := y
    cases stage with
    | handing => exact absurd rfl (h rfl)
    | reacting events =>
      cases events with
      | nil => rfl
      | cons e rest =>
        simp only [step, proceed, enter]
        split <;> rfl
    | reopening =>
      simp only [step, proceed, enter]
      split <;> rfl
    | head | taking | resting | waiting | leaving | ended | died => rfl
  · simp only [step, answer, enter]
    split
    next => split <;> rfl
    next => rfl

/-- When the loop is gone there are no more turns. -/
theorem turnsOf_rota_of_gone (hy : y.Sound) (h : y.stage.isLive = false) (actions : List Action) :
    turnsOf (y.rota net actions) = [] := by
  induction actions generalizing y with
  | nil => rfl
  | cons a rest ih =>
    have hno : a = .proceed → y.stage ≠ .handing := by
      rintro - hstage
      simp [hstage, Stage.isLive] at h
    have hgone : (y.step net a).stage.isLive = false := by
      by_contra hlive
      simp [isLive_of_step hy (by simpa using hlive)] at h
    rw [rota, rotaIn, turnsIn_eq_nil hno]
    simp [turnsOf_left, ih (hy.transition (transition_step hy a)) hgone]

end System

namespace Reachable

variable {w₀ : σ} {y : System σ} {t : Streams}

/-- In each run each turn goes to the peer whose turn it is. -/
theorem follows_rota (h : Reachable net w₀ y) (ht : y.link.carrier = .streams t)
    (actions : List Action) : Follows t.lastServed (y.rota net actions) := by
  induction actions generalizing y t with
  | nil => trivial
  | cons a rest ih =>
    cases hstart : y.stage.isLive with
    | false => exact follows_of_no_turn (System.turnsOf_rota_of_gone h.sound hstart _)
    | true =>
      obtain ⟨hfollows, hnext⟩ :=
        System.follows_step net h.sound hstart ht h.finished_outbox a
      refine follows_append.2 ⟨hfollows, ?_⟩
      cases hlive : (y.step net a).stage.isLive with
      | false =>
        exact follows_of_no_turn (System.turnsOf_rota_of_gone (h.step a).sound hlive rest)
      | true =>
        obtain ⟨t', ht', hlast⟩ := hnext hlive
        exact hlast ▸ ih (h.step a) ht'

/-- Messages leave the outbox only in turns. -/
theorem handOvers_step (h : Reachable net w₀ y) (ht : y.link.carrier = .streams t) (a : Action) :
    (y.step net a).history.handOvers.map HandOver.recipient =
      y.history.handOvers.map HandOver.recipient ++ (y.turnsIn a).map Turn.recipient := by
  by_cases hhanding : a = .proceed ∧ y.stage = .handing
  · obtain ⟨rfl, hstage⟩ := hhanding
    have hlive : y.stage.isLive = true := by simp [hstage, Stage.isLive]
    have hsound := h.sound.streams hlive t ht
    obtain ⟨-, hrecipients, -⟩ :=
      LinkState.follows_turns y.link.outbox.length hsound h.finished_outbox
    have hturns : y.turnsIn .proceed = y.link.turns y.link.outbox.length t := by
      simp [System.turnsIn, hstage, ht]
    have hdepartures : y.link.departures net = y.link.recipients y.link.outbox.length t := by
      simp [LinkState.departures, ht]
    have hlength : (y.link.departures net).length ≤ y.history.pending.length := by
      have hle : (y.link.departures net).length ≤ _ := LinkState.length_departures_le ht
      have houtbox := congrArg List.length (h.ordered (Stage.ne_died hlive)).outbox
      rw [List.length_map] at houtbox
      omega
    have hhistory : (y.step net .proceed).history =
        (y.history.depart (y.link.departures net)).offer (y.link.offers net) := by
      simp only [System.step, System.proceed, hstage, System.enter]
      split <;> rfl
    rw [hhistory, hturns, hrecipients, ← hdepartures]
    simp only [History.offer, History.depart, List.map_append]
    rw [← List.map_uncurry_zip_eq_zipWith, List.map_map]
    exact congrArg _ (List.map_snd_zip hlength)
  · have hno : a = .proceed → y.stage ≠ .handing := fun ha hstage => hhanding ⟨ha, hstage⟩
    rw [System.turnsIn_eq_nil hno, System.handOvers_eq_of_step hno]
    simp

/-- The messages that leave the outbox are those of the turns. -/
theorem handOvers_run (h : Reachable net w₀ y) (ht : y.link.carrier = .streams t)
    (actions : List Action) :
    (y.run net actions).history.handOvers.map HandOver.recipient =
      y.history.handOvers.map HandOver.recipient ++
        (turnsOf (y.rota net actions)).map Turn.recipient := by
  induction actions generalizing y t with
  | nil => simp [System.run, System.rota, turnsOf]
  | cons a rest ih =>
    obtain ⟨t', ht', -⟩ := System.entries_step net ht a
    have hrest := ih (h.step a) ht'
    rw [handOvers_step h ht a] at hrest
    simpa [System.run, System.rota, System.rotaIn, turnsOf_turn, turnsOf_left] using hrest

end Reachable

end ArmStream
