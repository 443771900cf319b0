import Mathlib
import ArmStream.Proofs.Recording
import ArmStream.Proofs.Turns

/-!
# Round robin

As long as the peers stay the same, their turns go round in a circle, and each gets its share of the
messages. A message that is too long for a frame takes a turn too, so that a peer may get less than
its share when there are such messages. When peers come and leave, the circle may be broken off: the
loop starts from the smallest token again when the peer that had the last turn leaves. So a peer can
be passed over, but only in this way, and only by a peer with a smaller token.

## Main definitions

- `IsShare`: a number of messages that is as even as can be.
- `Restarts`: the peer that had the last turn leaves.

## Main statements

- `Turn.countP_of_follows`: turns among the same peers.
- `Reachable.turns_go_round`: whose turn it is, and what each peer gets.
- `Reachable.uneven_of_long`: a message too long for a frame, and what each peer gets then.
- `Reachable.served_between`: who has a turn between two turns of another peer.
-/

namespace ArmStream

variable {σ : Type} {net : Net σ}

/-! ## Turns among the same peers -/

def Turn.AllFit (x : Turn) : Prop := ∀ q ∈ x.streams.peers, q.2.fits x.message.size x.limit = true

/-- Out of `total` messages a peer got `got`, which is the even share of each of `among` peers,
rounded down or up. -/
def IsShare (got total among : Nat) : Prop :=
  got = total / among ∨ got = (total + among - 1) / among

/-- In a stretch of a circle each place comes as often as any other, up to one. -/
theorem isShare_count (s : Nat) {n m : Nat} (hm : m < n) (total : Nat) :
    IsShare (Nat.count (fun i => (s + i) % n = m) total) total n := by
  have hn : 0 < n := Nat.zero_lt_of_lt hm
  have hplace (i : Nat) : (s + i) % n = m ↔ i ≡ m + (n - 1) * s [MOD n] := by
    have hround : s + (m + (n - 1) * s) = m + n * s := by
      obtain ⟨n, rfl⟩ := Nat.exists_eq_succ_of_ne_zero hn.ne'
      simp only [Nat.succ_eq_add_one, Nat.add_sub_cancel]
      ring
    calc (s + i) % n = m ↔ s + i ≡ s + (m + (n - 1) * s) [MOD n] := by
          rw [hround, Nat.ModEq, Nat.add_mul_mod_self_left, Nat.mod_eq_of_lt hm]
      _ ↔ i ≡ m + (n - 1) * s [MOD n] := Nat.ModEq.add_iff_left (Nat.ModEq.refl s)
  have hcount := Nat.count_modEq_card total hn (m + (n - 1) * s)
  simp only [← hplace] at hcount
  rw [IsShare, hcount]
  split
  next hmore =>
    have hup : (total + n - 1) / n = total / n + 1 := by
      rw [Nat.div_eq_iff hn]
      have hsplit := Nat.div_add_mod total n
      have hless := Nat.mod_lt total hn
      rw [Nat.add_mul, Nat.mul_comm (total / n) n]
      omega
    exact .inr hup.symm
  next => exact .inl rfl

namespace Turn

variable {x : Turn} {tokens : List Token}

theorem Due.mem_tokens {last : Option Token} (h : x.Due last) : x.token ∈ x.streams.tokens := by
  obtain ⟨p, hturn, -⟩ := h.chosen
  exact List.mem_map_of_mem ((Streams.turn?_eq_some_iff h.ascending).1 hturn).1

/-- A peer that has room is not before the one whose turn it is. -/
theorem Due.precedes {last : Option Token} (h : x.Due last) {q : Token × Peer}
    (hq : q ∈ x.streams.peers) (hfits : q.2.fits x.message.size x.limit = true)
    (hne : q.1 ≠ x.token) : Token.Precedes last x.token q.1 := by
  obtain ⟨p, hturn, -⟩ := h.chosen
  obtain ⟨-, -, hfirst⟩ := (Streams.turn?_eq_some_iff h.ascending).1 hturn
  rcases hfirst q hq hfits with rfl | hprecedes
  · exact absurd rfl hne
  · exact h.lastServed ▸ hprecedes

/-- The next turn is that of the next peer of the circle. -/
theorem Due.token_eq {s : Nat} (hs : s < tokens.length)
    (hnext : (s + 1) % tokens.length < tokens.length) (h : x.Due (some tokens[s]))
    (htokens : x.streams.tokens = tokens) (hfit : x.AllFit) :
    x.token = tokens[(s + 1) % tokens.length] := by
  subst htokens
  have hless {i j : Nat} (hi : i < x.streams.tokens.length) (hj : j < x.streams.tokens.length) :
      x.streams.tokens[i] < x.streams.tokens[j] ↔ i < j :=
    h.ascending.sortedLT.strictMono_get.lt_iff_lt (a := ⟨i, hi⟩) (b := ⟨j, hj⟩)
  by_contra hne
  obtain ⟨i, hi, htoken⟩ := List.getElem_of_mem h.mem_tokens
  obtain ⟨q, hq, hqtoken⟩ := List.mem_map.1 (List.getElem_mem hnext)
  have hprecedes := h.precedes hq (hfit q hq) (fun heq => hne (by rw [← heq, hqtoken]))
  rw [hqtoken, ← htoken] at hprecedes
  simp only [Token.Precedes, ← Nat.not_lt, hless] at hprecedes
  rcases Nat.lt_or_ge (s + 1) x.streams.tokens.length with hlt | hge
  · rw [Nat.mod_eq_of_lt hlt] at hprecedes
    omega
  · have hround : s + 1 = x.streams.tokens.length := by omega
    rw [hround, Nat.mod_self] at hprecedes
    omega

/-- Turns that follow each other go round. -/
theorem countP_of_follows {s m : Nat} {xs : List Turn} (hs : s < tokens.length)
    (hm : m < tokens.length) (hnodup : tokens.Nodup) (hx : x.token = tokens[s])
    (hfollows : Follows (some x.token) (xs.map .turn))
    (hxs : ∀ z ∈ xs, z.streams.tokens = tokens ∧ z.AllFit) :
    (x :: xs).countP (fun z => z.token = tokens[m]) =
      Nat.count (fun i => (s + i) % tokens.length = m) (x :: xs).length := by
  have hplace {x : Turn} {s : Nat} (hs : s < tokens.length) (hx : x.token = tokens[s]) :
      (x.token = tokens[m]) = ((s + 0) % tokens.length = m) := by
    simp [hx, hnodup.getElem_inj_iff, Nat.mod_eq_of_lt hs]
  induction xs generalizing x s with
  | nil => simp only [List.countP_cons, List.countP_nil, List.length_cons, List.length_nil,
      Nat.count_succ', Nat.count_zero, decide_eq_true_eq, hplace hs hx]
  | cons z zs ih =>
    obtain ⟨hdue, hrest⟩ := hfollows
    obtain ⟨htokens, hfit⟩ := hxs z (by simp)
    have hnext := Nat.mod_lt (s + 1) (Nat.zero_lt_of_lt hs)
    have hz := (hx ▸ hdue).token_eq hs hnext htokens hfit
    have hstep := ih hnext hz hrest fun z' hz' => hxs z' (by simp [hz'])
    have hshift (i : Nat) :
        ((s + 1) % tokens.length + i) % tokens.length = (s + (i + 1)) % tokens.length := by
      rw [Nat.mod_add_mod, Nat.add_assoc, Nat.add_comm 1 i]
    simp only [hshift] at hstep
    rw [List.countP_cons, hstep, List.length_cons (a := x), Nat.count_succ']
    simp only [decide_eq_true_eq, hplace hs hx]

/-- Each peer has its share of the turns. -/
theorem isShare_of_follows {last : Option Token} {xs : List Turn} {k : Token}
    (hfollows : Follows last (xs.map .turn))
    (hxs : ∀ x ∈ xs, x.streams.tokens = tokens ∧ x.AllFit) (hk : k ∈ tokens) :
    IsShare (xs.countP fun x => x.token = k) xs.length tokens.length := by
  cases xs with
  | nil => exact .inl (Nat.zero_div _).symm
  | cons x rest =>
    obtain ⟨hdue, hrest⟩ := hfollows
    obtain ⟨htokens, -⟩ := hxs x (by simp)
    have hnodup : tokens.Nodup := htokens ▸ hdue.ascending.imp Nat.ne_of_lt
    obtain ⟨s, hs, hx⟩ := List.getElem_of_mem (htokens ▸ hdue.mem_tokens)
    obtain ⟨m, hm, rfl⟩ := List.getElem_of_mem hk
    rw [countP_of_follows hs hm hnodup hx.symm hrest fun z hz => hxs z (by simp [hz])]
    exact isShare_count s hm _

end Turn

def Recipient.token? : Recipient → Option Token
  | .peer token _ => some token
  | _ => none

/-- The peer gets the message, unless that is too long for a frame. -/
theorem Turn.Due.token?_recipient {x : Turn} {last : Option Token} (h : x.Due last) :
    x.recipient.token? = if x.message.size ≤ Frame.maxLength then some x.token else none := by
  obtain ⟨p, -, hrecipient⟩ := h.chosen
  rw [hrecipient]
  split <;> rfl

/-- A turn in a rota goes to the peer whose turn it is. -/
theorem Follows.due {last : Option Token} {rota : List RotaEntry} (h : Follows last rota) {x : Turn}
    (hx : x ∈ turnsOf rota) : ∃ last', x.Due last' := by
  induction rota generalizing last with
  | nil => cases hx
  | cons e rest ih =>
    cases e with
    | turn z =>
      obtain ⟨hdue, hrest⟩ := h
      rcases List.mem_cons.1 hx with rfl | hx
      · exact ⟨last, hdue⟩
      · exact ih hrest hx
    | left k => exact ih h hx

theorem Streams.isSome_turn?_of_empty {t : Streams} {len limit : Nat}
    (h : ∃ q ∈ t.peers, q.2.unsent = 0) : (t.turn? len limit).isSome = true := by
  obtain ⟨q, hq, hempty⟩ := h
  by_contra hnone
  have hfull := Streams.turn?_eq_none_iff.1 (Option.not_isSome_iff_eq_none.1 hnone) q hq
  exact absurd hfull.1 (by simp [hempty])

/-- The turn goes to the first peer with room in the order that starts behind the peer that got the
last message and ends with that one, whatever the buffers hold and whether that peer is still
there or not; no peer gets it exactly if none has room, and a peer with nothing to send always has.
So when messages leave the outbox one after the other while the peers stay the same and each has
room, each peer has its share of the turns. It gets the message in each of its turns, unless that is
too long for a frame; if none is, it gets its share of the messages. -/
theorem Reachable.turns_go_round {w₀ : σ} {y : System σ} {t : Streams} (h : Reachable net w₀ y)
    (ht : y.link.carrier = .streams t) (actions : List Action) :
    (∀ (t : Streams) (len limit : Nat), t.tokens.Pairwise (· < ·) →
      (∀ k p, t.turn? len limit = some (k, p) ↔
        (k, p) ∈ t.peers ∧ p.fits len limit ∧ ∀ q ∈ t.peers, q.2.fits len limit →
          q = (k, p) ∨ Token.Precedes t.lastServed k q.1) ∧
      (t.turn? len limit = none ↔ ∀ q ∈ t.peers, ¬ q.2.fits len limit) ∧
      ((∃ q ∈ t.peers, q.2.unsent = 0) → (t.turn? len limit).isSome)) ∧
    (y.run net actions).history.handOvers.map HandOver.recipient =
      y.history.handOvers.map HandOver.recipient ++
        (turnsOf (y.rota net actions)).map Turn.recipient ∧
    ∀ (before behind : List RotaEntry) (xs : List Turn) (tokens : List Token),
      y.rota net actions = before ++ xs.map .turn ++ behind →
      (∀ x ∈ xs, x.streams.tokens = tokens ∧ x.AllFit) → ∀ k ∈ tokens,
        IsShare (xs.countP fun x => x.token = k) xs.length tokens.length ∧
        (∀ x ∈ xs, x.recipient.token? =
          if x.message.size ≤ Frame.maxLength then some x.token else none) ∧
        ((∀ x ∈ xs, x.message.size ≤ Frame.maxLength) →
          IsShare (xs.countP fun x => x.recipient.token? = some k) xs.length tokens.length) := by
  refine ⟨fun t len limit hasc => ⟨fun k p => Streams.turn?_eq_some_iff hasc, ?_,
    Streams.isSome_turn?_of_empty⟩, h.handOvers_run ht actions, ?_⟩
  · rw [Streams.turn?_eq_none_iff]
    simp only [Streams.Full, Peer.full_iff]
  · intro before behind xs tokens hrota hxs k hk
    have hfollows := h.follows_rota ht actions
    rw [hrota, List.append_assoc, follows_append, follows_append] at hfollows
    obtain ⟨-, hturns, -⟩ := hfollows
    have hshare := Turn.isShare_of_follows hturns hxs hk
    have hreceived : ∀ x ∈ xs, x.recipient.token? =
        if x.message.size ≤ Frame.maxLength then some x.token else none := by
      intro x hx
      obtain ⟨last, hdue⟩ := hturns.due (by rwa [turnsOf_turn])
      exact hdue.token?_recipient
    refine ⟨hshare, hreceived, fun hshort => ?_⟩
    -- a message that is short goes to the peer whose turn it is
    have hsame : xs.countP (fun x => x.recipient.token? = some k) =
        xs.countP fun x => x.token = k := by
      refine List.countP_congr fun x hx => ?_
      simp [hreceived x hx, hshort x hx]
    rw [hsame]
    exact hshare

def Action.twoPeers : List Action := [.guard, .proceed, .proceed, .proceed, .proceed,
  .wake (.ok [{ token := Token.outbound, writable := true },
    { token := Token.listener, readable := true }]), .proceed, .proceed, .proceed, .proceed]

def Action.threeMessages : List Action :=
  [.submit .bare, .submit .bare, .submit .bare, .proceed, .proceed, .proceed]

/-- Three messages go to two peers. -/
theorem Reachable.exists_three_turns :
    ∃ (y : System (List (Reply Nat))) (t : Streams) (x₁ x₂ x₃ : Turn),
      Reachable Net.welcoming [.ok 7] y ∧ y.link.carrier = .streams t ∧
      y.rota Net.welcoming Action.threeMessages = [.turn x₁, .turn x₂, .turn x₃] ∧
      [x₁.token, x₂.token, x₃.token] = [2, 3, 2] ∧
      ∀ x ∈ [x₁, x₂, x₃],
        x.streams.tokens = [2, 3] ∧ x.AllFit ∧ x.message.size ≤ Frame.maxLength := by
  obtain ⟨y, h, hy⟩ := exists_of_run Net.welcoming [.ok 7] "tcp://127.0.0.1:0"
    "tcp://10.9.8.7:30010" {} Action.twoPeers
    (fun y => y.link.carrier != .datagrams &&
      y.rota Net.welcoming Action.threeMessages ==
        (turnsOf (y.rota Net.welcoming Action.threeMessages)).map .turn &&
      (turnsOf (y.rota Net.welcoming Action.threeMessages)).map Turn.token == [2, 3, 2] &&
      (turnsOf (y.rota Net.welcoming Action.threeMessages)).all fun x =>
        x.streams.tokens == [2, 3] &&
        x.streams.peers.all (fun q => q.2.fits x.message.size x.limit) &&
        decide (x.message.size ≤ Frame.maxLength))
    (by cbv)
  simp only [Bool.and_eq_true, bne_iff_ne, beq_iff_eq, List.all_eq_true, decide_eq_true_eq] at hy
  obtain ⟨⟨⟨hcarrier, hrota⟩, htokens⟩, hturns⟩ := hy
  obtain ⟨t, ht⟩ := Carrier.exists_streams hcarrier
  generalize turnsOf (y.rota Net.welcoming Action.threeMessages) = xs at *
  have hlength : xs.length = 3 := by simpa using congrArg List.length htokens
  obtain ⟨x₁, x₂, x₃, rfl⟩ := List.length_eq_three.1 hlength
  refine ⟨y, t, x₁, x₂, x₃, h, ht, hrota, htokens, fun x hx => ?_⟩
  obtain ⟨⟨hsame, hfit⟩, hshort⟩ := hturns x hx
  exact ⟨hsame, hfit, hshort⟩

/-- Each of two peers gets one or two of three messages. -/
theorem Reachable.turns_go_round_of_three :
    ∃ (y : System (List (Reply Nat))) (t : Streams) (xs : List Turn),
      Reachable Net.welcoming [.ok 7] y ∧ y.link.carrier = .streams t ∧
      y.rota Net.welcoming Action.threeMessages = [] ++ xs.map .turn ++ [] ∧
      (∀ x ∈ xs, x.streams.tokens = [2, 3] ∧ x.AllFit) ∧
      (∀ x ∈ xs, x.message.size ≤ Frame.maxLength) ∧
      ∀ k ∈ [2, 3], IsShare (xs.countP fun x => x.recipient.token? = some k) 3 2 := by
  obtain ⟨y, t, x₁, x₂, x₃, h, ht, hrota, -, hturns⟩ := exists_three_turns
  have hfit := fun x hx => And.intro (hturns x hx).1 (hturns x hx).2.1
  have hshort := fun x hx => (hturns x hx).2.2
  obtain ⟨-, -, hshare⟩ := h.turns_go_round ht Action.threeMessages
  exact ⟨y, t, [x₁, x₂, x₃], h, ht, hrota, hfit, hshort, fun k hk =>
    (hshare [] [] [x₁, x₂, x₃] [2, 3] hrota hfit k hk).2.2 hshort⟩

/-! ### A message that is too long -/

/-- A message with one vector. -/
theorem Builder.exists_built_of_values {values : List Pattern} (h : values.length < valueLimit) :
    ∃ b : Builder, b.Built [⟨.position, values⟩] ∧ b.finished = true ∧
      b.size = 2 * headerLength + 8 * values.length := by
  obtain ⟨b₀, -, hbuilt, hopen⟩ : ∃ b₀, empty.pushAll [⟨.position, values⟩] = (b₀, none) ∧
      b₀.Built [⟨.position, values⟩] ∧ b₀.finished = false :=
    Built.empty.exists_pushAll rfl (by simp [maxFields]) (by simpa using h)
  obtain ⟨b, -, hb, hfinished⟩ := exists_finish hbuilt hopen
  refine ⟨b, hb, hfinished, ?_⟩
  rw [size, ← Array.length_toList, hb.toList_buffer hfinished]
  simp [Header.encode, Field.encode, FieldId.encode, List.length_flatMap, headerLength]
  omega

/-- The second of three messages is too long for a frame. It takes the turn of the second peer. -/
theorem LinkState.exists_turns_of_long {s : LinkState σ} {t : Streams} {b : Builder}
    (hfinished : b.finished = true) (hlong : Frame.maxLength < b.size)
    (hroom : Frame.headerLength + Builder.bare.size + Frame.headerLength + b.size ≤
      s.config.maxPeerBufferBytes)
    (houtbox : s.outbox = [.bare, b, .bare]) (hlast : t.lastServed = none)
    (hpeers : t.peers = [(2, { conn := 0 }), (3, { conn := 7 })]) :
    ∃ x₁ x₂ x₃ : Turn, s.turns 3 t = [x₁, x₂, x₃] ∧
      [x₁, x₂, x₃].map Turn.recipient = [.peer 2 0, .nobody, .peer 2 0] ∧
      ∀ x ∈ [x₁, x₂, x₃], x.streams.tokens = [2, 3] ∧ x.AllFit := by
  generalize hlimit : s.config.maxPeerBufferBytes = limit at hroom
  have hbytes : b.bytes = .ok b.buffer := Builder.bytes_of_finished hfinished
  have hbare : Builder.bare.bytes = .ok Builder.bare.buffer := rfl
  have hrefused (p : Peer) : p.push? b.buffer = none := by
    have hnone : (p.push? b.buffer).isSome = false :=
      (p.isSome_push? b.buffer).trans (decide_eq_false (Nat.not_le.2 hlong))
    simpa using hnone
  -- the first peer with the first message in its buffer, and with both short ones
  obtain ⟨p₁, hp₁, hconn, hunsent⟩ : ∃ p₁, ({ conn := 0 } : Peer).push? Builder.bare.buffer =
      some p₁ ∧ p₁.conn = 0 ∧ p₁.unsent = Frame.headerLength + Builder.bare.size :=
    ⟨_, rfl, rfl, rfl⟩
  obtain ⟨p₂, hp₂⟩ := Option.isSome_iff_exists.1
    ((p₁.isSome_push? Builder.bare.buffer).trans (by decide))
  have hempty₀ (len : Nat) : ({ conn := 0 } : Peer).fits len limit = true := rfl
  have hempty₇ (len : Nat) : ({ conn := 7 } : Peer).fits len limit = true := rfl
  have hfits {len : Nat} (hlen : len ≤ b.size) : p₁.fits len limit = true := by
    simp only [Peer.fits, hunsent, Bool.or_eq_true, decide_eq_true_eq]
    omega
  have hfits₁ := hfits (Nat.le_refl b.size)
  have hfits₂ : p₁.fits Builder.bare.size limit = true :=
    hfits (Nat.le_trans (by decide : Builder.bare.size ≤ Frame.maxLength) (Nat.le_of_lt hlong))
  simp [-Prod.forall, turns, handOver?, nextTurn?, recipient, countDropped, Streams.turn?,
    Streams.setPeer, Streams.insertPeer, Streams.tokens, Turn.AllFit, houtbox, hlimit, hlast,
    hpeers, hbytes, hbare, hrefused, hp₁, hp₂, hconn, hempty₀, hempty₇, hfits₁, hfits₂]

/-- A message is submitted between two short ones, and the loop is about to hand them over. -/
theorem Reachable.exists_handing {b : Builder} (h : b.finished = true) :
    ∃ (y : System (List (Reply Nat))) (t : Streams),
      Reachable Net.welcoming [.ok 7] y ∧ y.stage = .handing ∧ y.link.carrier = .streams t ∧
      y.link.outbox = [.bare, b, .bare] ∧ y.link.config.maxPeerBufferBytes = 33554432 ∧
      t.lastServed = none ∧ t.peers = [(2, { conn := 0 }), (3, { conn := 7 })] := by
  obtain ⟨bytes, fieldCount, finished⟩ := b
  subst h
  let actions := Action.twoPeers ++
    [.submit .bare, .submit ⟨bytes, fieldCount, true⟩, .submit .bare, .proceed, .proceed]
  have hrun : (System.opened? Net.welcoming "tcp://127.0.0.1:0" "tcp://10.9.8.7:30010"
      { maxPeerBufferBytes := 33554432 } [.ok 7]).map (fun y =>
        ((y.run Net.welcoming actions).stage, (y.run Net.welcoming actions).link.carrier,
          (y.run Net.welcoming actions).link.outbox, (y.run Net.welcoming actions).link.config)) =
      some (.handing, .streams {
          remote := ⟨.v4 10 9 8 7, 30010⟩
          peers := [(2, { conn := 0 }), (3, { conn := 7 })]
          nextToken := 4 },
        [.bare, ⟨bytes, fieldCount, true⟩, .bare], { maxPeerBufferBytes := 33554432 }) := by
    cbv
  obtain ⟨y, hopened, hy⟩ := Option.map_eq_some_iff.1 hrun
  simp only [Prod.mk.injEq] at hy
  obtain ⟨hstage, hcarrier, houtbox, hconfig⟩ := hy
  exact ⟨y.run Net.welcoming actions, _, (opened hopened).run actions, hstage, hcarrier, houtbox,
    by rw [hconfig], rfl, rfl⟩

/-- Of three messages that leave the outbox one after the other, the second is too long for a frame.
All turns are among the same two peers, and each has room, but one peer gets both messages that are
sent and the other none. -/
theorem Reachable.uneven_of_long :
    ∃ (y : System (List (Reply Nat))) (t : Streams) (b : Builder) (xs : List Turn)
      (behind : List RotaEntry),
      Reachable Net.welcoming [.ok 7] y ∧ y.link.carrier = .streams t ∧
      b.Built [⟨.position, List.replicate 2097152 0⟩] ∧ y.link.outbox = [.bare, b, .bare] ∧
      y.rota Net.welcoming [.proceed] = [] ++ xs.map .turn ++ behind ∧ xs.length = 3 ∧
      (∀ x ∈ xs, x.streams.tokens = [2, 3] ∧ x.AllFit) ∧
      ¬ IsShare (xs.countP fun x => x.recipient.token? = some 3) xs.length 2 ∧
      ¬ IsShare (xs.countP fun x => x.recipient.token? = some 3)
        (xs.countP fun x => x.recipient.token?.isSome) 2 := by
  have hvalues : (List.replicate 2097152 (0 : Pattern)).length = 2097152 := List.length_replicate
  obtain ⟨b, hbuilt, hfinished, hsize⟩ :=
    Builder.exists_built_of_values (lt_of_eq_of_lt hvalues (by decide))
  rw [hvalues] at hsize
  obtain ⟨y, t, h, hstage, ht, houtbox, hlimit, hlast, hpeers⟩ := exists_handing hfinished
  have hlong : Frame.maxLength < b.size := by rw [hsize]; decide
  obtain ⟨x₁, x₂, x₃, hturns, hrecipients, hfit⟩ :=
    LinkState.exists_turns_of_long hfinished hlong (by rw [hlimit, hsize]; decide) houtbox hlast
      hpeers
  simp only [List.map_cons, List.map_nil, List.cons.injEq, and_true] at hrecipients
  obtain ⟨hx₁, hx₂, hx₃⟩ := hrecipients
  refine ⟨y, t, b, [x₁, x₂, x₃], (y.leavers Net.welcoming .proceed).map .left, h, ht, hbuilt,
    houtbox, ?_, rfl, hfit, ?_, ?_⟩
  · simp [System.rota, System.rotaIn, System.turnsIn, hstage, ht, houtbox, hturns]
  · simp [IsShare, Recipient.token?, hx₁, hx₂, hx₃]
  · simp [IsShare, Recipient.token?, hx₁, hx₂, hx₃]

/-! ## Peers that are passed over -/

def Turn.HasRoom (x : Turn) (k : Token) : Prop :=
  ∃ p, (k, p) ∈ x.streams.peers ∧ p.fits x.message.size x.limit = true

/-- The peer that had the last turn leaves, so that the next turn is looked for from the start. -/
def Restarts (last : Option Token) (rota : List RotaEntry) : Prop :=
  ∃ early k late, rota = early ++ .left k :: late ∧ lastAfter last early = some k

theorem Restarts.cons {last : Option Token} {e : RotaEntry} {rest : List RotaEntry}
    (h : Restarts (e.after last) rest) : Restarts last (e :: rest) := by
  obtain ⟨early, k, late, rfl, hlast⟩ := h
  exact ⟨e :: early, k, late, rfl, hlast⟩

/-- When the peer `i` has its turn before `j`, that of `j` still comes before that of `k`. -/
theorem Token.Precedes.advance {last : Option Token} {i j k : Token} (h : Precedes last i j)
    (h' : Precedes last j k) : Precedes (some i) j k := by
  cases last <;> grind [Precedes]

/-- The peer that had the last turn comes last. -/
theorem Token.precedes_last {j k : Token} (h : j ≠ k) : Precedes (some k) j k := by
  grind [Precedes]

/-- As long as a peer with room waits for its turn, no peer behind it has one and all of these stay
behind it, unless the order starts anew from a smaller token. -/
theorem Follows.token_ne {last : Option Token} {rota : List RotaEntry} {j k : Token}
    (h : Follows last rota) (hbefore : Token.Precedes last j k)
    (hroom : ∀ w ∈ turnsOf rota, w.HasRoom j) (hwaits : ∀ w ∈ turnsOf rota, w.token ≠ j)
    (hrestart : ¬ Restarts last rota ∨ j < k) :
    (∀ w ∈ turnsOf rota, w.token ≠ k) ∧ Token.Precedes (lastAfter last rota) j k := by
  induction rota generalizing last with
  | nil => exact ⟨by simp [turnsOf], hbefore⟩
  | cons e rest ih =>
    have hrest : ¬ Restarts (e.after last) rest ∨ j < k :=
      hrestart.imp_left fun hno hrest => hno hrest.cons
    cases e with
    | turn x =>
      obtain ⟨hdue, hfollows⟩ := h
      obtain ⟨p, hp, hfits⟩ := hroom x (by simp [turnsOf, RotaEntry.turn?])
      have hx := hdue.precedes hp hfits (hwaits x (by simp [turnsOf, RotaEntry.turn?])).symm
      have hlater (w : Turn) (hw : w ∈ turnsOf rest) : w ∈ turnsOf (.turn x :: rest) :=
        List.mem_cons_of_mem x hw
      obtain ⟨hnone, hstill⟩ := ih hfollows (hx.advance hbefore)
        (fun w hw => hroom w (hlater w hw)) (fun w hw => hwaits w (hlater w hw)) hrest
      refine ⟨fun w hw => ?_, hstill⟩
      rcases List.mem_cons.1 hw with rfl | hw
      · rintro rfl
        exact hx.asymm hbefore
      · exact hnone w hw
    | left i =>
      have hstill : Token.Precedes (if last = some i then none else last) j k := by
        split
        next hlast =>
          -- the peer that left had the last turn, so the order starts anew
          exact hrestart.resolve_left fun hno => hno ⟨[], i, rest, rfl, hlast⟩
        next => exact hbefore
      exact ih h hstill hroom hwaits hrest

namespace Reachable

variable {w₀ : σ} {y : System σ} {t : Streams}

/-- Between two turns of a peer each other peer that has room throughout has its turn, and gets a
message unless that is too long for a frame. It can be passed over only by a peer with a smaller
token, and only if the peer that had the last turn left in between. If the peer with the smaller
token has room throughout as well, that is what happens: when somebody leaves right after its turn,
before the turn of the other peer, the other peer is passed over. -/
theorem served_between (h : Reachable net w₀ y) (ht : y.link.carrier = .streams t)
    {actions : List Action} {before between behind : List RotaEntry} {x z : Turn} {b : Token}
    (hrota : y.rota net actions = before ++ .turn x :: between ++ .turn z :: behind)
    (hsame : z.token = x.token) (hb : b ≠ x.token)
    (hroom : ∀ w ∈ turnsOf between ++ [z], w.HasRoom b) :
    ((∃ w ∈ turnsOf between, w.token = b ∧
        (w.message.size ≤ Frame.maxLength → w.recipient.token? = some b)) ∨
      x.token < b ∧ Restarts (some x.token) between) ∧
    ((∀ w ∈ turnsOf between, w.HasRoom x.token ∧ w.token ≠ x.token) → x.token < b →
      ∀ early k late, between = early ++ .left k :: late →
        lastAfter (some x.token) early = some k → (∀ w ∈ turnsOf early, w.token ≠ b) →
        ∀ w ∈ turnsOf between, w.token ≠ b) := by
  have hfollows := h.follows_rota ht actions
  rw [hrota, List.append_assoc, follows_append] at hfollows
  obtain ⟨-, -, hfollows⟩ := hfollows
  obtain ⟨hbetween, hz, -⟩ := follows_append.1 hfollows
  constructor
  · by_cases hserved : ∃ w ∈ turnsOf between, w.token = b
    · obtain ⟨w, hw, rfl⟩ := hserved
      obtain ⟨last, hdue⟩ := hbetween.due hw
      exact .inl ⟨w, hw, rfl, fun hshort => by rw [hdue.token?_recipient, if_pos hshort]⟩
    · right
      by_contra hnone
      have hrestart : ¬ Restarts (some x.token) between ∨ b < x.token := by
        by_contra hboth
        obtain ⟨hrestarts, hle⟩ := not_or.1 hboth
        exact hnone ⟨Nat.lt_of_le_of_ne (Nat.le_of_not_lt hle) hb.symm, not_not.1 hrestarts⟩
      obtain ⟨-, hahead⟩ := hbetween.token_ne (Token.precedes_last hb)
        (fun w hw => hroom w (by simp [hw])) (by simpa using hserved) hrestart
      -- so the turn of `z` is that of a peer before the one that waits, and of one behind it
      obtain ⟨p, hp, hfits⟩ := hroom z (by simp)
      exact (hsame ▸ hz.precedes hp hfits (hsame ▸ hb)).asymm hahead
  · rintro hspace hless early k late rfl hlast hearly w hw
    rw [turnsOf_append] at hw
    rcases List.mem_append.1 hw with hw | hw
    · exact hearly w hw
    · have hlate := (follows_append.1 hbetween).2
      rw [hlast] at hlate
      have hin (w : Turn) (hw : w ∈ turnsOf late) :
          w ∈ turnsOf (early ++ .left k :: late) := by
        rw [turnsOf_append]
        exact List.mem_append_right _ hw
      have hanew : Follows none late := by simpa [Follows] using hlate
      exact (hanew.token_ne hless (fun w hw => (hspace w (hin w hw)).1)
        (fun w hw => (hspace w (hin w hw)).2) (.inr hless)).1 w hw

/-- Between two turns of one peer the other has its turn. -/
theorem served_between_of_three :
    ∃ (y : System (List (Reply Nat))) (t : Streams) (x₁ x₂ x₃ : Turn),
      Reachable Net.welcoming [.ok 7] y ∧ y.link.carrier = .streams t ∧
      y.rota Net.welcoming Action.threeMessages =
        [] ++ .turn x₁ :: [.turn x₂] ++ .turn x₃ :: [] ∧
      x₃.token = x₁.token ∧ 3 ≠ x₁.token ∧ (∀ w ∈ [x₂, x₃], w.HasRoom 3) ∧
      ((∃ w ∈ [x₂], w.token = 3 ∧
          (w.message.size ≤ Frame.maxLength → w.recipient.token? = some 3)) ∨
        x₁.token < 3 ∧ Restarts (some x₁.token) [.turn x₂]) := by
  obtain ⟨y, t, x₁, x₂, x₃, h, ht, hrota, htokens, hturns⟩ := exists_three_turns
  obtain ⟨h₁, -, h₃⟩ : x₁.token = 2 ∧ x₂.token = 3 ∧ x₃.token = 2 := by simpa using htokens
  have hrota' : y.rota Net.welcoming Action.threeMessages =
      [] ++ .turn x₁ :: [.turn x₂] ++ .turn x₃ :: [] := hrota
  have hsame : x₃.token = x₁.token := h₃.trans h₁.symm
  have hother : 3 ≠ x₁.token := by simp [h₁]
  have hroom : ∀ w ∈ turnsOf [.turn x₂] ++ [x₃], w.HasRoom 3 := by
    intro w hw
    obtain ⟨hpeers, hfit, -⟩ := hturns w (List.mem_cons_of_mem x₁ hw)
    obtain ⟨q, hq, hq₃⟩ := List.mem_map.1 (hpeers ▸ (by simp) : 3 ∈ w.streams.tokens)
    exact ⟨q.2, hq₃ ▸ hq, hfit q hq⟩
  exact ⟨y, t, x₁, x₂, x₃, h, ht, hrota, hsame, hother, hroom,
    (h.served_between ht hrota' hsame hother hroom).1⟩

end Reachable

/-! ### A peer that gets nothing -/

namespace Starving

/-- A message is submitted and handed over, and the stream that got it is closed and opened
again. -/
def round : List Action := [.submit .bare, .proceed, .proceed, .proceed, .proceed,
  .wake (.ok [{ token := Token.outbound, readClosed := true }]), .proceed, .proceed, .proceed,
  .proceed, .proceed, .proceed, .proceed,
  .wake (.ok [{ token := Token.outbound, writable := true }]), .proceed, .proceed, .proceed]

def link (metrics : LinkMetrics) : LinkState (List (Reply Nat)) where
  world := []
  config := { reconnectIntervalMs := 0, maxPooledBuilders := 0 }
  boundAddress := default
  carrier := .streams {
    remote := ⟨.v4 10 9 8 7, 30010⟩
    peers := [(Token.outbound, { conn := 0 }), (Token.firstInbound, { conn := 7 })]
    nextToken := Token.firstInbound + 1 }
  metrics := metrics
  guards := 1

/-- The accepted stream has nothing to send, and the message goes to the other one. -/
def Starves (x : Turn) : Prop :=
  x.recipient = .peer Token.outbound 0 ∧ (Token.firstInbound, { conn := 7 }) ∈ x.streams.peers

/-- After a round all is as before. -/
theorem run_round (metrics : LinkMetrics) (history : History) : ∃ metrics' history',
    System.run Net.welcoming ⟨link metrics, .head, history⟩ round =
      ⟨link metrics', .head, history'⟩ := by
  refine ⟨(System.run Net.welcoming ⟨link metrics, .head, history⟩ round).link.metrics,
    (System.run Net.welcoming ⟨link metrics, .head, history⟩ round).history, ?_⟩
  cbv

theorem rota_round (metrics : LinkMetrics) (history : History) : ∃ x, Starves x ∧
    System.rota Net.welcoming ⟨link metrics, .head, history⟩ round =
      [.turn x, .left Token.outbound] := by
  have hrota : (System.rota Net.welcoming ⟨link metrics, .head, history⟩ round).map (fun e =>
      (e == .left Token.outbound, e.turn?.map fun x =>
        (x.recipient, x.streams.peers.contains (Token.firstInbound, { conn := 7 })))) =
      [(false, some (.peer Token.outbound 0, true)), (true, none)] := by
    cbv
  simp only [List.map_eq_cons_iff, List.map_eq_nil_iff, Prod.mk.injEq, Option.map_eq_some_iff,
    RotaEntry.turn?_eq_some_iff, List.contains_iff_mem, beq_iff_eq] at hrota
  obtain ⟨_, _, hrota, ⟨-, x, rfl, hx⟩, _, _, rfl, ⟨rfl, -⟩, rfl⟩ := hrota
  exact ⟨x, hx, hrota⟩

theorem exists_rounds (n : Nat) (metrics : LinkMetrics) (history : History) :
    ∃ xs : List Turn, xs.length = n ∧ (∀ x ∈ xs, Starves x) ∧
      System.rota Net.welcoming ⟨link metrics, .head, history⟩ (List.replicate n round).flatten =
        xs.flatMap fun x => [.turn x, .left Token.outbound] := by
  induction n generalizing metrics history with
  | zero => exact ⟨[], rfl, by simp, rfl⟩
  | succ n ih =>
    obtain ⟨metrics', history', hrun⟩ := run_round metrics history
    obtain ⟨x, hx, hrota⟩ := rota_round metrics history
    obtain ⟨xs, hlength, hxs, hrest⟩ := ih metrics' history'
    refine ⟨x :: xs, by simp [hlength], by simpa using ⟨hx, hxs⟩, ?_⟩
    rw [List.replicate_succ, List.flatten_cons, System.rota_append, hrun, hrota, hrest]
    rfl

end Starving

namespace Reachable

/-- Two messages go to the stream to the remote side, which was closed and opened again between
them, and none to the accepted stream, which was there all the time and had nothing to send. -/
theorem passed_over :
    ∃ (y : System (Recording (List (Reply Nat)))) (actions : List Action) (x z : Turn) (p : Peer),
      Reachable Net.welcoming.recorded (.fresh [.ok 7]) y ∧
      y.rota Net.welcoming.recorded actions = [.turn x, .left Token.outbound, .turn z] ∧
      x.recipient = .peer Token.outbound 0 ∧ z.recipient = .peer Token.outbound 2 ∧
      p.unsent = 0 ∧ (Token.firstInbound, p) ∈ x.streams.peers ∧
      (Token.firstInbound, p) ∈ z.streams.peers := by
  let actions := Starving.round ++ [.submit .bare, .proceed, .proceed, .proceed]
  let p : Peer := { conn := 1 }
  obtain ⟨y, h, hy⟩ := exists_of_run Net.welcoming.recorded (.fresh [.ok 7]) "tcp://127.0.0.1:0"
    "tcp://10.9.8.7:30010" { reconnectIntervalMs := 0 } Action.twoPeers
    (fun y => (y.rota Net.welcoming.recorded actions).map (fun e =>
        (e == .left Token.outbound, e.turn?.map fun x =>
          (x.recipient, x.streams.peers.contains (Token.firstInbound, p)))) ==
      [(false, some (.peer Token.outbound 0, true)), (true, none),
        (false, some (.peer Token.outbound 2, true))])
    (by cbv)
  simp only [beq_iff_eq, List.map_eq_cons_iff, List.map_eq_nil_iff, Prod.mk.injEq,
    Option.map_eq_some_iff, RotaEntry.turn?_eq_some_iff, List.contains_iff_mem] at hy
  obtain ⟨_, _, hrota, ⟨-, x, rfl, hx, hpx⟩, _, _, rfl, ⟨rfl, -⟩, _, _, rfl,
    ⟨-, z, rfl, hz, hpz⟩, rfl⟩ := hy
  exact ⟨y, actions, x, z, p, h, hrota, hx, hz, rfl, hpx, hpz⟩

/-- A peer may get nothing for ever: however many messages are handed over, they may all go to the
stream to the remote side, while an accepted stream that has nothing to send gets none. -/
theorem starved (n : Nat) :
    ∃ (y : System (List (Reply Nat))) (actions : List Action) (xs : List Turn),
      Reachable Net.welcoming [.ok 7] y ∧ xs.length = n ∧ (∀ x ∈ xs, Starving.Starves x) ∧
      y.rota Net.welcoming actions = xs.flatMap fun x => [.turn x, .left Token.outbound] := by
  have hrun : (System.opened? Net.welcoming "tcp://127.0.0.1:0" "tcp://10.9.8.7:30010"
      { reconnectIntervalMs := 0, maxPooledBuilders := 0 } [.ok 7]).map
        (fun y => ((y.run Net.welcoming Action.twoPeers).link,
          (y.run Net.welcoming Action.twoPeers).stage)) =
      some (Starving.link { peersAccepted := 1 }, .head) := by cbv
  obtain ⟨y, hopened, hy⟩ := Option.map_eq_some_iff.1 hrun
  obtain ⟨hlink, hstage⟩ := Prod.mk.inj hy
  obtain ⟨xs, hlength, hxs, hrota⟩ := Starving.exists_rounds n { peersAccepted := 1 }
    (y.run Net.welcoming Action.twoPeers).history
  refine ⟨y.run Net.welcoming Action.twoPeers, (List.replicate n Starving.round).flatten, xs,
    (opened hopened).run _, hlength, hxs, ?_⟩
  rw [← hrota, ← hlink, ← hstage]

end Reachable

end ArmStream
