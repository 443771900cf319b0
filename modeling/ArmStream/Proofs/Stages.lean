import ArmStream.Proofs.Moves

/-!
# The stages of the loop as moves

Each stage of the loop on a stream link is a sequence of moves. The messages that it hands over
and the offers that it makes are those of the moves, in the same order.

## Main statements

- `Moves.handOnStreams`: handing messages on.
- `Moves.react`: the reaction to an event.
- `Moves.reopen`: opening the stream to the remote side again.
-/

namespace ArmStream

variable {σ : Type}

/-! ## Calls that the loop makes -/

theorem LinkState.hurry_cases (net : Net σ) (s : LinkState σ) (conn : Conn) :
    (s.hurry net conn).loopDied = true ∨
      ∃ w, net.Quiet s.world w ∧ s.hurry net conn = { s with world := w } := by
  unfold hurry
  split
  next w _ => exact .inl rfl
  next w _ h => exact .inr ⟨w, .setNodelay h, rfl⟩

theorem LinkState.quiets_opening (net : Net σ) (conn : Conn) (w : σ) :
    net.Quiets w (opening net conn w).2 := by
  unfold opening
  split
  next w' h => exact .single (.takeError h)
  next w' h => exact .single (.takeError h)
  next w' h => exact .single (.takeError h)
  next w' h =>
    have herror : net.Quiets w w' := .single (.takeError h)
    split
    next h' => exact herror.tail (.peerAddress h')
    next h' => exact herror.tail (.peerAddress h')
    next h' => exact herror.tail (.peerAddress h')
    next h' => exact herror.tail (.peerAddress h')

theorem Peer.quiets_discardInput (net : Net σ) (conn : Conn) (fuel : Nat) (w : σ) (count : Nat) :
    net.Quiets w (discardInput net conn fuel w count).1 := by
  induction fuel generalizing w count with
  | zero => exact .refl
  | succ fuel ih =>
    unfold discardInput
    split
    next bytes w' h =>
      split
      · exact .single (.read h)
      · exact .head (.read h) (ih _ _)
    next w' h => exact .single (.read h)
    next w' h => exact .head (.read h) (ih _ _)
    next w' h => exact .single (.read h)
    next w' h => exact .single (.read h)

namespace Moves

variable (net : Net σ)

/-! ## Accepting streams -/

theorem welcome {s : LinkState σ} {t : Streams} {d : List Token} {conn : Conn} {w : σ}
    (ht : t.Sound) (haccept : net.accept s.world = (.ok conn, w)) :
    Moves net ⟨s, t, d⟩ []
      ⟨(LinkState.welcome net { s with world := w } t conn).1,
        (LinkState.welcome net { s with world := w } t conn).2, d⟩ := by
  unfold LinkState.welcome LinkState.registerStream
  dsimp only
  split
  next w' h => exact died rfl
  next e w' h =>
    have hcalls : net.Quiets s.world (net.close conn w') :=
      ((Relation.ReflTransGen.single (.accept haccept)).tail (.register h)).tail (.close conn)
    exact (calls hcalls).trans (single .turnedAway)
  next w' h =>
    rcases LinkState.hurry_cases net { s with world := w' } conn with hdied | ⟨w'', hquiet, heq⟩
    · exact died (by simp [hdied])
    · have hcalls : net.Quiets w w'' := (Relation.ReflTransGen.single (.register h)).tail hquiet
      rw [heq]
      split
      next hdied => exact died hdied
      next =>
        simpa only [Streams.setPeer, Streams.insertPeer_nextToken ht] using
          single (.welcomed haccept hcalls)

theorem welcomeAll {s : LinkState σ} {t : Streams} {d : List Token} (fuel : Nat) (ht : t.Sound) :
    Moves net ⟨s, t, d⟩ []
      ⟨(LinkState.welcomeAll net fuel s t).1, (LinkState.welcomeAll net fuel s t).2, d⟩ := by
  induction fuel generalizing s t with
  | zero => exact .refl _
  | succ fuel ih =>
    unfold LinkState.welcomeAll
    split
    next conn w haccept =>
      have hmoves := welcome net (d := d) ht haccept
      dsimp only
      split
      next hdied => exact died hdied
      next halive =>
        exact hmoves.trans (ih (hmoves.sound (by simpa using halive) ht))
    next w haccept => exact (single (.called (.accept haccept))).trans (ih ht)
    next w haccept => exact single (.called (.accept haccept))
    next w haccept => exact died rfl

/-! ## The stream to the remote side -/

theorem settleOutbound {s : LinkState σ} {t : Streams} {d : List Token} (e : Event)
    (ht : t.Sound) :
    Moves net ⟨s, t, d⟩ []
      ⟨(s.settleOutbound net t e).1, (s.settleOutbound net t e).2, d⟩ := by
  unfold LinkState.settleOutbound
  split
  next conn hconn =>
    split
    next =>
      have hopening := LinkState.quiets_opening net conn s.world
      unfold LinkState.settleOpening
      split
      next w h => exact died rfl
      next w h =>
        rw [h] at hopening
        exact calls hopening
      next w h =>
        rw [h] at hopening
        rcases LinkState.hurry_cases net { s with world := w } conn with hdied | ⟨w', hquiet, heq⟩
        · exact died (by simp [hdied])
        · simp only [heq]
          split
          next hdied => exact died hdied
          next =>
            have hmove : Move net ⟨{ s with world := w' }, t, d⟩ [] _ := .connected hconn
            have hout := (ht.not_mem_of_connecting hconn).2
            simpa only [Streams.setPeer, Streams.insertPeer_outbound ht hout, List.append_nil] using
              (calls (hopening.tail hquiet)).trans (single hmove)
      next w h =>
        rw [h] at hopening
        dsimp only
        split
        next w' hcall => exact died rfl
        next w' hcall =>
          have hcalls := (hopening.tail (Net.Quiet.deregister hcall)).tail (.close conn)
          exact (calls hcalls).trans (single (.refused _ hconn))
    next => exact .refl _
  next => exact .refl _

theorem reopen {s : LinkState σ} {t : Streams} (hcarrier : s.carrier = .streams t) :
    ∃ t', (s.reopen net).carrier = .streams t' ∧
      Moves net ⟨s, t, []⟩ [] ⟨s.reopen net, t', []⟩ := by
  unfold LinkState.reopen
  simp only [hcarrier]
  split
  next => exact ⟨t, hcarrier, .refl _⟩
  next due hdue =>
    split
    next => exact ⟨t, hcarrier, .refl _⟩
    next =>
      dsimp only [LinkState.registerStream]
      split
      next w h => exact ⟨_, rfl, died rfl⟩
      next w h =>
        exact ⟨_, rfl, (single (.postponed _ hdue (.single (.connect h)))).trans (single .settled)⟩
      next conn w h =>
        split
        next w' h' => exact ⟨_, rfl, died rfl⟩
        next w' h' =>
          have hcalls : net.Quiets s.world (net.close conn w') :=
            ((Relation.ReflTransGen.single (.connect h)).tail (.register h')).tail (.close conn)
          exact ⟨_, rfl, (single (.postponed _ hdue hcalls)).trans (single .settled)⟩
        next w' h' =>
          exact ⟨_, rfl, (single (.reopened hdue h (.single (.register h')))).trans
            (single .settled)⟩

/-! ## Parting with peers -/

theorem part {s : LinkState σ} {t : Streams} {d : List Token} {k : Token} {p : Peer}
    (ht : t.Sound) (hp : t.peer? k = some p) :
    Moves net ⟨s, t, d⟩ []
      ⟨(s.part net t k).1, (s.part net t k).2, d.filter (· ≠ k)⟩ := by
  obtain ⟨pre, post, hpeers⟩ := Streams.exists_split_of_peer? hp
  unfold LinkState.part
  simp only [hp, Streams.erasePeer_of_split ht hpeers]
  split
  next w h => exact died rfl
  next w _ h =>
    have hcalls : net.Quiets s.world (net.close p.conn w) :=
      (Relation.ReflTransGen.single (.deregister h)).tail (.close p.conn)
    exact (calls hcalls).trans (single (.parted _ hpeers))

theorem mem_tokens_part {s : LinkState σ} {t : Streams} {j k : Token} (hj : j ∈ t.tokens)
    (hne : j ≠ k) : j ∈ (s.part net t k).2.tokens := by
  unfold LinkState.part
  split
  next => exact hj
  next => split <;> exact Streams.mem_tokens_erasePeer hj hne

theorem partAll {s : LinkState σ} {t : Streams} {tokens : List Token} (ht : t.Sound)
    (hlive : s.loopDied = false) (hmem : ∀ k ∈ tokens, k ∈ t.tokens) (hnodup : tokens.Nodup) :
    Moves net ⟨s, t, tokens⟩ []
      ⟨(s.partAll net t tokens).1, (s.partAll net t tokens).2, []⟩ := by
  induction tokens generalizing s t with
  | nil => exact .refl _
  | cons k rest ih =>
    obtain ⟨hk, hrest⟩ := List.nodup_cons.1 hnodup
    obtain ⟨p, hp⟩ := Streams.exists_peer?_of_mem (hmem k (by simp))
    have hne : ∀ j ∈ rest, j ≠ k := fun j hj heq => hk (heq ▸ hj)
    have hpart := part net (s := s) (d := k :: rest) ht hp
    have hdoomed : (k :: rest).filter (· ≠ k) = rest := by
      simpa using hne
    rw [hdoomed] at hpart
    simp only [LinkState.partAll, hlive, Bool.false_eq_true, if_false]
    cases hdied : (s.part net t k).1.loopDied with
    | true =>
      cases rest with
      | nil => exact hpart
      | cons => exact died (by simp [LinkState.partAll, hdied])
    | false =>
      exact hpart.trans (ih (hpart.sound hdied ht) hdied
        (fun j hj => mem_tokens_part net (hmem j (by simp [hj])) (hne j hj)) hrest)

/-! ## Offering bytes to peers -/

theorem offered {s : LinkState σ} {t : Streams} {d : List Token} {k : Token} {p : Peer}
    {pre post : List (Token × Peer)} (hpeers : t.peers = pre ++ (k, p) :: post) (hk : k ∉ d) :
    Moves net ⟨s, t, d⟩ [.offered (.made p (p.flush net s.world))]
      ⟨(s.noteWritten (p.flush net s.world)).1,
        { t with peers := pre ++ (k, (p.flush net s.world).peer) :: post },
        if (s.noteWritten (p.flush net s.world)).2 then d else d ++ [k]⟩ := by
  have hmove : _ → Move net ⟨s, t, d⟩ _ _ := .offered hpeers hk
  cases hr : (p.flush net s.world).outcome with
  | settled => simpa [LinkState.noteWritten, hr] using single (hmove (by simp [hr]))
  | failed e => simpa [LinkState.noteWritten, hr] using single (hmove (by simp [hr]))
  | died => exact died (by simp [LinkState.noteWritten, hr])

/-- The peers in `todo` are offered their bytes; those in `pre` come before them. -/
theorem offerAll {s : LinkState σ} {t : Streams} {d : List Token}
    {pre todo : List (Token × Peer)} (hpeers : t.peers = pre ++ todo)
    (hd : ∀ q ∈ todo, q.1 ∉ d) (hnodup : (todo.map Prod.fst).Nodup) :
    Moves net ⟨s, t, d⟩ ((s.offersTo net todo).map .offered)
      ⟨(s.offerAll net todo).1, { t with peers := pre ++ (s.offerAll net todo).2.1 },
        d ++ (s.offerAll net todo).2.2⟩ := by
  induction todo generalizing s t d pre with
  | nil =>
    simpa [LinkState.offersTo, LinkState.offerAll, ← hpeers] using Moves.refl (Working.mk s t d)
  | cons q rest ih =>
    obtain ⟨k, p⟩ := q
    obtain ⟨hk, hrest⟩ := List.nodup_cons.1 hnodup
    unfold LinkState.offersTo LinkState.offerAll
    split
    next hdied => simpa [← hpeers] using Moves.refl (Working.mk s t d)
    next hlive =>
      have hmove := offered net (s := s) hpeers (hd (k, p) (by simp))
      have hne : ∀ r ∈ rest, r.1 ≠ k := fun r hr heq =>
        hk (List.mem_map.2 ⟨r, hr, heq⟩)
      have hsplit : pre ++ (k, (p.flush net s.world).peer) :: rest =
          (pre ++ [(k, (p.flush net s.world).peer)]) ++ rest := by simp
      have htail := ih (s := (s.noteWritten (p.flush net s.world)).1)
        (t := { t with peers := pre ++ (k, (p.flush net s.world).peer) :: rest })
        (d := if (s.noteWritten (p.flush net s.world)).2 then d else d ++ [k])
        hsplit (by grind) hrest
      have hall := hmove.trans htail
      cases hkept : (s.noteWritten (p.flush net s.world)).2 <;>
        simpa [hkept] using hall

/-- The tokens of the peers whose write failed are tokens of peers that were offered bytes. -/
theorem failed_sublist (s : LinkState σ) (todo : List (Token × Peer)) :
    (s.offerAll net todo).2.2.Sublist (todo.map Prod.fst) := by
  induction todo generalizing s with
  | nil => exact .refl _
  | cons q rest ih =>
    unfold LinkState.offerAll
    split
    next => exact List.nil_sublist _
    next =>
      dsimp only
      split
      · exact (ih _).cons _
      · exact (ih _).cons_cons _

theorem map_fst_offerAll (s : LinkState σ) (todo : List (Token × Peer)) :
    (s.offerAll net todo).2.1.map Prod.fst = todo.map Prod.fst := by
  induction todo generalizing s with
  | nil => rfl
  | cons q rest ih =>
    unfold LinkState.offerAll
    split
    next => rfl
    next => simp [ih]

/-! ## Handing messages on -/

theorem handOver {s s' : LinkState σ} {t t' : Streams} {d : List Token} (ht : t.Sound)
    (h : s.handOver? t = some (s', t')) :
    ∃ b, s.outbox = b :: s'.outbox ∧ s'.loopDied = s.loopDied ∧
      Moves net ⟨s, t, d⟩ [.handed b (s.recipient t)] ⟨s', t', d⟩ := by
  unfold LinkState.handOver? at h
  split at h
  next => simp at h
  next b rest houtbox =>
    split at h
    next => simp at h
    next k p hturn =>
      obtain ⟨pre, post, hpeers⟩ := Streams.exists_split_of_turn? hturn
      refine ⟨b, ?_⟩
      cases hbytes : b.bytes with
      | error e =>
        simp only [hbytes, Option.some.injEq, Prod.mk.injEq] at h
        obtain ⟨rfl, rfl⟩ := h
        refine ⟨by simp [houtbox, LinkState.countDropped], by simp [LinkState.countDropped], ?_⟩
        have hrecipient : s.recipient t = .nobody := by
          simp [LinkState.recipient, houtbox, hturn, hbytes]
        rw [hrecipient]
        exact single (.withheld houtbox hturn (by simp [hbytes]))
      | ok bytes =>
        cases hpush : p.push? bytes with
        | none =>
          simp only [hbytes, hpush, Option.some.injEq, Prod.mk.injEq] at h
          obtain ⟨rfl, rfl⟩ := h
          refine ⟨by simp [houtbox, LinkState.countDropped], by simp [LinkState.countDropped], ?_⟩
          have hrecipient : s.recipient t = .nobody := by
            simp [LinkState.recipient, houtbox, hturn, hbytes, hpush]
          rw [hrecipient]
          exact single (.withheld houtbox hturn (by simp [hbytes, hpush]))
        | some p' =>
          simp only [hbytes, hpush, Option.some.injEq, Prod.mk.injEq] at h
          obtain ⟨rfl, rfl⟩ := h
          refine ⟨by simp [houtbox], by simp, ?_⟩
          have hrecipient : s.recipient t = .peer k p.conn := by
            simp [LinkState.recipient, houtbox, hturn, hbytes, hpush]
          rw [hrecipient, Streams.setPeer]
          simpa only [Streams.insertPeer_of_split ht hpeers] using
            single (.handedOver houtbox hturn hpeers hbytes hpush)

/-- The messages that leave the outbox are its oldest ones, in order. -/
theorem handOverAll {s : LinkState σ} {t : Streams} {d : List Token} (fuel : Nat) (ht : t.Sound)
    (hlive : s.loopDied = false) :
    (LinkState.handOverAll fuel s t).1.loopDied = false ∧
      Moves net ⟨s, t, d⟩ (List.zipWith .handed s.outbox (LinkState.recipients fuel s t))
        ⟨(LinkState.handOverAll fuel s t).1, (LinkState.handOverAll fuel s t).2, d⟩ := by
  induction fuel generalizing s t with
  | zero => exact ⟨hlive, by simpa [LinkState.recipients, LinkState.handOverAll] using refl _⟩
  | succ fuel ih =>
    unfold LinkState.handOverAll LinkState.recipients
    cases h : s.handOver? t with
    | none => exact ⟨hlive, by simpa using refl _⟩
    | some r =>
      obtain ⟨s', t'⟩ := r
      obtain ⟨b, houtbox, hdied, hmoves⟩ := handOver net (d := d) ht h
      have hlive' := hdied.trans hlive
      obtain ⟨hend, hrest⟩ := ih (hmoves.sound hlive' ht) hlive'
      refine ⟨hend, ?_⟩
      rw [houtbox]
      exact hmoves.trans hrest

theorem handOnStreams {s : LinkState σ} {t : Streams} (ht : t.Sound)
    (hlive : s.loopDied = false) (hcarrier : s.carrier = .streams t) :
    ∃ t', (s.handOnStreams net t).carrier = .streams t' ∧
      Moves net ⟨s, t, []⟩
        (List.zipWith .handed s.outbox (s.departures net) ++ (s.offers net).map .offered)
        ⟨s.handOnStreams net t, t', []⟩ := by
  obtain ⟨hlive₁, hhanded⟩ := handOverAll net (d := []) s.outbox.length ht hlive
  have ht₁ := hhanded.sound hlive₁ ht
  unfold LinkState.handOnStreams LinkState.departures LinkState.offers
  simp only [hcarrier]
  generalize LinkState.handOverAll s.outbox.length s t = r₁ at *
  obtain ⟨s₁, t₁⟩ := r₁
  have hnodup : (t₁.peers.map Prod.fst).Nodup := ht₁.ascending.imp Nat.ne_of_lt
  have hoffered := offerAll net (s := s₁) (t := t₁) (d := []) (List.nil_append t₁.peers).symm
    (by simp) hnodup
  have hfailed := failed_sublist net s₁ t₁.peers
  have htokens := map_fst_offerAll net s₁ t₁.peers
  simp only [List.nil_append] at hoffered
  generalize LinkState.offerAll net s₁ t₁.peers = r₂ at *
  obtain ⟨s₂, peers, failed⟩ := r₂
  refine ⟨_, rfl, ?_⟩
  have hmoves := hhanded.trans hoffered
  cases hdied : s₂.loopDied with
  | true =>
    apply died
    cases failed <;> simp [LinkState.partAll, hdied]
  | false =>
    have ht₂ := hmoves.sound hdied ht
    have hparted := partAll net ht₂ hdied
      (fun k hk => by
        have := hfailed.mem hk
        rwa [Streams.tokens, htokens])
      (hfailed.nodup hnodup)
    simpa using (hmoves.trans hparted).trans (single .settled)

/-! ## Reacting to events -/

/-- Reading only calls the network and counts bytes. -/
theorem hear {s : LinkState σ} {t : Streams} {d : List Token} (e : Event) (p : Peer) :
    Moves net ⟨s, t, d⟩ [] ⟨(s.hear net e p).1, t, d⟩ := by
  unfold LinkState.hear
  split
  next =>
    have hquiets := Peer.quiets_discardInput net p.conn (net.patience s.world) s.world 0
    unfold LinkState.readPeer
    split
    next w count h =>
      rw [h] at hquiets
      exact (calls hquiets).trans (single (.received count))
    next w count h =>
      rw [h] at hquiets
      exact (calls hquiets).trans (single (.received count))
    next w count h => exact died rfl
  next => exact .refl _

theorem servePeer {s : LinkState σ} {t : Streams} {e : Event} {p : Peer} (ht : t.Sound)
    (hp : t.peer? e.token = some p) :
    Moves net ⟨s, t, []⟩
      (if !(s.hear net e p).1.loopDied && (s.hear net e p).2 && e.writable then
        [.offered (.made p (p.flush net (s.hear net e p).1.world))] else [])
      ⟨(s.servePeer net t e p).1, (s.servePeer net t e p).2, []⟩ := by
  have hheard := hear net (s := s) (t := t) (d := []) e p
  unfold LinkState.servePeer
  generalize s.hear net e p = r at *
  obtain ⟨s₁, alive⟩ := r
  dsimp only at *
  cases hdied : s₁.loopDied with
  | true => exact died (by simpa using hdied)
  | false =>
    cases hwrite : alive && e.writable with
    | false =>
      cases alive with
      | true => simpa [hdied, hwrite] using hheard
      | false => simpa [hdied, hwrite] using hheard.trans (part net (d := []) ht hp)
    | true =>
      obtain ⟨pre, post, hpeers⟩ := Streams.exists_split_of_peer? hp
      have hoffered := hheard.trans (offered net (d := []) hpeers (by simp))
      have ht₂ := ht.replace hpeers (p.flush net s₁.world).peer
      simp only [Streams.setPeer, Streams.insertPeer_of_split ht hpeers]
      cases hkept : (s₁.noteWritten (p.flush net s₁.world)).2 with
      | true => simpa [hdied, hwrite, hkept] using hoffered
      | false =>
        cases hdied₂ : (s₁.noteWritten (p.flush net s₁.world)).1.loopDied with
        | true => exact died (by simp [hdied₂])
        | false =>
          have hp₂ : ({ t with
              peers := pre ++ (e.token, (p.flush net s₁.world).peer) :: post } : Streams).peer?
              e.token = some (p.flush net s₁.world).peer := Streams.peer?_of_split ht₂ rfl
          simpa [hdied, hwrite, hkept, hdied₂] using hoffered.trans (part net ht₂ hp₂)

theorem reactStream {s : LinkState σ} {t : Streams} (e : Event) (ht : t.Sound)
    (hcarrier : s.carrier = .streams t) (hlive : s.loopDied = false)
    (hwaker : e.token ≠ Token.waker) (hlistener : e.token ≠ Token.listener) :
    Moves net ⟨s, t, []⟩ ((s.answers net e).map .offered)
      ⟨(s.reactStream net t e).1, (s.reactStream net t e).2, []⟩ := by
  have hsettled := settleOutbound net (s := s) (d := []) e ht
  unfold LinkState.reactStream LinkState.answers
  simp only [hcarrier, hlive, hwaker, hlistener, decide_false, Bool.or_self, Bool.false_eq_true,
    if_false]
  generalize s.settleOutbound net t e = r at *
  obtain ⟨s₁, t₁⟩ := r
  dsimp only at *
  cases hdied : s₁.loopDied with
  | true => exact died (by simpa using hdied)
  | false =>
    have ht₁ := hsettled.sound hdied ht
    cases hp : t₁.peer? e.token with
    | none => simpa [hdied, hp] using hsettled
    | some p =>
      have hserved := hsettled.trans (servePeer net ht₁ hp)
      simp only [Bool.false_eq_true, if_false, Bool.not_false, Bool.true_and]
      split at hserved <;> simpa [*] using hserved

theorem react {s : LinkState σ} {t : Streams} (e : Event) (ht : t.Sound)
    (hcarrier : s.carrier = .streams t) (hlive : s.loopDied = false) :
    ∃ t', (s.react net e).carrier = .streams t' ∧
      Moves net ⟨s, t, []⟩ ((s.answers net e).map .offered) ⟨s.react net e, t', []⟩ := by
  by_cases hwaker : e.token = Token.waker
  · refine ⟨t, by simp [LinkState.react, hwaker, hcarrier], ?_⟩
    simpa [LinkState.react, LinkState.answers, hcarrier, hwaker] using refl _
  by_cases hlistener : e.token = Token.listener
  · have hreact : s.react net e =
        { (LinkState.welcomeAll net (net.patience s.world) s t).1 with
          carrier := .streams (LinkState.welcomeAll net (net.patience s.world) s t).2 } := by
      rw [hlistener] at hwaker
      simp [LinkState.react, hlive, hwaker, hlistener, hcarrier]
    have hanswers : s.answers net e = [] := by
      simp [LinkState.answers, hcarrier, hlistener]
    rw [hreact, hanswers]
    exact ⟨_, rfl, (welcomeAll net _ ht).trans (single .settled)⟩
  · have hreact : s.react net e =
        { (s.reactStream net t e).1 with carrier := .streams (s.reactStream net t e).2 } := by
      simp [LinkState.react, hlive, hwaker, hlistener, hcarrier]
    have hmoves := reactStream net e ht hcarrier hlive hwaker hlistener
    rw [hreact]
    exact ⟨_, rfl, by simpa using hmoves.trans (single .settled)⟩

end Moves

end ArmStream
