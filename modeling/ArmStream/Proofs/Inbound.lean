import Mathlib
import ArmStream.Proofs.Lockstep

/-!
# What arrives does not change what leaves

Two runs of a link get the same submissions and the same events, and every call is answered alike,
but what can be read differs: other bytes, other numbers of bytes, in more or fewer pieces. As long
as reading comes to the same end each time, the runs cannot be told apart by what they send: each
offer to a socket is the same and is taken alike, and at any time the links are equal but for the
count of bytes received.

## Main definitions

- `System.Paired`: two systems whose links differ in their worlds only.
- `Net.Alike`: two networks that differ in what can be read.
- `Tap`, `Net.tapped`: what went out and how much came in.
- `System.OutwardlyEqual`: two systems that differ in what they received.

## Main statements

- `System.Paired.step`, `System.Paired.run`: actions keep systems paired.
- `Net.Alike.lockstep`: calls and reads are recorded alike.
- `System.outwardlyEqual_of_alike`: what arrives does not change what leaves.
-/

namespace ArmStream

variable {σ τ : Type}

/-! ## Opening -/

namespace Net.Lockstep

variable {net : Net σ} {net' : Net τ} {R : σ × Nat → τ × Nat → Prop} {w : σ} {v : τ} {k m : Nat}

/-- Calls in a sequence give the same answer if each of them does. -/
theorem chain {α β : Type} {a : Reply α × σ} {a' : Reply α × τ} {f : α → σ → Reply β × σ}
    {f' : α → τ → Reply β × τ} {Q : σ → τ → Prop} (h : Agree Q a a')
    (hrest : ∀ {x w v}, Q w v → Agree Q (f x w) (f' x v)) :
    Agree Q (Reply.chain a f) (Reply.chain a' f') := by
  obtain ⟨r, w, v, rfl, rfl, hQ⟩ := h
  cases r with
  | ok x => exact hrest hQ
  | fail => exact .mk hQ
  | fatal => exact .mk hQ

variable (hnet : net.Lockstep net' R)

include hnet

theorem connect (near far : Endpoint) (a b : SocketAddress) (hR : R (w, k) (v, m)) :
    Agree (fun w v => R (w, k) (v, m)) (Channel.connect net near far a b w)
      (Channel.connect net' near far a b v) := by
  obtain ⟨r, w₁, v₁, hl, hr, hR₁⟩ := hnet.call (.bind near.scheme a) hR
  unfold Channel.connect
  simp only [hl, hr]
  rcases r with _ | e | _
  · cases near.scheme with
    | tcp =>
      obtain ⟨r', w₂, v₂, hl₂, hr₂, hR₂⟩ := hnet.call (.connect b) hR₁
      simp only [hl₂, hr₂]
      rcases r' with conn | e | _
      · exact .mk hR₂
      · exact .mk hR₂
      · exact .mk (hnet.closeAll hR₂)
    | udp =>
      obtain ⟨r', w₂, v₂, hl₂, hr₂, hR₂⟩ := hnet.call (.aim b) hR₁
      simp only [hl₂, hr₂]
      rcases r' with _ | e | _
      · exact .mk hR₂
      · exact .mk (hnet.closeAll hR₂)
      · exact .mk (hnet.closeAll hR₂)
  · exact .mk hR₁
  · exact .mk hR₁

theorem openBetween (near far : String) (hR : R (w, k) (v, m)) :
    Agree (fun w v => R (w, k) (v, m)) (Channel.openBetween net near far w)
      (Channel.openBetween net' near far v) := by
  unfold Channel.openBetween
  rcases parseBoth near far with e | ⟨a, b⟩
  · exact .mk hR
  · simp only [hnet.names_eq hR]
    rcases resolveBoth (net.names w) a b with e | ⟨near', far'⟩
    · exact .mk hR
    · exact hnet.connect a b near' far' hR

theorem watch (channel : Channel) (hR : R (w, k) (v, m)) :
    Agree (fun w v => R (w, k) (v, m)) (LinkState.watch net channel w)
      (LinkState.watch net' channel v) := by
  unfold LinkState.watch
  cases channel.near.scheme with
  | udp => exact hnet.call (.register .datagrams Token.outbound) hR
  | tcp =>
    refine chain (hnet.call (.register .listener Token.listener) hR) fun {_ w v} hR => ?_
    cases channel.outbound with
    | none => exact .mk hR
    | some conn => exact hnet.call (.register (.stream conn) Token.outbound) hR

theorem prepare (channel : Channel) (hR : R (w, k) (v, m)) :
    Agree (fun w v => R (w, k) (v, m)) (LinkState.prepare net channel w)
      (LinkState.prepare net' channel v) :=
  chain (hnet.call .newPoll hR) fun hR =>
  chain (hnet.call .newWaker hR) fun hR =>
  chain (hnet.call .boundAddress hR) fun hR =>
  chain (hnet.watch channel hR) fun hR => .mk hR

end Net.Lockstep

/-! ## Systems -/

namespace System

variable {net : Net σ} {net' : Net τ} {R : σ × Nat → τ × Nat → Prop}

/-- Two systems are at the same stage and have the same history, and their links are equal but for
their worlds and the bytes received. -/
structure Paired (R : σ × Nat → τ × Nat → Prop) (y : System σ) (y' : System τ) : Prop where
  link : Twin R y.link y'.link
  stage : y'.stage = y.stage
  history : y'.history = y.history

namespace Paired

variable {y : System σ} {y' : System τ} {s : LinkState σ} {s' : LinkState τ}
  (hnet : net.Lockstep net' R)

include hnet

theorem enter (hhistory : y'.history = y.history) (h : Twin R s s') (next : Stage) :
    Paired R (y.enter net s next) (y'.enter net' s' next) := by
  unfold System.enter
  rw [h.loopDied_eq]
  by_cases hdied : s.loopDied = true
  · rw [if_pos hdied, if_pos hdied]
    exact ⟨hnet.vanish h, rfl, hhistory⟩
  · rw [if_neg hdied, if_neg hdied]
    exact ⟨h, rfl, hhistory⟩

/-- The next stage of the loop keeps systems paired. -/
theorem proceed (h : Paired R y y') : Paired R (y.proceed net) (y'.proceed net') := by
  obtain ⟨s, _, _⟩ := y
  obtain ⟨s', stage, history⟩ := y'
  obtain ⟨hlink, hstage, hhistory⟩ := h
  dsimp only at hlink hstage hhistory
  subst hstage hhistory
  -- What is kept, handed on and offered goes into the history, so twin links are not enough there.
  cases stage with
  | head => exact ⟨hlink, by simp only [System.proceed, hlink.stopped_eq], rfl⟩
  | taking =>
    have htaken := hlink.takeSubmissions
    refine ⟨htaken, rfl, ?_⟩
    simp only [System.proceed, hlink.outbox_eq, htaken.outbox_eq]
  | handing =>
    obtain ⟨hhanded, hdepartures, hoffers⟩ := hnet.handOn hlink
    refine enter hnet ?_ hhanded _
    simp only [hdepartures, hoffers]
  | resting => exact ⟨hlink, by simp only [System.proceed, hlink.isIdle_eq], rfl⟩
  | reacting events =>
    cases events with
    | nil => exact ⟨hlink, rfl, rfl⟩
    | cons e rest =>
      refine enter hnet ?_ (hnet.react hlink e) _
      simp only [hnet.answers hlink e]
  | reopening => exact enter hnet rfl (hnet.reopen hlink) _
  | leaving why => exact ⟨hnet.leave hlink, rfl, rfl⟩
  | waiting => exact ⟨hlink, rfl, rfl⟩
  | ended => exact ⟨hlink, rfl, rfl⟩
  | died => exact ⟨hlink, rfl, rfl⟩

theorem answer (h : Paired R y y') (r : Reply (List Event)) :
    Paired R (y.answer net r) (y'.answer net' r) := by
  cases r with
  | fatal =>
    refine enter hnet h.history ?_ _
    obtain ⟨v, m, hplace, hR⟩ := h.link
    exact ⟨v, m, by rw [hplace]; rfl, hR⟩
  | fail e => cases e <;> exact ⟨h.link, rfl, h.history⟩
  | ok events => exact ⟨h.link, rfl, h.history⟩

/-- An action keeps systems paired. -/
theorem step (h : Paired R y y') (action : Action) :
    Paired R (y.step net action) (y'.step net' action) := by
  cases action with
  | submit b =>
    obtain ⟨s, s', answer, hl, hr, hlink⟩ := hnet.submit h.link b
    simp only [System.step, hl, hr, h.history]
    exact ⟨hlink, h.stage, rfl⟩
  | acquire => exact ⟨h.link.acquire, h.stage, h.history⟩
  | guard => exact ⟨h.link.guard, h.stage, h.history⟩
  | dropGuard => exact ⟨hnet.dropGuard h.link, h.stage, h.history⟩
  | stop => exact ⟨hnet.stop h.link, h.stage, h.history⟩
  | proceed => exact h.proceed hnet
  | wake r =>
    simp only [System.step, h.stage]
    by_cases hwaiting : y.stage = .waiting
    · simp only [hwaiting, if_true]
      exact h.answer hnet r
    · simp only [hwaiting, if_false]
      exact h

/-- A run keeps systems paired. -/
theorem run (h : Paired R y y') (actions : List Action) :
    Paired R (y.run net actions) (y'.run net' actions) := by
  induction actions generalizing y y' with
  | nil => exact h
  | cons action rest ih => exact ih (h.step hnet action)

end Paired

/-- Opening has the same outcome on both sides. -/
theorem paired_of_opened? (hnet : net.Lockstep net' R) (near far : String) (config : LinkConfig)
    {w : σ} {v : τ} (hR : R (w, 0) (v, 0)) :
    (opened? net near far config w = none ∧ opened? net' near far config v = none) ∨
    ∃ y y', opened? net near far config w = some y ∧ opened? net' near far config v = some y' ∧
      Paired R y y' := by
  obtain ⟨o, w₁, v₁, hl, hr, hR₁⟩ := hnet.openBetween near far hR
  unfold opened?
  simp only [hl, hr]
  rcases o with channel | e | _
  · obtain ⟨r, w₂, v₂, hl₂, hr₂, hR₂⟩ := hnet.prepare channel hR₁
    simp only [LinkState.ofChannel, hl₂, hr₂]
    rcases r with address | e | _
    · refine .inr ⟨_, _, rfl, rfl, ⟨v₂, 0, ?_, hR₂⟩, rfl, rfl⟩
      simp only [hnet.now_eq hR₂]
      rfl
    · exact .inl ⟨rfl, rfl⟩
    · exact .inl ⟨rfl, rfl⟩
  · exact .inl ⟨rfl, rfl⟩
  · exact .inl ⟨rfl, rfl⟩

end System

/-! ## What goes out and what comes in -/

inductive Sending where
  | stream (conn : Conn) (offered : List UInt8) (answer : Reply Nat)
  | datagram (offered : Bytes) (answer : Reply Nat)
  deriving DecidableEq, Repr, Inhabited

def Net.Call.sendings {α : Type} : Net.Call α → α → List Sending
  | .write conn buffer offset, answer => [.stream conn (buffer.toList.drop offset) answer]
  | .send bytes, answer => [.datagram bytes answer]
  | _, _ => []

def Reply.sizes : Reply Bytes → List Nat
  | .ok bytes => [bytes.size]
  | _ => []

theorem Reply.sum_sizes (source : Source) (r : Reply Bytes) :
    r.sizes.sum = match source.sort r with
      | .got n => n
      | _ => 0 := by
  rcases r with bytes | e | _
  · cases source with
    | stream => by_cases hend : bytes.size = 0 <;> simp [sizes, Source.sort, hend]
    | datagrams => simp [sizes, Source.sort]
  · cases source <;> cases e <;> rfl
  · cases source <;> rfl

/-- A world with what was offered to its sockets, in this order, and the numbers of bytes of the
successful reads. -/
structure Tap (σ : Type) where
  world : σ
  outgoing : List Sending := []
  incoming : List Nat := []

namespace Tap

def fresh (w : σ) : Tap σ := { world := w }

def call (net : Net σ) {α : Type} (c : Net.Call α) (x : Tap σ) : α × Tap σ :=
  let (answer, w) := net.answer c x.world
  (answer, { x with world := w, outgoing := x.outgoing ++ c.sendings answer })

def hear (x : Tap σ) (answer : Reply Bytes × σ) : Reply Bytes × Tap σ :=
  (answer.1, { x with world := answer.2, incoming := x.incoming ++ answer.1.sizes })

end Tap

/-- The network with a tap on it. It answers just as the network itself. -/
def Net.tapped (net : Net σ) : Net (Tap σ) where
  now x := net.now x.world
  patience x := net.patience x.world
  names x := net.names x.world
  bind scheme a := Tap.call net (.bind scheme a)
  connect a := Tap.call net (.connect a)
  aim a := Tap.call net (.aim a)
  boundAddress := Tap.call net .boundAddress
  newPoll := Tap.call net .newPoll
  newWaker := Tap.call net .newWaker
  startThread := Tap.call net .startThread
  register socket token := Tap.call net (.register socket token)
  deregister conn := Tap.call net (.deregister conn)
  wake := Tap.call net .wake
  accept := Tap.call net .accept
  takeError conn := Tap.call net (.takeError conn)
  peerAddress conn := Tap.call net (.peerAddress conn)
  setNodelay conn := Tap.call net (.setNodelay conn)
  read conn len x := x.hear (net.read conn len x.world)
  write conn buffer offset := Tap.call net (.write conn buffer offset)
  send bytes := Tap.call net (.send bytes)
  receive len x := x.hear (net.receive len x.world)
  close conn x := (Tap.call net (.close conn) x).2
  closeAll x := (Tap.call net .closeAll x).2

/-! ## Networks that differ in what can be read -/

namespace Net

/-- Two networks, in related worlds, give the same answers to each call that does not read, the
clock included, and reading comes to the same end on both. What is read may differ, and in how
many pieces. The relation is kept. -/
structure Alike (net : Net σ) (net' : Net τ) (R : σ → τ → Prop) : Prop where
  call : ∀ {α : Type} (c : Call α) {w : σ} {v : τ}, R w v →
    Agree R (net.answer c w) (net'.answer c v)
  hear : ∀ (source : Source) {w : σ} {v : τ}, R w v →
    ∃ e w' v' sizes sizes', net.Hears source sizes e w w' ∧ net'.Hears source sizes' e v v' ∧
      R w' v'

end Net

/-- Related worlds from which the same went out, each with the number of bytes that came in. -/
structure Tap.Level (R : σ → τ → Prop) (p : Tap σ × Nat) (q : Tap τ × Nat) : Prop where
  world : R p.1.world q.1.world
  outgoing : q.1.outgoing = p.1.outgoing
  count : p.2 = p.1.incoming.sum
  count' : q.2 = q.1.incoming.sum

namespace Net

variable {net : Net σ} {net' : Net τ} {R : σ → τ → Prop}

theorem answer_tapped (net : Net σ) {α : Type} (c : Call α) (x : Tap σ) :
    net.tapped.answer c x = Tap.call net c x := by
  cases c with
  | now | patience | names => simp [answer, tapped, Tap.call, Call.sendings]
  | _ => rfl

theorem listen_tapped {source : Source} {r : Reply Bytes} {w : σ} {x : Tap σ}
    (h : net.listen source x.world = (r, w)) :
    net.tapped.listen source x =
      (r, { x with world := w, incoming := x.incoming ++ r.sizes }) := by
  have hhear : net.tapped.listen source x = x.hear (net.listen source x.world) := by
    cases source <;> rfl
  rw [hhear, h]
  rfl

theorem Reads.tapped {source : Source} {n : Nat} {sizes : List Nat} {e : Peer.ReadEnd} {w w' : σ}
    (h : net.Reads source n sizes e w w') {x : Tap σ} (hx : x.world = w) :
    ∃ incoming, net.tapped.Reads source n sizes e x { x with world := w', incoming := incoming } ∧
      incoming.sum = x.incoming.sum + sizes.sum := by
  induction h generalizing x with
  | done hread hsort =>
    subst hx
    exact ⟨_, .done (listen_tapped hread) hsort, by simp [Reply.sum_sizes source, hsort]⟩
  | @again _ w₁ _ r _ _ _ hread hsort _ ih =>
    subst hx
    obtain ⟨incoming, hreads, hsum⟩ :=
      ih (x := { x with world := w₁, incoming := x.incoming ++ r.sizes }) rfl
    exact ⟨incoming, .again (listen_tapped hread) hsort hreads,
      by simp [hsum, Reply.sum_sizes source, hsort]⟩
  | @got _ w₁ _ r _ _ _ _ hread hsort _ ih =>
    subst hx
    obtain ⟨incoming, hreads, hsum⟩ :=
      ih (x := { x with world := w₁, incoming := x.incoming ++ r.sizes }) rfl
    exact ⟨incoming, .got (listen_tapped hread) hsort hreads,
      by simp [hsum, Reply.sum_sizes source, hsort, Nat.add_assoc]⟩

/-- With taps on them, two such networks send alike and count what comes in. -/
theorem Alike.lockstep (h : net.Alike net' R) :
    net.tapped.Lockstep net'.tapped (Tap.Level R) where
  call c x x' k m hlevel := by
    obtain ⟨a, w, v, hl, hr, hR⟩ := h.call c hlevel.world
    dsimp only at hl hr
    rw [answer_tapped, answer_tapped]
    simp only [Tap.call, hl, hr]
    exact .mk ⟨hR, by rw [hlevel.outgoing], hlevel.count, hlevel.count'⟩
  hear source x x' k m hlevel := by
    obtain ⟨e, w, v, sizes, sizes', ⟨n, hn, hl⟩, ⟨n', hn', hr⟩, hR⟩ := h.hear source hlevel.world
    obtain ⟨incoming, hreads, hsum⟩ := hl.tapped rfl
    obtain ⟨incoming', hreads', hsum'⟩ := hr.tapped rfl
    refine ⟨e, _, _, sizes, sizes', ⟨n, hn, hreads⟩, ⟨n', hn', hreads'⟩,
      ⟨hR, hlevel.outgoing, ?_, ?_⟩⟩
    · rw [hsum, ← hlevel.count]
    · rw [hsum', ← hlevel.count']

end Net

namespace System

/-- Two systems at the same stage and with the same history, which offered the same to their
sockets, with the same answers. Their links are equal but for their worlds and the bytes received:
they have the same peers, messages, builders and other counts. As many bytes are counted as the
successful reads returned. -/
structure OutwardlyEqual (y : System (Tap σ)) (y' : System (Tap τ)) : Prop where
  stage : y'.stage = y.stage
  history : y'.history = y.history
  link : y'.link = y.link.place y'.link.world y'.link.metrics.bytesReceived
  outgoing : y'.link.world.outgoing = y.link.world.outgoing
  received : y.link.metrics.bytesReceived = y.link.world.incoming.sum
  received' : y'.link.metrics.bytesReceived = y'.link.world.incoming.sum

theorem Paired.outwardlyEqual {R : σ → τ → Prop} {y : System (Tap σ)} {y' : System (Tap τ)}
    (h : Paired (Tap.Level R) y y') : OutwardlyEqual y y' := by
  obtain ⟨⟨v, m, hlink, hlevel⟩, hstage, hhistory⟩ := h
  obtain ⟨-, houtgoing, hcount, hcount'⟩ := hlevel
  have hworld : y'.link.world = v := by rw [hlink]; rfl
  have hreceived : y'.link.metrics.bytesReceived = m := by rw [hlink]; rfl
  exact ⟨hstage, hhistory, by rw [hworld, hreceived, ← hlink], hworld ▸ houtgoing, hcount,
    by rw [hreceived, hworld, ← hcount']⟩

/-- What arrives does not change what leaves. Two runs with the same actions, on networks that
differ only in what can be read, send the same and end in links that are equal but for the count of
bytes received. -/
theorem outwardlyEqual_of_alike {net : Net σ} {net' : Net τ} {R : σ → τ → Prop}
    (h : net.Alike net' R) {w : σ} {v : τ} (hR : R w v) (near far : String)
    (config : LinkConfig) :
    (opened? net.tapped near far config (.fresh w) = none ∧
      opened? net'.tapped near far config (.fresh v) = none) ∨
    ∃ y y', opened? net.tapped near far config (.fresh w) = some y ∧
      opened? net'.tapped near far config (.fresh v) = some y' ∧
      ∀ actions, OutwardlyEqual (y.run net.tapped actions) (y'.run net'.tapped actions) := by
  have hlevel : Tap.Level R (.fresh w, 0) (.fresh v, 0) := ⟨hR, rfl, rfl, rfl⟩
  rcases paired_of_opened? h.lockstep near far config hlevel with hnone | ⟨y, y', hy, hy', hpaired⟩
  · exact .inl hnone
  · exact .inr ⟨y, y', hy, hy', fun actions => (hpaired.run h.lockstep actions).outwardlyEqual⟩

end System

/-! ## A network on which input arrives -/

/-- A network as `Net.scripted`, but streams take all at once, and the list says what arrives. -/
def Net.feeding : Net (List (Reply Nat)) where
  __ := Net.scripted
  patience _ := 8
  read _ _ := feed
  write _ buffer offset w := (.ok (buffer.size - offset), w)
  receive _ := feed
where
  /-- The next piece of input. -/
  feed : List (Reply Nat) → Reply Bytes × List (Reply Nat)
    | [] => (.fail .wouldBlock, [])
    | .ok n :: rest => (.ok (Array.replicate n 0), rest)
    | .fail e :: rest => (.fail e, rest)
    | .fatal :: rest => (.fatal, rest)

def Net.Pieces (w : List (Reply Nat)) : Prop := w.length < 8 ∧ ∀ r ∈ w, ∃ n, r = .ok (n + 1)

theorem Net.Pieces.reads {w : List (Reply Nat)} (h : ∀ r ∈ w, ∃ n, r = .ok (n + 1))
    (source : Source) : ∃ sizes, Net.feeding.Reads source (w.length + 1) sizes .waiting w [] := by
  induction w with
  | nil => cases source <;> exact ⟨[], .done rfl rfl⟩
  | cons r rest ih =>
    obtain ⟨n, rfl⟩ := h r (by simp)
    obtain ⟨sizes, hreads⟩ := ih fun r hr => h r (by simp [hr])
    refine ⟨(n + 1) :: sizes, ?_⟩
    cases source with
    | stream => exact .got rfl (by simp [Source.sort]) hreads
    | datagrams => exact .got rfl (by simp [Source.sort]) hreads

/-- Nothing but reading depends on what arrives. -/
theorem Net.alike_feeding :
    Net.feeding.Alike Net.feeding fun w v => Net.Pieces w ∧ Net.Pieces v where
  call c w v h := by
    cases c <;> exact .mk h
  hear source w v h := by
    obtain ⟨⟨hw, hpieces⟩, hv, hpieces'⟩ := h
    obtain ⟨sizes, hreads⟩ := Net.Pieces.reads hpieces source
    obtain ⟨sizes', hreads'⟩ := Net.Pieces.reads hpieces' source
    exact ⟨.waiting, [], [], sizes, sizes', ⟨_, hw, hreads⟩, ⟨_, hv, hreads'⟩,
      by simp [Net.Pieces]⟩

/-- A message is sent; then four bytes arrive in two pieces, or five at once. -/
theorem System.outwardlyEqual_of_alike_feeding :
    ∃ (y y' : System (Tap (List (Reply Nat)))) (actions : List Action),
      Net.feeding.Alike Net.feeding (fun w v => Net.Pieces w ∧ Net.Pieces v) ∧
      Net.Pieces [.ok 3, .ok 1] ∧ Net.Pieces [.ok 5] ∧
      System.opened? Net.feeding.tapped "tcp://127.0.0.1:0" "tcp://10.9.8.7:30010" {}
        (.fresh [.ok 3, .ok 1]) = some y ∧
      System.opened? Net.feeding.tapped "tcp://127.0.0.1:0" "tcp://10.9.8.7:30010" {}
        (.fresh [.ok 5]) = some y' ∧
      (y.run Net.feeding.tapped actions).link.metrics.bytesReceived = 4 ∧
      (y'.run Net.feeding.tapped actions).link.metrics.bytesReceived = 5 ∧
      (y.run Net.feeding.tapped actions).link.world.outgoing.length = 1 ∧
      OutwardlyEqual (y.run Net.feeding.tapped actions) (y'.run Net.feeding.tapped actions) := by
  let actions := Action.firstRound ++ [.submit .bare, .proceed, .proceed, .proceed, .proceed,
    .wake (.ok [{ token := Token.outbound, readable := true }]), .proceed]
  obtain ⟨y, hy, hruns⟩ := exists_opened_of_run Net.feeding.tapped (.fresh [.ok 3, .ok 1])
    "tcp://127.0.0.1:0" "tcp://10.9.8.7:30010" {} actions
    (fun y => y.link.metrics.bytesReceived == 4 && y.link.world.outgoing.length == 1) (by cbv)
  obtain ⟨y', hy', hruns'⟩ := exists_opened_of_run Net.feeding.tapped (.fresh [.ok 5])
    "tcp://127.0.0.1:0" "tcp://10.9.8.7:30010" {} actions
    (fun y => y.link.metrics.bytesReceived == 5) (by cbv)
  simp only [Bool.and_eq_true, beq_iff_eq] at hruns hruns'
  have hpieces : Net.Pieces [.ok 3, .ok 1] := by simp [Net.Pieces]
  have hpieces' : Net.Pieces [.ok 5] := by simp [Net.Pieces]
  rcases outwardlyEqual_of_alike Net.alike_feeding ⟨hpieces, hpieces'⟩ "tcp://127.0.0.1:0"
    "tcp://10.9.8.7:30010" {} with ⟨hnone, -⟩ | ⟨z, z', hz, hz', hequal⟩
  · simp [hy] at hnone
  · obtain rfl := Option.some.inj (hy.symm.trans hz)
    obtain rfl := Option.some.inj (hy'.symm.trans hz')
    exact ⟨y, y', actions, Net.alike_feeding, hpieces, hpieces', hy, hy', hruns.1, hruns',
      hruns.2, hequal actions⟩

end ArmStream
