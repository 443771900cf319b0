import Mathlib.Logic.Function.Basic
import ArmStream.Proofs.Peers
import ArmStream.Proofs.Moves

/-!
# A network that is recorded

What a link does to its streams can be read off the calls that it makes. `Net.recorded` answers
just as the network that it records. It gives each stream a number of its own as soon as there is
one, and keeps the bytes that each stream took.

## Main definitions

- `Recording`: what was recorded so far.
- `Net.recorded`: the network that records another one.

## Main statements

- `Net.Quiets.taken_eq`: only writes are recorded as bytes.
- `Peer.flush_recorded`: an offer is recorded as the bytes that were taken.
-/

namespace ArmStream

structure Recording (σ : Type) where
  world : σ
  /-- The streams in the order in which they came to be, under the numbers that the network gave
  them. -/
  names : List Conn := []
  /-- The bytes that each stream took. -/
  taken : Conn → List UInt8 := fun _ => []

namespace Recording

variable {σ α : Type}

def fresh (w : σ) : Recording σ := { world := w }

/-- The number that the network gave a stream. -/
def name (r : Recording σ) (conn : Conn) : Conn := r.names.getD conn conn

def socket (r : Recording σ) : Socket → Socket
  | .stream conn => .stream (r.name conn)
  | .listener => .listener
  | .datagrams => .datagrams

def pass (r : Recording σ) (answer : α × σ) : α × Recording σ :=
  (answer.1, { r with world := answer.2 })

/-- A call that may give a stream. The stream gets the next number. -/
def give (r : Recording σ) : Reply Conn × σ → Reply Conn × Recording σ
  | (.ok conn, w) => (.ok r.names.length, { r with world := w, names := r.names ++ [conn] })
  | (.fail e, w) => (.fail e, { r with world := w })
  | (.fatal, w) => (.fatal, { r with world := w })

def record (r : Recording σ) (conn : Conn) (bytes : List UInt8) : Recording σ :=
  { r with taken := Function.update r.taken conn (r.taken conn ++ bytes) }

def write (r : Recording σ) (conn : Conn) (buffer : Bytes) (offset : Nat) :
    Reply Nat × σ → Reply Nat × Recording σ
  | (.ok n, w) =>
    (.ok n, { r with world := w }.record conn (buffer.extract offset (offset + n)).toList)
  | (.fail e, w) => (.fail e, { r with world := w })
  | (.fatal, w) => (.fatal, { r with world := w })

end Recording

variable {σ : Type}

def Net.recorded (net : Net σ) : Net (Recording σ) where
  now r := net.now r.world
  patience r := net.patience r.world
  names r := net.names r.world
  bind scheme a r := r.pass (net.bind scheme a r.world)
  connect a r := r.give (net.connect a r.world)
  aim a r := r.pass (net.aim a r.world)
  boundAddress r := r.pass (net.boundAddress r.world)
  newPoll r := r.pass (net.newPoll r.world)
  newWaker r := r.pass (net.newWaker r.world)
  startThread r := r.pass (net.startThread r.world)
  register socket token r := r.pass (net.register (r.socket socket) token r.world)
  deregister conn r := r.pass (net.deregister (r.name conn) r.world)
  wake r := r.pass (net.wake r.world)
  accept r := r.give (net.accept r.world)
  takeError conn r := r.pass (net.takeError (r.name conn) r.world)
  peerAddress conn r := r.pass (net.peerAddress (r.name conn) r.world)
  setNodelay conn r := r.pass (net.setNodelay (r.name conn) r.world)
  read conn len r := r.pass (net.read (r.name conn) len r.world)
  write conn buffer offset r :=
    r.write conn buffer offset (net.write (r.name conn) buffer offset r.world)
  send bytes r := r.pass (net.send bytes r.world)
  receive len r := r.pass (net.receive len r.world)
  close conn r := { r with world := net.close (r.name conn) r.world }
  closeAll r := { r with world := net.closeAll r.world }

/-! ## Calls that take no bytes -/

namespace Recording

variable {net : Net σ} {r r' : Recording σ} {conn : Conn}

/-- One recording goes on from another, and no stream took bytes in between. -/
structure Extends (r r' : Recording σ) : Prop where
  taken_eq : r'.taken = r.taken
  names_le : r.names.length ≤ r'.names.length

theorem Extends.refl (r : Recording σ) : Extends r r := ⟨rfl, Nat.le_refl _⟩

theorem Extends.trans {r'' : Recording σ} (h : Extends r r') (h' : Extends r' r'') :
    Extends r r'' :=
  ⟨h'.taken_eq.trans h.taken_eq, Nat.le_trans h.names_le h'.names_le⟩

theorem extends_of_pass {α : Type} {answer : α × σ} {x : α} (h : r.pass answer = (x, r')) :
    Extends r r' := by
  obtain ⟨-, rfl⟩ := Prod.mk.inj h
  exact ⟨rfl, Nat.le_refl _⟩

theorem extends_of_give {answer : Reply Conn × σ} {x : Reply Conn} (h : r.give answer = (x, r')) :
    Extends r r' := by
  unfold give at h
  split at h <;> obtain ⟨-, rfl⟩ := Prod.mk.inj h
  · exact ⟨rfl, by simp⟩
  · exact ⟨rfl, Nat.le_refl _⟩
  · exact ⟨rfl, Nat.le_refl _⟩

/-- A stream that comes to be has a number that no stream had before. -/
theorem give_eq_ok {answer : Reply Conn × σ} (h : r.give answer = (.ok conn, r')) :
    conn = r.names.length ∧ r'.names.length = r.names.length + 1 ∧ r'.taken = r.taken := by
  unfold give at h
  split at h
  next =>
    obtain ⟨rfl, rfl⟩ := by simpa using h
    simp
  next => simp at h
  next => simp at h

theorem extends_of_quiet (h : net.recorded.Quiet r r') : Extends r r' := by
  cases h with
  | connect h => exact extends_of_give h
  | accept h => exact extends_of_give h
  | close => exact ⟨rfl, Nat.le_refl _⟩
  | closeAll => exact ⟨rfl, Nat.le_refl _⟩
  | _ h => exact extends_of_pass h

theorem extends_of_quiets (h : net.recorded.Quiets r r') : Extends r r' := by
  induction h with
  | refl => exact .refl r
  | tail _ hcall ih => exact ih.trans (extends_of_quiet hcall)

/-! ## Writes -/

theorem write_eq_ok {answer : Reply Nat × σ} {buffer : Bytes} {offset n : Nat}
    (h : r.write conn buffer offset answer = (.ok n, r')) :
    r'.names = r.names ∧ r'.taken = Function.update r.taken conn
      (r.taken conn ++ (buffer.toList.drop offset).take n) := by
  unfold write at h
  split at h
  next =>
    obtain ⟨rfl, rfl⟩ := by simpa using h
    refine ⟨rfl, ?_⟩
    simp [record]
  next => simp at h
  next => simp at h

theorem write_eq_of_ne_ok {answer : Reply Nat × σ} {buffer : Bytes} {offset : Nat} {x : Reply Nat}
    (h : r.write conn buffer offset answer = (x, r')) (hx : ∀ n, x ≠ .ok n) :
    r'.names = r.names ∧ r'.taken = r.taken := by
  unfold write at h
  split at h <;> obtain ⟨rfl, rfl⟩ := Prod.mk.inj h
  · exact absurd rfl (hx _)
  · exact ⟨rfl, rfl⟩
  · exact ⟨rfl, rfl⟩

end Recording

/-! ## Offers -/

/-- An offer is recorded as the bytes by which the offset moved. -/
theorem Peer.flush_recorded (net : Net σ) (p : Peer) (r : Recording σ) :
    (p.flush net.recorded r).world.names = r.names ∧
      (p.flush net.recorded r).world.taken = Function.update r.taken p.conn (r.taken p.conn ++
        (p.buffer.toList.drop p.offset).take (p.flush net.recorded r).bytes) := by
  obtain ⟨q, ⟨-, hnames, htaken⟩, -⟩ := flush_cases net.recorded (w := r)
    (P := fun q r' n => q = p.took n ∧ r'.names = r.names ∧
      r'.taken = Function.update r.taken p.conn
        (r.taken p.conn ++ (p.buffer.toList.drop p.offset).take n))
    (by
      rintro _ r₁ r₂ m n hwrite ⟨rfl, hnames, htaken⟩
      obtain ⟨hnames', htaken'⟩ := Recording.write_eq_ok hwrite
      refine ⟨took_took p m _, hnames'.trans hnames, ?_⟩
      have hmin : ((p.buffer.toList.drop p.offset).drop m).take (min n (p.took m).unsent) =
          (p.buffer.toList.drop (p.took m).offset).take n := by
        have hunsent : (p.took m).unsent = (p.buffer.toList.drop (p.took m).offset).length := by
          simp [took, unsent]
        rw [List.drop_drop, hunsent]
        exact List.take_eq_take_min.symm
      rw [htaken', htaken, List.take_add, hmin]
      simp [took])
    (by
      rintro q r₁ r₂ n answer hwrite hfail ⟨hq, hnames, htaken⟩
      obtain ⟨hnames', htaken'⟩ := Recording.write_eq_of_ne_ok hwrite hfail
      exact ⟨hq, hnames'.trans hnames, htaken'.trans htaken⟩)
    ⟨rfl, rfl, by simp⟩
  exact ⟨hnames, htaken⟩

end ArmStream
