import ArmStream.Frame
import ArmStream.Net

/-!
# Peers

A peer is a connected stream with the frames it has still to take. The frames stand in one
buffer; an offset marks how far the stream has taken it. A frame counts as sent when the stream
has taken its last byte.

## Main definitions

- `Peer.push?`: a frame more.
- `Peer.flush`: offering what is not taken yet.
- `Peer.fits`: the peer may get another message.
-/

namespace ArmStream

structure Peer where
  conn : Conn
  /-- The frames since the stream last took everything. -/
  buffer : Bytes := #[]
  /-- The bytes of the buffer that the stream took. -/
  offset : Nat := 0
  /-- Where the frames in the buffer end, of those not counted as sent. -/
  frameEnds : List Nat := []
  deriving DecidableEq, Repr, Inhabited

namespace Peer

def unsent (p : Peer) : Nat := p.buffer.size - p.offset

/-- The peer may get a message of `len` bytes: it has nothing to send, or stays within the
limit. -/
def fits (p : Peer) (len limit : Nat) : Bool :=
  p.unsent == 0 || p.unsent + Frame.headerLength + len ≤ limit

/-- The peer with a frame more; `none` if the payload is too long for a frame. -/
def push? (p : Peer) (payload : Bytes) : Option Peer :=
  match Frame.append? p.buffer payload with
  | none => none
  | some buffer => some { p with buffer := buffer, frameEnds := p.frameEnds ++ [buffer.size] }

inductive WriteEnd where
  /-- All was taken, or the stream takes no more for now. -/
  | settled
  | failed (cause : IoError)
  | died
  deriving DecidableEq, Repr, Inhabited

/-- Offers the rest of the buffer until the stream takes no more. `fuel` bounds the calls. The
number is that of the bytes taken. -/
def offer {σ : Type} (net : Net σ) : (fuel : Nat) → Peer → σ → Nat → Peer × σ × Nat × WriteEnd
  | 0, p, w, taken => (p, w, taken, .settled)
  | fuel + 1, p, w, taken =>
    if p.offset < p.buffer.size then
      match net.write p.conn p.buffer p.offset w with
      | (.ok 0, w) => (p, w, taken, .failed .writeZero)
      | (.ok n, w) =>
        let n := min n p.unsent
        offer net fuel { p with offset := p.offset + n } w (taken + n)
      | (.fail .wouldBlock, w) => (p, w, taken, .settled)
      | (.fail .interrupted, w) => offer net fuel p w taken
      | (.fail e, w) => (p, w, taken, .failed e)
      | (.fatal, w) => (p, w, taken, .died)
    else (p, w, taken, .settled)

/-- The frames that the stream took completely are counted and forgotten; a buffer that was taken
completely is emptied. -/
def settle (p : Peer) : Peer × Nat :=
  let left := p.frameEnds.dropWhile (· ≤ p.offset)
  let p' := { p with frameEnds := left }
  (if p.offset = p.buffer.size then { p' with buffer := #[], offset := 0 } else p',
    p.frameEnds.length - left.length)

structure Written (σ : Type) where
  peer : Peer
  world : σ
  bytes : Nat
  frames : Nat
  outcome : WriteEnd

/-- Offers what is not taken yet. After a failure no frame is counted. -/
def flush {σ : Type} (net : Net σ) (p : Peer) (w : σ) : Written σ :=
  match p.offer net (p.unsent + net.patience w) w 0 with
  | (p, w, bytes, .settled) =>
    let (p, frames) := p.settle
    ⟨p, w, bytes, frames, .settled⟩
  | (p, w, bytes, outcome) => ⟨p, w, bytes, 0, outcome⟩

inductive ReadEnd where
  /-- There is no more for now. -/
  | waiting
  /-- The input ended, or failed. -/
  | ended
  | died
  deriving DecidableEq, Repr, Inhabited

def readChunk : Nat := 4096

/-- Reads and throws away what arrived; counts the bytes. `fuel` bounds the calls. -/
def discardInput {σ : Type} (net : Net σ) (conn : Conn) : (fuel : Nat) → σ → Nat → σ × Nat × ReadEnd
  | 0, w, count => (w, count, .waiting)
  | fuel + 1, w, count =>
    match net.read conn readChunk w with
    | (.ok bytes, w) =>
      if bytes.size = 0 then (w, count, .ended)
      else discardInput net conn fuel w (count + bytes.size)
    | (.fail .wouldBlock, w) => (w, count, .waiting)
    | (.fail .interrupted, w) => discardInput net conn fuel w count
    | (.fail _, w) => (w, count, .ended)
    | (.fatal, w) => (w, count, .died)

end Peer

end ArmStream
