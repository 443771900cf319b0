import ArmStream.Frame

/-!
# Taking frames out of a stream

A decoder is fed pieces of a stream, cut anywhere, and gives back the payloads as soon as they
are complete.
-/

namespace ArmStream.Frame

/-- The part of the stream that was fed and not yet taken. -/
structure Decoder where
  buffer : Bytes := #[]
  deriving DecidableEq, Repr, Inhabited

inductive Taken where
  /-- No complete frame is there yet. -/
  | incomplete
  /-- The length in front exceeds the longest frame. -/
  | tooLong (len : Nat)
  /-- A payload, and the decoder without its frame. -/
  | frame (payload : Bytes) (rest : Decoder)
  deriving Repr, Inhabited

namespace Decoder

def buffered (d : Decoder) : Nat := d.buffer.size

def extend (d : Decoder) (piece : Bytes) : Decoder := ⟨d.buffer ++ piece⟩

def next (d : Decoder) : Taken :=
  if d.buffer.size < headerLength then .incomplete
  else
    let len := LittleEndian.decode (d.buffer.extract 0 headerLength).toList
    if maxLength < len then .tooLong len
    else if d.buffer.size < headerLength + len then .incomplete
    else
      .frame (d.buffer.extract headerLength (headerLength + len))
        ⟨d.buffer.extract (headerLength + len) d.buffer.size⟩

/-- Takes frames until there is none or one is too long; `fuel` bounds their number. -/
def takeAll (d : Decoder) : (fuel : Nat) → List Bytes → List Bytes × Option Nat × Decoder
  | 0, taken => (taken.reverse, none, d)
  | fuel + 1, taken =>
    match d.next with
    | .incomplete => (taken.reverse, none, d)
    | .tooLong len => (taken.reverse, some len, d)
    | .frame payload rest => rest.takeAll fuel (payload :: taken)

/-- All frames that are complete, the length of one too long that follows them, and what is
left. Each frame takes at least its header, so the buffer bounds their number. -/
def drain (d : Decoder) : List Bytes × Option Nat × Decoder :=
  d.takeAll (d.buffered + 1) []

end Decoder

end ArmStream.Frame
