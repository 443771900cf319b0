import ArmStream.Text.Split
import ArmStream.Text.Quoted
import ArmStream.Number.Natural

/-!
# Internet addresses

Addresses of both versions, their text and reading it. A version-4 address is four decimal
numbers. A version-6 address is eight groups of hexadecimal digits; the longest run of zero
groups is left out, and a run may be left out anywhere on reading. The last two groups may be
written as a version-4 address.

## Main definitions

- `Ip.read?`: the address that a text spells.
- `Ip.text`: the canonical text of an address.
-/

namespace ArmStream

inductive Ip where
  | v4 (a b c d : UInt8)
  | v6 (groups : Vector UInt16 8)
  deriving DecidableEq, Repr, Inhabited

namespace Ip

open Text Number

/-- One part of a version-4 address: up to three digits, no zero in front, below 256. -/
def readOctet? (s : List Char) : Option UInt8 :=
  match s with
  | [] => none
  | '0' :: _ :: _ => none
  | _ =>
    if 3 < s.length then none
    else
      match digitsValue? s 0 with
      | some n => if n < 256 then some (UInt8.ofNat n) else none
      | none => none

def readV4? (s : List Char) : Option (UInt8 × UInt8 × UInt8 × UInt8) :=
  match (pieces '.' s).map readOctet? with
  | [some a, some b, some c, some d] => some (a, b, c, d)
  | _ => none

def hexDigit? (c : Char) : Option Nat :=
  if '0' ≤ c ∧ c ≤ '9' then some (c.toNat - 48)
  else if 'a' ≤ c ∧ c ≤ 'f' then some (c.toNat - 87)
  else if 'A' ≤ c ∧ c ≤ 'F' then some (c.toNat - 55)
  else none

/-- The number that hexadecimal digits spell behind a number spelled before. -/
def hexValue? : List Char → Nat → Option Nat
  | [], n => some n
  | c :: rest, n =>
    match hexDigit? c with
    | some d => hexValue? rest (16 * n + d)
    | none => none

/-- One group of a version-6 address: one to four hexadecimal digits. -/
def readGroup? (s : List Char) : Option UInt16 :=
  if s = [] ∨ 4 < s.length then none else (hexValue? s 0).map UInt16.ofNat

def mappedGroups (a b c d : UInt8) : List UInt16 :=
  [UInt16.ofNat (256 * a.toNat + b.toNat), UInt16.ofNat (256 * c.toNat + d.toNat)]

/-- Reads the groups between colons. The last may be a version-4 address, which counts twice. -/
def readGroups? : List (List Char) → Option (List UInt16)
  | [] => some []
  | [last] =>
    match readV4? last with
    | some (a, b, c, d) => some (mappedGroups a b c d)
    | none => (readGroup? last).map ([·])
  | s :: rest =>
    match readGroup? s, readGroups? rest with
    | some g, some gs => some (g :: gs)
    | _, _ => none

/-- Reads one side of an omitted run of zeros: nothing, or groups. -/
def readSide? (s : List Char) : Option (List UInt16) :=
  if s = [] then some [] else readGroups? (pieces ':' s)

def eightGroups? (gs : List UInt16) : Option (Vector UInt16 8) :=
  if h : gs.length = 8 then some ⟨gs.toArray, by simpa using h⟩ else none

/-- Reads a version-6 address. In front of an omitted run stand groups only, and the run stands
for at least one group. -/
def readV6? (s : List Char) : Option (Vector UInt16 8) :=
  match cutFirst? [':', ':'] s with
  | none =>
    match readGroups? (pieces ':' s) with
    | some gs => eightGroups? gs
    | none => none
  | some (before, after) =>
    if before.contains '.' then none
    else
      match readSide? before, readSide? after with
      | some front, some back =>
        let given := front.length + back.length
        if given ≤ 7 then eightGroups? (front ++ List.replicate (8 - given) 0 ++ back) else none
      | _, _ => none

def read? (s : List Char) : Option Ip :=
  match readV4? s with
  | some (a, b, c, d) => some (.v4 a b c d)
  | none => (readV6? s).map .v6

def textV4 (a b c d : UInt8) : List Char :=
  let part (x : UInt8) := (toString x.toNat).toList
  part a ++ '.' :: part b ++ '.' :: part c ++ '.' :: part d

def groupText (g : UInt16) : List Char := hexDigits 4 g.toNat []

def joinGroups : List UInt16 → List Char
  | [] => []
  | [g] => groupText g
  | g :: rest => groupText g ++ ':' :: joinGroups rest

def zeroRun : List UInt16 → Nat
  | [] => 0
  | g :: rest => if g = 0 then zeroRun rest + 1 else 0

/-- The start and the length of the first of the longest runs of zero groups from position
`start` on, if one is longer than `best`. -/
def longestRun (start : Nat) (best : Nat × Nat) : List UInt16 → Nat × Nat
  | [] => best
  | g :: rest =>
    let run := zeroRun (g :: rest)
    longestRun (start + 1) (if best.2 < run then (start, run) else best) rest

def textV6 (groups : Vector UInt16 8) : List Char :=
  let groups := groups.toList
  match groups with
  | [0, 0, 0, 0, 0, 0xffff, x, y] =>
    "::ffff:".toList ++ textV4 (UInt8.ofNat (x.toNat / 256)) (UInt8.ofNat x.toNat)
      (UInt8.ofNat (y.toNat / 256)) (UInt8.ofNat y.toNat)
  | _ =>
    let (start, run) := longestRun 0 (0, 0) groups
    if run < 2 then joinGroups groups
    else joinGroups (groups.take start) ++ "::".toList ++ joinGroups (groups.drop (start + run))

def text : Ip → String
  | .v4 a b c d => String.ofList (textV4 a b c d)
  | .v6 groups => String.ofList (textV6 groups)

/-- The address of all interfaces. -/
def any : Ip := .v4 0 0 0 0

end Ip

structure SocketAddress where
  ip : Ip
  port : Nat
  deriving DecidableEq, Repr, Inhabited

namespace SocketAddress

/-- The text of a socket address; a version-6 address stands in brackets. -/
def text (a : SocketAddress) : String :=
  match a.ip with
  | .v4 .. => a.ip.text ++ ":" ++ toString a.port
  | .v6 _ => "[" ++ a.ip.text ++ "]:" ++ toString a.port

def read? (s : String) : Option SocketAddress :=
  match Text.cutLast? ':' s.toList with
  | none => none
  | some (host, port) =>
    match Number.readBelow? 65536 port with
    | none => none
    | some port =>
      match host with
      | '[' :: rest =>
        if rest.getLast? = some ']' then (Ip.readV6? rest.dropLast).map fun g => ⟨.v6 g, port⟩
        else none
      | _ => (Ip.readV4? host).map fun (a, b, c, d) => ⟨.v4 a b c d, port⟩

end SocketAddress

end ArmStream
