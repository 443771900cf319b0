import ArmStream.Message.Error

/-!
# Reading bytes in order

A cursor is the data that is still to be read, with its length at hand. A read takes bytes from
its front. Taking more than are left overruns the data, so a reader looks at the number that is
left first; that it never overruns is then a statement about it.

## Main definitions

- `Cursor`: the data that is left.
- `Read`: a value, an error, or an overrun.
- `Cursor.takeByte`, `Cursor.takeHalf`, `Cursor.takeWord`, `Cursor.takePattern`, `Cursor.skip`
-/

namespace ArmStream

structure Cursor where
  bytes : List UInt8
  /-- The number of bytes. -/
  left : Nat
  left_eq : left = bytes.length

inductive Read (α : Type) where
  | value (a : α) (rest : Cursor)
  | refused (cause : MessageError)
  /-- More bytes were taken than there are. -/
  | overrun

namespace Read

variable {α β : Type}

@[inline] def andThen (r : Read α) (next : α → Cursor → Read β) : Read β :=
  match r with
  | .value a c => next a c
  | .refused e => .refused e
  | .overrun => .overrun

def toExcept : (r : Read α) → r ≠ .overrun → Except MessageError α
  | .value a _, _ => .ok a
  | .refused e, _ => .error e
  | .overrun, h => absurd rfl h

@[simp] theorem andThen_value (a : α) (c : Cursor) (next : α → Cursor → Read β) :
    (value a c).andThen next = next a c := rfl

@[simp] theorem andThen_refused (e : MessageError) (next : α → Cursor → Read β) :
    (refused e).andThen next = refused e := rfl

@[simp] theorem toExcept_value (a : α) (c : Cursor) (h : value a c ≠ overrun) :
    (value a c).toExcept h = .ok a := rfl

@[simp] theorem toExcept_refused (e : MessageError) (h : (refused e : Read α) ≠ overrun) :
    (refused e : Read α).toExcept h = .error e := rfl

end Read

namespace Cursor

def ofBytes (bytes : List UInt8) : Cursor := ⟨bytes, bytes.length, rfl⟩

def takeByte : Cursor → Read UInt8
  | ⟨b :: rest, left, h⟩ => .value b ⟨rest, left - 1, by simp [h]⟩
  | _ => .overrun

/-- Takes a number of two bytes. -/
def takeHalf : Cursor → Read Nat
  | ⟨b0 :: b1 :: rest, left, h⟩ =>
    .value (LittleEndian.decode [b0, b1]) ⟨rest, left - 2, by simp [h]⟩
  | _ => .overrun

/-- Takes a number of four bytes. -/
def takeWord : Cursor → Read Nat
  | ⟨b0 :: b1 :: b2 :: b3 :: rest, left, h⟩ =>
    .value (LittleEndian.decode [b0, b1, b2, b3]) ⟨rest, left - 4, by simp [h]⟩
  | _ => .overrun

def takePattern : Cursor → Read Pattern
  | ⟨b0 :: b1 :: b2 :: b3 :: b4 :: b5 :: b6 :: b7 :: rest, left, h⟩ =>
    .value (UInt64.ofNat (LittleEndian.decode [b0, b1, b2, b3, b4, b5, b6, b7]))
      ⟨rest, left - 8, by simp [h]⟩
  | _ => .overrun

def skip (n : Nat) (c : Cursor) : Read Unit :=
  if n ≤ c.left then .value () ⟨c.bytes.drop n, c.left - n, by simp [c.left_eq]⟩ else .overrun

/-- Takes `count` patterns; `acc` holds those taken before, last first. -/
def takePatterns (count : Nat) (c : Cursor) (acc : List Pattern) : Read (List Pattern) :=
  match count with
  | 0 => .value acc.reverse c
  | count + 1 => c.takePattern.andThen fun v c => takePatterns count c (v :: acc)

/-- A read of one of these widths succeeds if so many bytes are left, and takes them. -/
theorem exists_takeByte (c : Cursor) (h : 1 ≤ c.left) :
    ∃ b rest, c.takeByte = .value b rest ∧ rest.left + 1 = c.left ∧ c.bytes = b :: rest.bytes := by
  obtain ⟨bytes, left, rfl⟩ := c
  match bytes, h with
  | b :: rest, _ => exact ⟨b, ⟨rest, rest.length, rfl⟩, rfl, rfl, rfl⟩

theorem exists_takeHalf (c : Cursor) (h : 2 ≤ c.left) :
    ∃ n rest, c.takeHalf = .value n rest ∧ rest.left + 2 = c.left
      ∧ n = LittleEndian.decode (c.bytes.take 2) ∧ rest.bytes = c.bytes.drop 2 := by
  obtain ⟨bytes, left, rfl⟩ := c
  match bytes, h with
  | _ :: _ :: rest, _ => exact ⟨_, ⟨rest, rest.length, rfl⟩, rfl, rfl, rfl, rfl⟩

theorem exists_takeWord (c : Cursor) (h : 4 ≤ c.left) :
    ∃ n rest, c.takeWord = .value n rest ∧ rest.left + 4 = c.left
      ∧ n = LittleEndian.decode (c.bytes.take 4) ∧ rest.bytes = c.bytes.drop 4 := by
  obtain ⟨bytes, left, rfl⟩ := c
  match bytes, h with
  | _ :: _ :: _ :: _ :: rest, _ => exact ⟨_, ⟨rest, rest.length, rfl⟩, rfl, rfl, rfl, rfl⟩

theorem exists_takePattern (c : Cursor) (h : 8 ≤ c.left) :
    ∃ v rest, c.takePattern = .value v rest ∧ rest.left + 8 = c.left
      ∧ v = UInt64.ofNat (LittleEndian.decode (c.bytes.take 8)) ∧ rest.bytes = c.bytes.drop 8 := by
  obtain ⟨bytes, left, rfl⟩ := c
  match bytes, h with
  | _ :: _ :: _ :: _ :: _ :: _ :: _ :: _ :: rest, _ =>
    exact ⟨_, ⟨rest, rest.length, rfl⟩, rfl, rfl, rfl, rfl⟩

theorem exists_skip (n : Nat) (c : Cursor) (h : n ≤ c.left) :
    ∃ rest, c.skip n = .value () rest ∧ rest.left + n = c.left ∧ rest.bytes = c.bytes.drop n := by
  refine ⟨⟨c.bytes.drop n, c.left - n, by simp [c.left_eq]⟩, by simp [skip, h], ?_, rfl⟩
  simpa using Nat.sub_add_cancel h

theorem exists_takePatterns (count : Nat) (c : Cursor) (acc : List Pattern)
    (h : 8 * count ≤ c.left) :
    ∃ vs rest, c.takePatterns count acc = .value (acc.reverse ++ vs) rest
      ∧ rest.left + 8 * count = c.left ∧ vs.length = count
      ∧ rest.bytes = c.bytes.drop (8 * count) := by
  induction count generalizing c acc with
  | zero => exact ⟨[], c, by simp [takePatterns], rfl, rfl, by simp⟩
  | succ count ih =>
    obtain ⟨v, mid, hv, hleft, _, hmid⟩ := c.exists_takePattern (by omega)
    obtain ⟨vs, rest, hvs, hrest, hlen, hbytes⟩ := ih mid (v :: acc) (by omega)
    refine ⟨v :: vs, rest, ?_, by omega, by simp [hlen], ?_⟩
    · simp [takePatterns, hv, hvs]
    · rw [hbytes, hmid, List.drop_drop]
      congr 1
      omega

end Cursor

end ArmStream
