import Mathlib
import ArmStream.Number.Natural

/-!
# Reading numerals

A numeral is at least one digit, with an optional plus sign in front. What is read is the number
that the digits spell in base ten.

## Main definitions

- `Number.Spells`: the text is a numeral of the number.

## Main statements

- `Number.digitsValue?_eq_some_iff`: the value of digits.
- `Number.readBelow?_eq_some_iff`: numerals of numbers below a bound.
- `Number.spells_toString`: the usual numeral of a number spells it.
-/

namespace ArmStream.Number

/-- The text spells `n`: digits, of which there is at least one, with an optional plus sign in
front. -/
def Spells (s : List Char) (n : Nat) : Prop :=
  ∃ digits, (s = digits ∨ s = '+' :: digits) ∧ digits ≠ [] ∧ (∀ c ∈ digits, c.isDigit) ∧
    Nat.ofDigitChars 10 digits 0 = n

theorem isDigit_iff {c : Char} : c.isDigit = true ↔ '0' ≤ c ∧ c ≤ '9' := by
  simp [Char.isDigit, Char.le_def]

theorem digit?_eq_some_iff {c : Char} {d : Nat} :
    digit? c = some d ↔ c.isDigit ∧ c.toNat - '0'.toNat = d := by
  rw [isDigit_iff, digit?]
  split <;> simp_all

theorem digitsValue?_eq_some_iff {s : List Char} {n m : Nat} :
    digitsValue? s n = some m ↔ (∀ c ∈ s, c.isDigit) ∧ Nat.ofDigitChars 10 s n = m := by
  induction s generalizing n with
  | nil => simp [digitsValue?]
  | cons c s ih =>
    rw [digitsValue?, Nat.ofDigitChars_cons, List.forall_mem_cons]
    cases hd : digit? c with
    | none =>
      have hc : ¬ c.isDigit := fun hc => by
        have hsome := digit?_eq_some_iff.2 ⟨hc, rfl⟩
        cases hd.symm.trans hsome
      simp [hc]
    | some d =>
      obtain ⟨hc, rfl⟩ := digit?_eq_some_iff.1 hd
      simp [ih, hc]

/-! ## Numerals with a plus sign -/

theorem withoutPlus_eq (s : List Char) : s = withoutPlus s ∨ s = '+' :: withoutPlus s := by
  unfold withoutPlus
  split <;> simp

theorem withoutPlus_of_isDigit {s : List Char} (h : ∀ c ∈ s, c.isDigit) : withoutPlus s = s := by
  unfold withoutPlus
  split
  next rest => exact absurd (h '+' (by simp)) (by decide)
  next => rfl

theorem spells_iff {s : List Char} {n : Nat} :
    Spells s n ↔ withoutPlus s ≠ [] ∧ (∀ c ∈ withoutPlus s, c.isDigit) ∧
      Nat.ofDigitChars 10 (withoutPlus s) 0 = n := by
  constructor
  · rintro ⟨digits, rfl | rfl, hne, hdigits, hvalue⟩
    · rw [withoutPlus_of_isDigit hdigits]
      exact ⟨hne, hdigits, hvalue⟩
    · exact ⟨hne, hdigits, hvalue⟩
  · exact fun h => ⟨withoutPlus s, withoutPlus_eq s, h⟩

theorem readBelow?_eq_some_iff {bound n : Nat} {s : List Char} :
    readBelow? bound s = some n ↔ Spells s n ∧ n < bound := by
  rw [spells_iff, ← digitsValue?_eq_some_iff, readBelow?]
  split
  next h => simp [h]
  next hne =>
    cases digitsValue? (withoutPlus s) 0 with
    | none => simp
    | some m =>
      have hne' : withoutPlus s ≠ [] := hne
      by_cases hm : m < bound <;> grind

/-! ## Numerals as they are written -/

theorem isDigit_of_mem_toString {n : Nat} {c : Char} (h : c ∈ (toString n).toList) :
    c.isDigit := by
  rw [Nat.toString_eq_ofList_toDigits, String.toList_ofList] at h
  exact Nat.isDigit_of_mem_toDigits (by decide) (by decide) h

theorem notMem_toString {c : Char} (h : ¬ c.isDigit) (n : Nat) : c ∉ (toString n).toList :=
  fun hc => h (isDigit_of_mem_toString hc)

theorem digitsValue?_toString (n : Nat) : digitsValue? (toString n).toList 0 = some n := by
  refine digitsValue?_eq_some_iff.2 ⟨fun c => isDigit_of_mem_toString, ?_⟩
  rw [Nat.toString_eq_ofList_toDigits, String.toList_ofList]
  exact Nat.ofDigitChars_ten_toDigits

theorem spells_toString (n : Nat) : Spells (toString n).toList n := by
  obtain ⟨hdigits, hvalue⟩ := digitsValue?_eq_some_iff.1 (digitsValue?_toString n)
  refine ⟨_, .inl rfl, ?_, hdigits, hvalue⟩
  rw [Nat.toString_eq_ofList_toDigits, String.toList_ofList]
  exact Nat.toDigits_ne_nil

end ArmStream.Number
