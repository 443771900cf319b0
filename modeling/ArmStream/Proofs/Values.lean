import Mathlib.Data.List.TakeWhile
import ArmStream.Command.Values
import ArmStream.Proofs.Cutting

/-!
# Lists of values

A list of values is blank, or pieces with a comma between each two. A piece is a numeral with blanks
around it. The list has the values of its pieces in their order, or else its first piece that is no
numeral is reported. So nothing is dropped, and an empty piece is an error.

## Main definitions

- `Text.Joins`: a text is made of pieces with a separator between them.
- `Text.Trims`: a text without the blanks around it.
- `Command.ParsesTo`: what a list of values comes to.

## Main statements

- `Text.pieces_eq_iff`, `Text.trim_eq_iff`
- `Command.parseValues_eq_iff`
-/

namespace ArmStream

namespace Text

variable {c : Char} {s core : List Char} {ps : List (List Char)}

/-! ## Pieces -/

/-- The text is made of these pieces, with the separator between each two and in none of them. -/
inductive Joins (c : Char) : List (List Char) → List Char → Prop where
  | one {piece : List Char} (h : c ∉ piece) : Joins c [piece] piece
  | cons {piece s : List Char} {ps : List (List Char)} (h : c ∉ piece) (hjoins : Joins c ps s) :
      Joins c (piece :: ps) (piece ++ c :: s)

theorem joins_pieces (c : Char) (s : List Char) : Joins c (pieces c s) s := by
  induction s with
  | nil => exact .one List.not_mem_nil
  | cons d s ih =>
    by_cases hd : d = c
    · subst hd
      simpa [pieces] using Joins.cons List.not_mem_nil ih
    · have hnot {piece : List Char} (h : c ∉ piece) : c ∉ d :: piece :=
        List.not_mem_cons_of_ne_of_not_mem (Ne.symm hd) h
      -- the first piece gets one character more
      rw [pieces, if_neg hd]
      generalize pieces c s = ps at ih
      cases ih with
      | one h => exact .one (hnot h)
      | cons h hjoins => exact .cons (hnot h) hjoins

/-- A text has only one way to be made of pieces. -/
theorem pieces_eq_iff : pieces c s = ps ↔ Joins c ps s := by
  constructor
  · rintro rfl
    exact joins_pieces c s
  · intro h
    induction h with
    | one h => exact pieces_of_notMem h
    | cons h _ ih => rw [pieces_append_cons h, ih]

/-! ## Blanks -/

/-- The text is `core` with blanks around it, and `core` neither begins nor ends with one. -/
structure Trims (s core : List Char) : Prop where
  eq : ∃ left right, s = left ++ core ++ right ∧ (∀ c ∈ left, isBlank c = true) ∧
    ∀ c ∈ right, isBlank c = true
  head : ∀ c ∈ core.head?, isBlank c = false
  last : ∀ c ∈ core.getLast?, isBlank c = false

theorem head_dropWhile (s : List Char) : ∀ c ∈ (s.dropWhile isBlank).head?, isBlank c = false := by
  induction s with
  | nil => simp
  | cons c s ih =>
    rw [List.dropWhile_cons]
    split
    next => exact ih
    next hc => simpa using hc

/-- Dropping blanks in front of what does not begin with one. -/
theorem dropWhile_append_of_head {left : List Char} (hleft : ∀ c ∈ left, isBlank c = true)
    (h : ∀ c ∈ s.head?, isBlank c = false) : (left ++ s).dropWhile isBlank = s := by
  rw [List.dropWhile_append_of_pos hleft]
  cases s with
  | nil => rfl
  | cons c s => simp [h c (by simp)]

theorem trims_trim (s : List Char) : Trims s (trim s) := by
  have hfront : s = s.takeWhile isBlank ++ s.dropWhile isBlank :=
    (List.takeWhile_append_dropWhile).symm
  have hback : s.dropWhile isBlank =
      trim s ++ ((s.dropWhile isBlank).reverse.takeWhile isBlank).reverse := by
    rw [trim, ← List.reverse_append, List.takeWhile_append_dropWhile, List.reverse_reverse]
  refine ⟨⟨s.takeWhile isBlank, ((s.dropWhile isBlank).reverse.takeWhile isBlank).reverse, ?_,
    fun c hc => List.mem_takeWhile_imp hc, fun c hc => ?_⟩, fun c hc => ?_, fun c hc => ?_⟩
  · rw [List.append_assoc, ← hback, ← hfront]
  · exact List.mem_takeWhile_imp (List.mem_reverse.1 hc)
  · have hhead := head_dropWhile s c
    rw [hback, List.head?_append, Option.mem_def.1 hc] at hhead
    exact hhead rfl
  · apply head_dropWhile (s.dropWhile isBlank).reverse
    rwa [trim, List.getLast?_reverse] at hc

/-- A text has only one way to be trimmed. -/
theorem trim_eq_iff : trim s = core ↔ Trims s core := by
  constructor
  · rintro rfl
    exact trims_trim s
  · rintro ⟨⟨left, right, rfl, hleft, hright⟩, hhead, hlast⟩
    have hreverse : ∀ c ∈ right.reverse, isBlank c = true := by simpa using hright
    cases core with
    | nil =>
      have hnone : (left ++ [] ++ right).dropWhile isBlank = [] :=
        List.dropWhile_eq_nil_iff.2 (by grind)
      rw [trim, hnone]
      rfl
    | cons d core =>
      have hcore : ∀ c ∈ (d :: core ++ right).head?, isBlank c = false := by simpa using hhead
      have hend : ∀ c ∈ (d :: core).reverse.head?, isBlank c = false := by
        rwa [List.head?_reverse]
      rw [trim, List.append_assoc, dropWhile_append_of_head hleft hcore, List.reverse_append,
        dropWhile_append_of_head hreverse hend, List.reverse_reverse]

end Text

namespace Command

open Text Number

variable {ps : List (List Char)} {values : List Pattern}

/-! ## Values -/

/-- The piece is a numeral with blanks around it, and this is its value. -/
def Spells (piece : List Char) (value : Pattern) : Prop :=
  ∃ core, Trims piece core ∧ readPattern core = .ok value

theorem spells_iff {piece : List Char} {value : Pattern} :
    Spells piece value ↔ readPattern (trim piece) = .ok value := by
  constructor
  · rintro ⟨core, hcore, hread⟩
    rwa [trim_eq_iff.2 hcore]
  · intro h
    exact ⟨trim piece, trims_trim piece, h⟩

inductive ParsesTo (text : List Char) : Except BadValue (List Pattern) → Prop where
  /-- A blank list has no values. -/
  | blank (hblank : ∀ c ∈ text, isBlank c = true) : ParsesTo text (.ok [])
  /-- Each piece spells a value. -/
  | values {ps : List (List Char)} {values : List Pattern}
      (hvisible : ∃ c ∈ text, isBlank c = false)
      (hjoins : Joins ',' ps text) (hspells : List.Forall₂ Spells ps values) :
      ParsesTo text (.ok values)
  /-- The pieces before one spell values, and that one is no numeral. -/
  | bad {before after : List (List Char)} {piece core : List Char} {cause : NumeralError}
      (hvisible : ∃ c ∈ text, isBlank c = false)
      (hjoins : Joins ',' (before ++ piece :: after) text)
      (hbefore : ∀ p ∈ before, ∃ value, Spells p value) (hcore : Trims piece core)
      (hcause : readPattern core = .error cause) :
      ParsesTo text (.error ⟨String.ofList core, cause⟩)

theorem readPieces_of_spells (h : List.Forall₂ Spells ps values) : readPieces ps = .ok values := by
  induction h with
  | nil => rfl
  | cons hspells _ ih => simp [readPieces, spells_iff.1 hspells, ih]

theorem readPieces_of_bad {before after : List (List Char)} {piece : List Char}
    {cause : NumeralError} (hbefore : ∀ p ∈ before, ∃ value, Spells p value)
    (hcause : readPattern (trim piece) = .error cause) :
    readPieces (before ++ piece :: after) = .error ⟨String.ofList (trim piece), cause⟩ := by
  induction before with
  | nil => simp [readPieces, hcause]
  | cons p before ih =>
    obtain ⟨value, hvalue⟩ := hbefore p List.mem_cons_self
    simp [readPieces, spells_iff.1 hvalue, ih fun q hq => hbefore q (List.mem_cons_of_mem p hq)]

/-- All pieces spell values, or there is a first that does not. -/
theorem spells_or_bad (ps : List (List Char)) :
    (∃ values, List.Forall₂ Spells ps values) ∨
      ∃ before piece after cause, ps = before ++ piece :: after ∧
        (∀ p ∈ before, ∃ value, Spells p value) ∧ readPattern (trim piece) = .error cause := by
  induction ps with
  | nil => exact .inl ⟨[], .nil⟩
  | cons piece ps ih =>
    cases hread : readPattern (trim piece) with
    | error cause => exact .inr ⟨[], piece, ps, cause, rfl, by simp, hread⟩
    | ok value =>
      have hspells := spells_iff.2 hread
      rcases ih with ⟨values, hvalues⟩ | ⟨before, bad, after, cause, rfl, hbefore, hcause⟩
      · exact .inl ⟨value :: values, .cons hspells hvalues⟩
      · refine .inr ⟨piece :: before, bad, after, cause, rfl, fun p hp => ?_, hcause⟩
        rcases List.mem_cons.1 hp with rfl | hp
        · exact ⟨value, hspells⟩
        · exact hbefore p hp

theorem parsesTo_parseValues (text : String) : ParsesTo text.toList (parseValues text) := by
  unfold parseValues
  dsimp only
  split
  next hblank => exact .blank (List.all_eq_true.1 hblank)
  next hblank =>
    have hvisible : ∃ c ∈ text.toList, isBlank c = false := by simpa [isAllBlank] using hblank
    have hjoins := joins_pieces ',' text.toList
    rcases spells_or_bad (pieces ',' text.toList) with ⟨values, hvalues⟩ |
      ⟨before, piece, after, cause, heq, hbefore, hcause⟩
    · rw [readPieces_of_spells hvalues]
      exact .values hvisible hjoins hvalues
    · rw [heq] at hjoins ⊢
      rw [readPieces_of_bad hbefore hcause]
      exact .bad hvisible hjoins hbefore (trims_trim piece) hcause

/-- A list of values comes to one result. -/
theorem parseValues_eq_iff {text : String} {r : Except BadValue (List Pattern)} :
    parseValues text = r ↔ ParsesTo text.toList r := by
  constructor
  · rintro rfl
    exact parsesTo_parseValues text
  · have hpieces (hvisible : ∃ c ∈ text.toList, isBlank c = false) {ps : List (List Char)}
        (hjoins : Joins ',' ps text.toList) : parseValues text = readPieces ps := by
      have hblank : isAllBlank text.toList = false := by simpa [isAllBlank] using hvisible
      simp [parseValues, hblank, pieces_eq_iff.2 hjoins]
    intro h
    cases h with
    | blank hblank => simp [parseValues, isAllBlank, List.all_eq_true.2 hblank]
    | values hvisible hjoins hspells =>
      rw [hpieces hvisible hjoins, readPieces_of_spells hspells]
    | bad hvisible hjoins hbefore hcore hcause =>
      obtain rfl := trim_eq_iff.2 hcore
      rw [hpieces hvisible hjoins, readPieces_of_bad hbefore hcause]

/-- An empty piece is no numeral. -/
theorem not_spells_of_blank {piece : List Char} (h : ∀ c ∈ piece, isBlank c = true)
    (value : Pattern) : ¬Spells piece value := by
  have htrim : trim piece = [] := trim_eq_iff.2 ⟨⟨piece, [], by simp, h, by simp⟩, by simp, by simp⟩
  rw [spells_iff, htrim]
  simp [readPattern]

end Command

end ArmStream
