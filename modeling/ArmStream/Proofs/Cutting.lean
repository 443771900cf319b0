import Mathlib.Data.List.Infix
import ArmStream.Text.Split

/-!
# Where text is cut

A separator may occur more than once in a text, and its occurrences may overlap. The first cut has
the shortest text in front of it, and the last cut has no separator behind it; each is determined by
the text. Between all cuts lie the pieces.

## Main definitions

- `Text.CutsFirst`: in front of the first occurrence of a separator and behind it.
- `Text.CutsLast`: the same for the last occurrence of a character.

## Main statements

- `Text.cutFirst?_eq_some_iff`, `Text.cutFirst?_eq_none_iff`
- `Text.cutLast?_eq_some_iff`, `Text.cutLast?_eq_none_iff`
- `Text.pieces_append_cons`: the pieces of a text that was put together.
-/

namespace ArmStream.Text

variable {sep s before rest : List Char} {c : Char}

/-- `before` stands in front of the first occurrence of `sep` in `s`, and `rest` behind it. -/
structure CutsFirst (sep s before rest : List Char) : Prop where
  eq : s = before ++ sep ++ rest
  first : ∀ before' rest', s = before' ++ sep ++ rest' → before.length ≤ before'.length

structure CutsLast (c : Char) (s before rest : List Char) : Prop where
  eq : s = before ++ c :: rest
  last : c ∉ rest

theorem CutsFirst.unique {before' rest' : List Char} (h : CutsFirst sep s before rest)
    (h' : CutsFirst sep s before' rest') : before' = before ∧ rest' = rest := by
  have hlength : before.length = before'.length :=
    Nat.le_antisymm (h.first _ _ h'.eq) (h'.first _ _ h.eq)
  have heq := h.eq.symm.trans h'.eq
  simp only [List.append_assoc] at heq
  obtain ⟨rfl, htail⟩ := List.append_inj heq hlength
  exact ⟨rfl, (List.append_cancel_left htail).symm⟩

/-- A text without the first character of a separator may be put in front of it. -/
theorem cutsFirst_append (h : c ∉ before) (sep rest : List Char) :
    CutsFirst (c :: sep) (before ++ c :: sep ++ rest) before rest := by
  refine ⟨rfl, fun before' rest' heq => Nat.le_of_not_lt fun hless => h ?_⟩
  have hearlier : before' ++ [c] <+: before ++ c :: sep ++ rest := ⟨sep ++ rest', by simp [heq]⟩
  have hbegin : before' ++ [c] <+: before :=
    List.prefix_of_prefix_length_le hearlier ⟨c :: sep ++ rest, by simp⟩
      (by simpa using Nat.succ_le_of_lt hless)
  exact hbegin.subset (by simp)

/-! ## The first occurrence -/

theorem afterStart?_eq_some_iff : afterStart? sep s = some rest ↔ s = sep ++ rest := by
  induction sep generalizing s with
  | nil => simp [afterStart?]
  | cons a sep ih => cases s <;> grind [afterStart?]

theorem cutFirst?_eq_none_iff : cutFirst? sep s = none ↔ ¬ sep <:+: s := by
  induction s with
  | nil => simp [cutFirst?]
  | cons c s ih =>
    have hstart : afterStart? sep (c :: s) = none ↔ ¬ sep <+: c :: s := by
      simp only [Option.eq_none_iff_forall_ne_some, ne_eq, afterStart?_eq_some_iff, List.IsPrefix,
        not_exists, eq_comm (a := c :: s)]
    rw [List.infix_cons_iff, not_or, ← ih, ← hstart, cutFirst?]
    cases afterStart? sep (c :: s) <;> simp

theorem cutsFirst_of_cutFirst? (h : cutFirst? sep s = some (before, rest)) :
    CutsFirst sep s before rest := by
  induction s generalizing before with
  | nil =>
    simp only [cutFirst?] at h
    split at h
    next hsep =>
      cases h
      exact ⟨by simp [hsep], fun _ _ _ => Nat.zero_le _⟩
    next => cases h
  | cons c s ih =>
    simp only [cutFirst?] at h
    split at h
    next found hstart =>
      cases h
      exact ⟨by simpa using afterStart?_eq_some_iff.1 hstart, fun _ _ _ => Nat.zero_le _⟩
    next hstart =>
      obtain ⟨⟨front, tail⟩, hlater, heq⟩ := Option.map_eq_some_iff.1 h
      cases heq
      have hcut := ih hlater
      refine ⟨by rw [hcut.eq]; rfl, fun before' rest' heq => ?_⟩
      cases before' with
      | nil =>
        have hfound := afterStart?_eq_some_iff.2 (by simpa using heq)
        cases hstart.symm.trans hfound
      | cons d before' =>
        have htail : s = before' ++ sep ++ rest' := (List.cons.inj heq).2
        exact Nat.succ_le_succ (hcut.first before' rest' htail)

theorem cutFirst?_eq_some_iff :
    cutFirst? sep s = some (before, rest) ↔ CutsFirst sep s before rest := by
  refine ⟨cutsFirst_of_cutFirst?, fun h => ?_⟩
  cases hcut : cutFirst? sep s with
  | none => exact absurd ⟨before, rest, h.eq.symm⟩ (cutFirst?_eq_none_iff.1 hcut)
  | some cut =>
    obtain ⟨hbefore, hrest⟩ := h.unique (cutsFirst_of_cutFirst? hcut)
    rw [← hbefore, ← hrest]

/-- A text without the first character of a separator is passed over. -/
theorem cutFirst?_append (h : c ∉ before) (sep s : List Char) :
    cutFirst? (c :: sep) (before ++ s) =
      (cutFirst? (c :: sep) s).map fun cut => (before ++ cut.1, cut.2) := by
  induction before with
  | nil => simp
  | cons d before ih =>
    obtain ⟨hd, hbefore⟩ := not_or.1 (mt List.mem_cons.2 h)
    rw [List.cons_append, cutFirst?, afterStart?, if_neg hd, ih hbefore]
    simp [Function.comp_def]

/-! ## The last occurrence -/

theorem cutLast?_eq_none_iff : cutLast? c s = none ↔ c ∉ s := by
  induction s with
  | nil => simp [cutLast?]
  | cons d s ih =>
    rw [List.mem_cons, not_or, ← ih, cutLast?]
    cases cutLast? c s <;> simp [eq_comm]

theorem cutsLast_of_cutLast? (h : cutLast? c s = some (before, rest)) :
    CutsLast c s before rest := by
  induction s generalizing before with
  | nil => cases h
  | cons d s ih =>
    simp only [cutLast?] at h
    split at h
    next hlater =>
      cases h
      have hcut := ih hlater
      exact ⟨by rw [hcut.eq]; rfl, hcut.last⟩
    next hlater =>
      split at h
      next hd =>
        cases h
        exact ⟨by rw [hd]; rfl, cutLast?_eq_none_iff.1 hlater⟩
      next => cases h

theorem cutLast?_append_cons (before : List Char) (h : c ∉ rest) :
    cutLast? c (before ++ c :: rest) = some (before, rest) := by
  induction before with
  | nil => simp [cutLast?, cutLast?_eq_none_iff.2 h]
  | cons d before ih => simp [cutLast?, ih]

theorem cutLast?_eq_some_iff :
    cutLast? c s = some (before, rest) ↔ CutsLast c s before rest := by
  refine ⟨cutsLast_of_cutLast?, fun h => ?_⟩
  rw [h.eq, cutLast?_append_cons before h.last]

/-! ## All pieces -/

theorem pieces_of_notMem (h : c ∉ s) : pieces c s = [s] := by
  induction s with
  | nil => rfl
  | cons d s ih =>
    obtain ⟨hd, hs⟩ := not_or.1 (mt List.mem_cons.2 h)
    simp [pieces, ih hs, Ne.symm hd]

theorem pieces_append_cons (h : c ∉ before) (rest : List Char) :
    pieces c (before ++ c :: rest) = before :: pieces c rest := by
  induction before with
  | nil => simp [pieces]
  | cons d before ih =>
    obtain ⟨hd, hbefore⟩ := not_or.1 (mt List.mem_cons.2 h)
    simp [pieces, ih hbefore, Ne.symm hd]

/-- A character that is no separator stands in one of the pieces. -/
theorem exists_mem_pieces {d : Char} (h : d ∈ s) (hne : d ≠ c) :
    ∃ piece ∈ pieces c s, d ∈ piece := by
  induction s with
  | nil => simp at h
  | cons a s ih =>
    rw [pieces]
    split
    next ha =>
      obtain ⟨piece, hpiece, hd⟩ := ih ((List.mem_cons.1 h).resolve_left fun hda => hne (hda ▸ ha))
      exact ⟨piece, List.mem_cons_of_mem _ hpiece, hd⟩
    next =>
      split
      next first rest hpieces =>
        rcases List.mem_cons.1 h with rfl | hs
        · exact ⟨d :: first, by simp, by simp⟩
        · obtain ⟨piece, hpiece, hd⟩ := ih hs
          rcases List.mem_cons.1 (hpieces ▸ hpiece) with rfl | hrest
          · exact ⟨a :: piece, by simp, List.mem_cons_of_mem a hd⟩
          · exact ⟨piece, List.mem_cons_of_mem _ hrest, hd⟩
      next hnone =>
        rcases List.mem_cons.1 h with rfl | hs
        · exact ⟨[d], by simp, by simp⟩
        · obtain ⟨piece, hpiece, -⟩ := ih hs
          simp [hnone] at hpiece

end ArmStream.Text
