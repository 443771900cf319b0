import Mathlib.Tactic.IntervalCases
import ArmStream.Toml.Written

/-!
# Reading back a quoted text

A text is written in one of four forms, and the reader learns the form from the first marks.
Behind the opening, reading goes character by character. Between two characters the reader looks
for the end of the text and, if there is none, takes one character: as itself, or the one that an
escape stands for. So there are two questions in each form: does a written character read as
itself, and is the end found at the end and nowhere before?

On one line every mark in the text is escaped, or there is none. Over several lines up to two
marks in a row stand as they are, also right before the closing ones: there the reader sees up to
five, of which the last three close.

## Main definitions

- `leadingRun`: how many marks a text starts with.

## Main statements

- `readEscaped?_escaped`: what is written for a character reads as the character.
- `end?_append`: a text that starts with at most two marks closes only if it holds nothing
  else.
- `readString?_writeChars`: a written text reads as itself, and what follows it is left.
-/

namespace ArmStream.Toml

/-! ## The end of a text -/

def leadingRun (mark : Char) (s : List Char) : Nat :=
  (s.takeWhile (· = mark)).length

@[simp] theorem leadingRun_nil (mark : Char) : leadingRun mark [] = 0 := rfl

theorem leadingRun_cons (mark c : Char) (s : List Char) :
    leadingRun mark (c :: s) = if c = mark then leadingRun mark s + 1 else 0 := by
  by_cases h : c = mark <;> simp [leadingRun, h]

/-- The marks at the start of a text, and the text behind them. -/
theorem eq_replicate_append (mark : Char) (s : List Char) :
    ∃ tail, s = List.replicate (leadingRun mark s) mark ++ tail ∧ tail.head? ≠ some mark := by
  induction s with
  | nil => exact ⟨[], by simp⟩
  | cons c s ih =>
    by_cases h : c = mark
    · obtain ⟨tail, hs, hhead⟩ := ih
      refine ⟨tail, ?_, hhead⟩
      rw [leadingRun_cons, if_pos h, List.replicate_succ, List.cons_append, ← hs, h]
    · exact ⟨c :: s, by simp [leadingRun_cons, h]⟩

/-- A mark that is not at hand does not end a text. -/
theorem end?_of_ne (multi : Bool) {mark c : Char} (h : c ≠ mark) (s : List Char) :
    Toml.end? multi mark (c :: s) = none := by
  cases multi <;> simp [end?, closing?, h]

/-- Of at most five marks in a row the last three close, if there are as many. -/
theorem closing?_replicate (mark : Char) {k : Nat} (hk : k ≤ 5) {tail : List Char}
    (htail : tail.head? ≠ some mark) :
    closing? mark (List.replicate k mark ++ tail) =
      if 3 ≤ k then some (List.replicate (k - 3) mark, tail) else none := by
  have hrun : ((List.replicate k mark ++ tail).take 5).takeWhile (· = mark) =
      List.replicate k mark := by
    have hmarks : ∀ c ∈ List.replicate k mark, decide (c = mark) = true := by
      intro c hc
      simpa using List.eq_of_mem_replicate hc
    have hstop : (tail.take (5 - k)).takeWhile (· = mark) = [] := by
      cases tail with
      | nil => simp
      | cons c tail =>
        have hc : c ≠ mark := by simpa using htail
        cases 5 - k <;> simp [hc]
    have htake : (List.replicate k mark).take 5 = List.replicate k mark := by
      simp [hk]
    rw [List.take_append, htake, List.length_replicate, List.takeWhile_append_of_pos hmarks,
      hstop, List.append_nil]
  simp [closing?, hrun]

/-- Before the three marks that close it, a text that starts with at most two marks ends only
if it holds nothing else. -/
theorem end?_append {mark : Char} {s : List Char} (hs : leadingRun mark s ≤ 2)
    {rest : List Char} (hrest : rest.head? ≠ some mark) :
    Toml.end? true mark (s ++ (List.replicate 3 mark ++ rest)) =
      if s = List.replicate (leadingRun mark s) mark then some (s, rest) else none := by
  obtain ⟨tail, heq, hhead⟩ := eq_replicate_append mark s
  show closing? mark _ = _
  cases tail with
  | nil =>
    have hall : s = List.replicate (leadingRun mark s) mark := by simpa using heq
    have hclose := closing?_replicate mark (show leadingRun mark s + 3 ≤ 5 by omega) hrest
    rw [← List.replicate_append_replicate, List.append_assoc, ← hall] at hclose
    rw [if_pos hall, hclose]
    simp [← hall]
  | cons c tail =>
    have hall : s ≠ List.replicate (leadingRun mark s) mark := by
      intro h
      have := congrArg List.length (heq.symm.trans h)
      simp at this
    have hbehind : (c :: tail ++ (List.replicate 3 mark ++ rest)).head? ≠ some mark := by
      simpa using hhead
    have hclose := closing?_replicate mark (show leadingRun mark s ≤ 5 by omega) hbehind
    rw [← List.append_assoc, ← heq] at hclose
    rw [if_neg hall, hclose, if_neg (by omega)]

/-! ## One character -/

theorem hexDigit?_upperHexDigit {n : Nat} (h : n < 16) :
    Ip.hexDigit? (upperHexDigit n) = some n := by
  interval_cases n <;> rfl

theorem charOf?_toNat (c : Char) : charOf? c.toNat = some c := by
  have hvalid : c.toNat.isValidChar := c.valid
  rw [charOf?, if_pos hvalid, Char.ofNat_toNat]

/-- The reader stops where the text ends. -/
theorem readEscaped?_end {multi : Bool} {s : List Char} {found : List Char × List Char}
    (h : end? multi '"' s = some found) : readEscaped? multi .plain s = some found := by
  cases s with
  | nil => cases multi <;> simp [end?, closing?] at h
  | cons c s => simp [readEscaped?, Mode.enter, h]

/-- The reader takes a character for itself. -/
theorem readEscaped?_plain {multi : Bool} {c : Char} {tail : List Char}
    (hend : end? multi '"' (c :: tail) = none)
    (hmove : plainMove multi c tail.head? = .emit c) :
    readEscaped? multi .plain (c :: tail) =
      (readEscaped? multi .plain tail).map fun (text, rest) => (c :: text, rest) := by
  simp [readEscaped?, Mode.enter, hend, hmove]

@[simp] theorem readEscaped?_backslash (multi : Bool) (tail : List Char) :
    readEscaped? multi .plain ('\\' :: tail) = readEscaped? multi .escape tail := by
  have hend : end? multi '"' ('\\' :: tail) = none := end?_of_ne multi (by decide) tail
  simp [readEscaped?, Mode.enter, hend, plainMove]

/-- The character behind a backslash names one. -/
theorem readEscaped?_named {multi : Bool} {mark c : Char} {tail : List Char}
    (hmove : escapeMove multi mark tail.head? = .emit c) :
    readEscaped? multi .escape (mark :: tail) =
      (readEscaped? multi .plain tail).map fun (text, rest) => (c :: text, rest) := by
  simp [readEscaped?, Mode.enter, hmove]

/-- A digit of a code point that is not the last. -/
theorem readEscaped?_digit (multi : Bool) (left value : Nat) {n : Nat} (hn : n < 16)
    (tail : List Char) :
    readEscaped? multi (.code (left + 2) value) (upperHexDigit n :: tail) =
      readEscaped? multi (.code (left + 1) (16 * value + n)) tail := by
  simp [readEscaped?, Mode.enter, codeMove, hexDigit?_upperHexDigit hn]

/-- The last digit of a code point. -/
theorem readEscaped?_lastDigit (multi : Bool) (value : Nat) {n : Nat} (hn : n < 16) {c : Char}
    (hc : 16 * value + n = c.toNat) (tail : List Char) :
    readEscaped? multi (.code 1 value) (upperHexDigit n :: tail) =
      (readEscaped? multi .plain tail).map fun (text, rest) => (c :: text, rest) := by
  simp [readEscaped?, Mode.enter, codeMove, hexDigit?_upperHexDigit hn, hc, charOf?_toNat]

theorem toNat_lt_of_isControl {c : Char} (h : isControl c = true) : c.toNat < 128 := by
  simp only [isControl, Bool.or_eq_true, Bool.and_eq_true, decide_eq_true_eq] at h
  omega

/-- A control character is read from its four digits. -/
theorem readEscaped?_code (multi : Bool) {c : Char} (hc : isControl c = true)
    (tail : List Char) :
    readEscaped? multi .escape
        (['u', '0', '0', upperHexDigit (c.toNat / 16), upperHexDigit (c.toNat % 16)] ++ tail) =
      (readEscaped? multi .plain tail).map fun (text, rest) => (c :: text, rest) := by
  have hlt := toNat_lt_of_isControl hc
  have hopen (s : List Char) :
      readEscaped? multi .escape ('u' :: s) = readEscaped? multi (.code 4 0) s := by
    simp [readEscaped?, Mode.enter, escapeMove]
  have hzero : '0' = upperHexDigit 0 := rfl
  simp only [List.cons_append, List.nil_append]
  rw [hopen, hzero, readEscaped?_digit multi 2 0 (by omega),
    readEscaped?_digit multi 1 _ (by omega), readEscaped?_digit multi 0 _ (by omega)]
  exact readEscaped?_lastDigit multi _ (by omega) (by omega) tail

/-- What is written for a character reads as the character. -/
theorem readEscaped?_escaped (multi : Bool) (c : Char) (tail : List Char) :
    readEscaped? multi .plain (escaped c ++ tail) =
      (readEscaped? multi .plain tail).map fun (text, rest) => (c :: text, rest) := by
  unfold escaped
  split_ifs with hb ht hn hf hr hq hs hcontrol
  all_goals simp only [List.cons_append, List.nil_append, readEscaped?_backslash]
  · exact readEscaped?_named (by rw [← Char.ofNat_toNat c, hb]; rfl)
  · exact readEscaped?_named (by simp [escapeMove, ht])
  · exact readEscaped?_named (by simp [escapeMove, hn])
  · exact readEscaped?_named (by rw [← Char.ofNat_toNat c, hf]; rfl)
  · exact readEscaped?_named (by simp [escapeMove, hr])
  · exact readEscaped?_named (by simp [escapeMove, hq])
  · exact readEscaped?_named (by simp [escapeMove, hs])
  · exact readEscaped?_code multi hcontrol tail
  · have hmove : plainMove multi c tail.head? = .emit c := by
      simp [plainMove, hs, hn, hr, hcontrol]
    exact readEscaped?_plain (end?_of_ne multi hq tail) hmove

/-! ## One line -/

/-- On one line with escapes: the text ends at the mark behind it. -/
theorem readEscaped?_flatMap (s rest : List Char) :
    readEscaped? false .plain (s.flatMap escaped ++ '"' :: rest) = some (s, rest) := by
  induction s with
  | nil => exact readEscaped?_end (by simp [end?])
  | cons c s ih => simp [readEscaped?_escaped, ih]

/-- The reader stops where the text ends. -/
theorem readRaw?_end {multi : Bool} {s : List Char} {found : List Char × List Char}
    (h : end? multi '\'' s = some found) : readRaw? multi s = some found := by
  cases s with
  | nil => cases multi <;> simp [end?, closing?] at h
  | cons c s => simp [readRaw?, h]

/-- The reader takes a character for itself. -/
theorem readRaw?_plain {multi : Bool} {c : Char} {tail : List Char}
    (hend : end? multi '\'' (c :: tail) = none)
    (hc : (multi && c = '\n') = true ∨ isControl c = false) :
    readRaw? multi (c :: tail) =
      (readRaw? multi tail).map fun (text, rest) => (c :: text, rest) := by
  have hallowed : ((multi && (c = '\n' || (c = '\r' && tail.head? = some '\n'))) ||
      !isControl c) = true := by
    rcases hc with hc | hc <;> simp_all
  rw [readRaw?, hend]
  simp only [hallowed, if_true]

/-- On one line without escapes: no character of the text is the mark, and each may stand as
itself. -/
theorem readRaw?_line {s : List Char} (hmark : '\'' ∉ s) (hcontrol : hasControl s = false)
    (hline : '\n' ∉ s) (rest : List Char) :
    readRaw? false (s ++ '\'' :: rest) = some (s, rest) := by
  induction s with
  | nil => simp [readRaw?, end?]
  | cons c s ih =>
    simp only [List.mem_cons, not_or] at hmark hline
    simp only [hasControl, List.any_cons, Bool.or_eq_false_iff] at hcontrol
    have hne : c ≠ '\'' := Ne.symm hmark.1
    have hend : end? false '\'' (c :: (s ++ '\'' :: rest)) = none := end?_of_ne false hne _
    have hc : isControl c = false := by
      have hne : c ≠ '\n' := Ne.symm hline.1
      simpa [hne] using hcontrol.1
    rw [List.cons_append, readRaw?_plain hend (.inr hc), ih hmark.2 hcontrol.2 hline.2]
    rfl

/-! ## Several lines -/

/-- A text starts with no more marks than stand in its longest run. -/
theorem leadingRun_le_longestRunOf (mark : Char) (current : Nat) (s : List Char) :
    current + leadingRun mark s ≤ longestRunOf mark current s := by
  induction s generalizing current with
  | nil => simp [longestRunOf]
  | cons c s ih =>
    have := ih (current + 1)
    rw [leadingRun_cons, longestRunOf]
    split_ifs <;> omega

theorem longestRunOf_mono (mark : Char) {a b : Nat} (h : a ≤ b) (s : List Char) :
    longestRunOf mark a s ≤ longestRunOf mark b s := by
  induction s generalizing a b with
  | nil => exact h
  | cons c s ih =>
    have := ih (Nat.succ_le_succ h)
    simp only [longestRunOf]
    split_ifs <;> omega

/-- The text behind a character has no longer runs. -/
theorem longestRunOf_tail_le (mark c : Char) (current : Nat) (s : List Char) :
    longestRunOf mark 0 s ≤ longestRunOf mark current (c :: s) := by
  have := longestRunOf_mono mark (Nat.zero_le (current + 1)) s
  rw [longestRunOf]
  split_ifs <;> omega

/-- Over several lines without escapes: the text has at most two marks in a row, so that three
are found behind it only. -/
theorem readRaw?_lines {s : List Char} (hmarks : longestRunOf '\'' 0 s < 3)
    (hcontrol : hasControl s = false) {rest : List Char} (hrest : rest.head? ≠ some '\'') :
    readRaw? true (s ++ (List.replicate 3 '\'' ++ rest)) = some (s, rest) := by
  induction s with
  | nil =>
    have hend := end?_append (s := []) (by simp) hrest
    exact readRaw?_end hend
  | cons c s ih =>
    have hrun := leadingRun_le_longestRunOf '\'' 0 (c :: s)
    have hend := end?_append (s := c :: s) (by omega) hrest
    split_ifs at hend with hall
    · exact readRaw?_end hend
    · have htail := longestRunOf_tail_le '\'' c 0 s
      simp only [hasControl, List.any_cons, Bool.or_eq_false_iff] at hcontrol
      have hc : (true && c = '\n') = true ∨ isControl c = false := by
        by_cases hne : c = '\n'
        · simp [hne]
        · simpa [hne] using hcontrol.1
      rw [List.cons_append] at hend ⊢
      rw [readRaw?_plain hend hc, ih (by omega) hcontrol.2]
      rfl

/-- What is written for a character starts neither with the mark nor with a line end. -/
theorem exists_escaped_cons (c : Char) :
    ∃ d tail, escaped c = d :: tail ∧ d ≠ '"' ∧ d ≠ '\n' ∧ d ≠ '\r' := by
  unfold escaped
  split_ifs with _ _ hn _ hr hq
  all_goals first | exact ⟨_, _, rfl, by decide⟩ | exact ⟨_, _, rfl, hq, hn, hr⟩

/-- What is written for a text with escapes over several lines starts with a mark only where the
text does. -/
theorem escapedLines_cons (marks : Nat) (c : Char) (s : List Char) :
    (c = '"' ∧ marks ≠ 2 ∧ escapedLines marks (c :: s) = '"' :: escapedLines (marks + 1) s) ∨
      ∃ d tail, escapedLines marks (c :: s) = d :: tail ∧ d ≠ '"' := by
  obtain ⟨d, tail, hc, hd, -⟩ := exists_escaped_cons c
  rw [escapedLines]
  split_ifs with hq hmarks hn
  · exact .inr ⟨_, _, rfl, by decide⟩
  · exact .inl ⟨hq, hmarks, rfl⟩
  · exact .inr ⟨_, _, rfl, by decide⟩
  · exact .inr ⟨d, _, by rw [hc]; rfl, hd⟩

/-- Of the marks in a row each third is escaped. -/
theorem leadingRun_escapedLines {marks : Nat} (h : marks ≤ 2) (s : List Char) :
    marks + leadingRun '"' (escapedLines marks s) ≤ 2 := by
  induction s generalizing marks with
  | nil => simpa [escapedLines] using h
  | cons c s ih =>
    obtain ⟨-, hmarks, heq⟩ | ⟨d, tail, heq, hd⟩ := escapedLines_cons marks c s
    · have := ih (show marks + 1 ≤ 2 by omega)
      rw [heq, leadingRun_cons, if_pos rfl]
      omega
    · rw [heq, leadingRun_cons, if_neg hd]
      omega

/-- If only marks are written, the text was of these marks. -/
theorem eq_of_escapedLines {marks k : Nat} {s : List Char}
    (h : escapedLines marks s = List.replicate k '"') : escapedLines marks s = s := by
  induction s generalizing marks k with
  | nil => rfl
  | cons c s ih =>
    obtain ⟨rfl, -, heq⟩ | ⟨d, tail, heq, hd⟩ := escapedLines_cons marks c s
    · cases k with
      | zero => simp [heq] at h
      | succ k =>
        rw [heq, List.replicate_succ, List.cons.injEq] at h
        rw [heq, ih h.2]
    · cases k with
      | zero => simp [heq] at h
      | succ k => simp [heq, List.replicate_succ, hd] at h

/-- Over several lines with escapes. -/
theorem readEscaped?_escapedLines {marks : Nat} (hmarks : marks ≤ 2) (s : List Char)
    {rest : List Char} (hrest : rest.head? ≠ some '"') :
    readEscaped? true .plain (escapedLines marks s ++ (List.replicate 3 '"' ++ rest)) =
      some (s, rest) := by
  induction s generalizing marks with
  | nil =>
    have hend := end?_append (s := []) (by simp) hrest
    exact readEscaped?_end hend
  | cons c s ih =>
    have hrun := leadingRun_escapedLines hmarks (c :: s)
    have hend := end?_append (s := escapedLines marks (c :: s)) (by omega) hrest
    split_ifs at hend with hall
    · rw [readEscaped?_end hend, eq_of_escapedLines hall]
    · rw [escapedLines] at hend ⊢
      split_ifs at hend ⊢ with hq htwo hn
      · have hmark := readEscaped?_escaped true '"'
          (escapedLines 0 s ++ (List.replicate 3 '"' ++ rest))
        rw [ih (by omega)] at hmark
        rw [hq]
        exact hmark
      · have hmove (next : Option Char) : plainMove true '"' next = .emit '"' := rfl
        rw [List.cons_append] at hend ⊢
        rw [readEscaped?_plain hend (hmove _), ih (by omega), hq]
        rfl
      · have hmove (next : Option Char) : plainMove true '\n' next = .emit '\n' := rfl
        rw [List.cons_append] at hend ⊢
        rw [readEscaped?_plain hend (hmove _), ih (by omega), hn]
        rfl
      · rw [List.append_assoc, readEscaped?_escaped, ih (by omega)]
        rfl

/-- The line end put behind an opening over several lines is the one that is dropped; if none is
put there, none is dropped. -/
theorem dropLineEnd_leadingLineEnd {s written : List Char}
    (h : '\n' ∉ s → ∃ c tail, written = c :: tail ∧ c ≠ '\n' ∧ c ≠ '\r') :
    dropLineEnd (leadingLineEnd s ++ written) = written := by
  by_cases hline : '\n' ∈ s
  · simp [leadingLineEnd, hline, dropLineEnd]
  · obtain ⟨c, tail, rfl, hn, hr⟩ := h hline
    have hlead : leadingLineEnd s = [] := by simp [leadingLineEnd, hline]
    rw [hlead, List.nil_append]
    unfold dropLineEnd
    split <;> simp_all

/-- A text without line ends that is written over several lines starts with none. -/
theorem exists_escapedLines_cons {s : List Char} (hline : '\n' ∉ s) (rest : List Char) :
    ∃ c tail, escapedLines 0 s ++ '"' :: rest = c :: tail ∧ c ≠ '\n' ∧ c ≠ '\r' := by
  cases s with
  | nil => exact ⟨'"', rest, rfl, by decide⟩
  | cons c s =>
    simp only [List.mem_cons, not_or] at hline
    obtain ⟨d, tail, hc, -, hd⟩ := exists_escaped_cons c
    rw [escapedLines]
    split_ifs with hq hmarks hn
    · exact ⟨_, _, rfl, by decide⟩
    · exact ⟨_, _, rfl, by decide⟩
    · exact absurd hn (Ne.symm hline.1)
    · exact ⟨d, _, by rw [hc]; rfl, hd⟩

/-- A text without line ends and control characters starts with no line end. -/
theorem exists_cons_of_hasControl {s : List Char} (hline : '\n' ∉ s)
    (hcontrol : hasControl s = false) (rest : List Char) :
    ∃ c tail, s ++ '\'' :: rest = c :: tail ∧ c ≠ '\n' ∧ c ≠ '\r' := by
  cases s with
  | nil => exact ⟨'\'', rest, rfl, by decide⟩
  | cons c s =>
    refine ⟨c, _, rfl, by grind, ?_⟩
    rintro rfl
    simp [hasControl, isControl] at hcontrol

/-! ## Any form -/

theorem Form.of_literal {s : List Char} (h : Form.of s = .literal) :
    hasControl s = false ∧ '\n' ∉ s ∧ '\'' ∉ s := by
  unfold Form.of at h
  grind

theorem Form.of_literalLines {s : List Char} (h : Form.of s = .literalLines) :
    hasControl s = false ∧ longestRunOf '\'' 0 s < 3 := by
  unfold Form.of at h
  grind

theorem readString?_quoted {s : List Char} (h : ∀ tail, s ≠ '"' :: '"' :: tail) :
    readString? ('"' :: s) = readEscaped? false .plain s := by
  unfold readString?
  split <;> simp_all

theorem readString?_literal {s : List Char} (h : ∀ tail, s ≠ '\'' :: '\'' :: tail) :
    readString? ('\'' :: s) = readRaw? false s := by
  unfold readString?
  split <;> simp_all

/-- A written text reads as itself, and what follows it is left. -/
theorem readString?_writeChars (s : List Char) {rest : List Char}
    (hquote : rest.head? ≠ some '"') (happ : rest.head? ≠ some '\'') :
    readString? (writeChars s ++ rest) = some (s, rest) := by
  unfold writeChars
  cases hform : Form.of s with
  | quoted =>
    have hopen (tail : List Char) : s.flatMap escaped ++ '"' :: rest ≠ '"' :: '"' :: tail := by
      cases s with
      | nil => intro h; simp_all
      | cons c s =>
        obtain ⟨d, t, hc, hd, -⟩ := exists_escaped_cons c
        simp [hc, hd]
    have := readEscaped?_flatMap s rest
    simpa [readString?_quoted hopen] using this
  | literal =>
    obtain ⟨hcontrol, hline, hmark⟩ := Form.of_literal hform
    have hopen (tail : List Char) : s ++ '\'' :: rest ≠ '\'' :: '\'' :: tail := by
      cases s with
      | nil => intro h; simp_all
      | cons c s =>
        have hc : c ≠ '\'' := by grind
        simp [hc]
    have := readRaw?_line hmark hcontrol hline rest
    simpa [readString?_literal hopen] using this
  | quotedLines =>
    have hdrop := dropLineEnd_leadingLineEnd fun hline : '\n' ∉ s =>
      exists_escapedLines_cons hline ('"' :: '"' :: rest)
    have hread := readEscaped?_escapedLines (show 0 ≤ 2 by omega) s hquote
    calc readString? (['"', '"', '"'] ++ leadingLineEnd s ++ escapedLines 0 s ++
            ['"', '"', '"'] ++ rest)
        = readEscaped? true .plain
            (dropLineEnd (leadingLineEnd s ++
              (escapedLines 0 s ++ '"' :: '"' :: '"' :: rest))) := by
          simp [readString?]
      _ = some (s, rest) := by
          rw [hdrop]
          exact hread
  | literalLines =>
    obtain ⟨hcontrol, hmarks⟩ := Form.of_literalLines hform
    have hdrop := dropLineEnd_leadingLineEnd fun hline : '\n' ∉ s =>
      exists_cons_of_hasControl hline hcontrol ('\'' :: '\'' :: rest)
    have hread := readRaw?_lines hmarks hcontrol happ
    calc readString? (['\'', '\'', '\''] ++ leadingLineEnd s ++ s ++
            ['\'', '\'', '\''] ++ rest)
        = readRaw? true
            (dropLineEnd (leadingLineEnd s ++ (s ++ '\'' :: '\'' :: '\'' :: rest))) := by
          simp [readString?]
      _ = some (s, rest) := by
          rw [hdrop]
          exact hread

end ArmStream.Toml
