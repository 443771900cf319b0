import Mathlib.Data.List.Nodup
import ArmStream.Driver.Error
import ArmStream.Proofs.ParamFiles

/-!
# Partial parameter files

A file need not set all parameters. Lines that set different parameters, each once, give the table
of defaults with these parameters changed, in whatever order the lines stand. One line spoils the
file wherever it stands: a line for a key that is no parameter, a line for a parameter that another
line sets already, and a line with a value that is no string.

## Main definitions

- `Toml.Literal`: a written form of a text.
- `Setting`: a line that sets a parameter.
- `Toml.document`: the text of some lines.
- `Setting.Spoils`: a line that must not stand beside given lines.

## Main statements

- `Setting.readLines?_append`: lines that set parameters are read, whatever follows them.
- `ParamTable.assign?_eq_none_of_unknown`, `ParamTable.assign?_eq_none_of_twice`: assignments that
  are refused.
- `ParamTable.ofText_settings`: the table of a partial file.
-/

namespace ArmStream

namespace Toml

/-! ## Keys and values as written -/

/-- The text is a written form of a value: up to the end of the line it reads as the value. -/
def Literal (written : List Char) (value : String) : Prop :=
  ∀ rest, (∀ c ∈ rest.head?, c = '\n') →
    readString? (written ++ rest) = some (value.toList, rest)

/-- Each value has a written form. -/
theorem literal_writeChars (value : String) : Literal (writeChars value.toList) value := by
  intro rest hrest
  have hhead : rest.head? = none ∨ rest.head? = some '\n' := by
    cases hc : rest.head? with
    | none => exact .inl rfl
    | some c => exact .inr (congrArg some (hrest c (by simp [hc])))
  exact readString?_writeChars _ (by rcases hhead with h | h <;> simp [h])
    (by rcases hhead with h | h <;> simp [h])

def assignment (key value : List Char) : List Char := key ++ ' ' :: '=' :: ' ' :: value

/-! ## One line -/

section

variable {s : List Char} {found : List Char × List Char}

/-- What starts with a key starts with no blank, comment, line end or mark of a document. -/
theorem starts_of_readKey? (h : readKey? s = some found) :
    restOfLine? s = none ∧ s.dropWhile isSpace = s ∧ withoutMark s = s := by
  have hstart : ∃ c tail, s = c :: tail ∧ (c = '"' ∨ c = '\'' ∨ isBare c = true) := by
    unfold readKey? at h
    split at h
    next tail => exact ⟨_, tail, rfl, .inl rfl⟩
    next tail => exact ⟨_, tail, rfl, .inr (.inl rfl)⟩
    next =>
      cases s with
      | nil => simp at h
      | cons c tail =>
        refine ⟨c, tail, rfl, .inr (.inr ?_)⟩
        by_contra hc
        simp [hc] at h
  obtain ⟨c, tail, rfl, hc⟩ := hstart
  have hne : isSpace c = false ∧ c ≠ '#' ∧ c ≠ '\n' ∧ c ≠ '\r' ∧ c.toNat ≠ 0xfeff := by
    rcases hc with rfl | rfl | hc
    · decide
    · decide
    · obtain ⟨hspace, hhash, hline, hreturn, -, -, hmark⟩ := ne_of_isBare hc
      exact ⟨hspace, hhash, hline, hreturn, hmark⟩
  obtain ⟨hspace, hhash, hline, hreturn, hmark⟩ := hne
  refine ⟨?_, by simp [hspace], by simp [withoutMark, hmark]⟩
  simp only [restOfLine?, List.dropWhile_cons, hspace]
  split <;> simp_all [lineEnd?]

/-- Reading lines, the first of which starts with a key. -/
theorem readLines?_of_readKey? (h : readKey? s = some found) (fuel : Nat) :
    readLines? (fuel + 1) s = (readAssignment? s).bind fun assigned =>
      (restOfLine? assigned.2).bind fun rest =>
        (readLines? fuel rest).map (assigned.1 :: ·) := by
  obtain ⟨hline, hspace, -⟩ := starts_of_readKey? h
  cases s with
  | nil => simp [readKey?] at h
  | cons c tail =>
    rw [readLines?, hline, hspace]
    · cases readAssignment? (c :: tail) with
      | none => rfl
      | some assigned => cases hrest : restOfLine? assigned.2 <;> simp [hrest]
    · exact List.cons_ne_nil _ _

end

section

variable {key : String} {written : List Char}

theorem Names.readKey?_assignment (h : Names written key) (value rest : List Char) :
    readKey? (assignment written value ++ rest) =
      some (key.toList, ' ' :: '=' :: ' ' :: (value ++ rest)) := by
  have hread := h ' ' ('=' :: ' ' :: (value ++ rest)) (by decide)
  simpa [assignment] using hread

/-- The value of an assignment is read as a string. -/
theorem Names.readAssignment? (h : Names written key) (value rest : List Char) :
    readAssignment? (assignment written value ++ rest) =
      (readString? ((value ++ rest).dropWhile isSpace)).map fun read =>
        ((key, String.ofList read.1), read.2) := by
  have hspace : isSpace ' ' = true := rfl
  have heq : isSpace '=' = false := rfl
  cases hread : readString? ((value ++ rest).dropWhile isSpace) <;>
    simp [Toml.readAssignment?, h.readKey?_assignment, hspace, heq, hread]

/-- A written form starts with no blank. -/
theorem Literal.dropWhile_isSpace {value : String} (h : Literal written value)
    {rest : List Char} (hrest : ∀ c ∈ rest.head?, c = '\n') :
    (written ++ rest).dropWhile isSpace = written ++ rest := by
  have hread := h rest hrest
  cases hcons : written ++ rest with
  | nil => rfl
  | cons c tail =>
    have hc : isSpace c = false := by
      by_contra hc
      rcases eq_of_isSpace (by simpa using hc) with rfl | rfl <;>
        simp [hcons, readString?] at hread
    simp [hc]

end

/-! ## All lines -/

/-- The text of some lines. The last may have a line end or not. -/
def document (closed : Bool) : List (List Char) → List Char
  | [] => []
  | [line] => line ++ if closed then ['\n'] else []
  | line :: lines => line ++ '\n' :: document closed lines

/-- What follows the first line of a text: nothing, or a line end and the other lines. -/
theorem exists_document_cons (closed : Bool) (line : List Char) (lines : List (List Char)) :
    ∃ rest, document closed (line :: lines) = line ++ rest ∧ (∀ c ∈ rest.head?, c = '\n') ∧
      restOfLine? rest = some (document closed lines) := by
  cases lines with
  | nil => cases closed <;> exact ⟨_, rfl, by simp, rfl⟩
  | cons next lines => exact ⟨_, rfl, by simp, rfl⟩

theorem length_document_cons (closed : Bool) (line : List Char) (lines : List (List Char)) :
    line.length + (document closed lines).length ≤ (document closed (line :: lines)).length := by
  cases lines <;> simp [document]

end Toml

/-! ## Lines that set parameters -/

/-- A line that sets a parameter, with its name and the value as they are written. -/
structure Setting where
  key : ParamKey
  value : String
  name : List Char
  written : List Char
  names : Toml.Names name key.name
  literal : Toml.Literal written value

namespace Setting

def line (s : Setting) : List Char := Toml.assignment s.name s.written

def entry (s : Setting) : ParamKey × String := (s.key, s.value)

def named (s : Setting) : String × String := (s.key.name, s.value)

theorem map_named (settings : List Setting) :
    settings.map named = (settings.map entry).map fun entry => (entry.1.name, entry.2) := by
  rw [List.map_map]
  rfl

/-- The line `key = value` with a bare key, for any value in any form. -/
def plain (key : ParamKey) {value : String} {written : List Char}
    (h : Toml.Literal written value) : Setting :=
  ⟨key, value, key.name.toList, written, key.bare_name.names, h⟩

/-- Reading a line that sets a parameter, and the lines that follow it. -/
theorem readLines?_cons (s : Setting) (closed : Bool) (lines : List (List Char)) (fuel : Nat) :
    Toml.readLines? (fuel + 1) (Toml.document closed (s.line :: lines)) =
      (Toml.readLines? fuel (Toml.document closed lines)).map (s.named :: ·) := by
  obtain ⟨rest, hdocument, hhead, hrest⟩ := Toml.exists_document_cons closed s.line lines
  have hread := s.names.readAssignment? s.written rest
  rw [s.literal.dropWhile_isSpace hhead, s.literal rest hhead] at hread
  rw [hdocument, line, Toml.readLines?_of_readKey? (s.names.readKey?_assignment _ _), hread]
  simp [hrest, named]

/-- Lines that set parameters are read, whatever follows them. -/
theorem readLines?_append (settings : List Setting) (closed : Bool) (lines : List (List Char))
    (fuel : Nat) :
    Toml.readLines? (settings.length + fuel)
        (Toml.document closed (settings.map line ++ lines)) =
      (Toml.readLines? fuel (Toml.document closed lines)).map
        (settings.map named ++ ·) := by
  induction settings with
  | nil => simp
  | cons s settings ih =>
    have hfuel : (s :: settings).length + fuel = settings.length + fuel + 1 := by
      simp only [List.length_cons]
      omega
    rw [hfuel, List.map_cons, List.cons_append, readLines?_cons, ih]
    cases Toml.readLines? fuel (Toml.document closed lines) <;> simp

/-- Each line has at least one character. -/
theorem length_le_length_document (settings : List Setting) (closed : Bool)
    (lines : List (List Char)) :
    settings.length ≤ (Toml.document closed (settings.map line ++ lines)).length := by
  induction settings with
  | nil => simp
  | cons s settings ih =>
    have hcons := Toml.length_document_cons closed s.line (settings.map line ++ lines)
    have hpos : 0 < s.line.length := by simp [line, Toml.assignment]
    simp only [List.map_cons, List.cons_append, List.length_cons]
    omega

/-- A text whose first line starts with a key starts with no mark of a document. -/
theorem withoutMark_document (settings : List Setting) {closed : Bool} {lines : List (List Char)}
    (h : Toml.withoutMark (Toml.document closed lines) = Toml.document closed lines) :
    Toml.withoutMark (Toml.document closed (settings.map line ++ lines)) =
      Toml.document closed (settings.map line ++ lines) := by
  cases settings with
  | nil => exact h
  | cons s settings =>
    obtain ⟨rest, hdocument, -, -⟩ :=
      Toml.exists_document_cons closed s.line (settings.map line ++ lines)
    rw [List.map_cons, List.cons_append, hdocument]
    exact (Toml.starts_of_readKey? (s.names.readKey?_assignment _ rest)).2.2

/-- The assignments of a text: those of the lines that set parameters, then what is read from the
lines that follow. -/
theorem readAssignments?_append (settings : List Setting) {closed : Bool}
    {lines : List (List Char)}
    (h : Toml.withoutMark (Toml.document closed lines) = Toml.document closed lines) :
    ∃ fuel, Toml.readAssignments?
        (String.ofList (Toml.document closed (settings.map line ++ lines))) =
      (Toml.readLines? (fuel + 1) (Toml.document closed lines)).map
        (settings.map named ++ ·) := by
  have hlength := length_le_length_document settings closed lines
  obtain ⟨fuel, hfuel⟩ := Nat.exists_eq_add_of_le hlength
  refine ⟨fuel, ?_⟩
  rw [← readLines?_append, Toml.readAssignments?, String.toList_ofList, withoutMark_document _ h,
    hfuel, Nat.add_assoc]

/-- Lines that set parameters are read as the names and values. -/
theorem readAssignments?_lines (settings : List Setting) (closed : Bool) :
    Toml.readAssignments? (String.ofList (Toml.document closed (settings.map line))) =
      some (settings.map named) := by
  have hmark : Toml.withoutMark (Toml.document closed []) = Toml.document closed [] := rfl
  obtain ⟨fuel, hread⟩ := readAssignments?_append settings hmark
  simpa [Toml.document, Toml.readLines?] using hread

/-! ## Lines that spoil a file -/

/-- The line must not stand beside the lines of these settings. -/
inductive Spoils (settings : List Setting) : List Char → Prop where
  /-- Its key is none of the parameters. The value may be anything. -/
  | unknown {name : List Char} {key : String} (hnames : Toml.Names name key)
      (hkey : ∀ k : ParamKey, k.name ≠ key) (value : List Char) :
      Spoils settings (Toml.assignment name value)
  /-- Its key has several parts, so it sets an entry of a table. -/
  | dotted {name : List Char} {key : String} (hnames : Toml.Names name key) (more : List Char) :
      Spoils settings (name ++ '.' :: more)
  /-- It sets a parameter again. -/
  | again {s : Setting} (hkey : s.key ∈ settings.map key) : Spoils settings s.line
  /-- It is for a parameter, and the value opens with neither of the marks that open strings. -/
  | noString {name : List Char} {key : ParamKey} (hnames : Toml.Names name key.name)
      {value : List Char}
      (hvalue : ∀ c ∈ (value.dropWhile Toml.isSpace).head?, c ≠ '"' ∧ c ≠ '\'') :
      Spoils settings (Toml.assignment name value)

/-- Whatever is read from a line that starts with an assignment begins with the key. -/
theorem key_of_readLines? {name : List Char} {key : String} (hnames : Toml.Names name key)
    {value : List Char} {closed : Bool} {lines : List (List Char)} {fuel : Nat}
    {entries : List (String × String)}
    (h : Toml.readLines? (fuel + 1)
      (Toml.document closed (Toml.assignment name value :: lines)) = some entries) :
    ∃ entry ∈ entries, entry.1 = key := by
  obtain ⟨rest, hdocument, -, -⟩ :=
    Toml.exists_document_cons closed (Toml.assignment name value) lines
  rw [hdocument, Toml.readLines?_of_readKey? (hnames.readKey?_assignment _ _),
    hnames.readAssignment?] at h
  simp only [Option.bind_eq_some_iff, Option.map_eq_some_iff] at h
  obtain ⟨_, ⟨read, -, rfl⟩, _, -, more, -, rfl⟩ := h
  exact ⟨_, List.mem_cons_self, rfl⟩

/-- Nothing is read from a line whose key goes on behind a dot. -/
theorem readLines?_dotted {name : List Char} {key : String} (hnames : Toml.Names name key)
    (more : List Char) (closed : Bool) (lines : List (List Char)) (fuel : Nat) :
    Toml.readLines? (fuel + 1) (Toml.document closed ((name ++ '.' :: more) :: lines)) = none := by
  obtain ⟨rest, hdocument, -, -⟩ :=
    Toml.exists_document_cons closed (name ++ '.' :: more) lines
  have hkey := hnames '.' (more ++ rest) (by decide)
  have hdot : Toml.isSpace '.' = false := rfl
  rw [hdocument, List.append_assoc, List.cons_append, Toml.readLines?_of_readKey? hkey]
  simp [Toml.readAssignment?, hkey, hdot]

/-- Nothing is read from a line with a value that is no string. -/
theorem readLines?_noString {name : List Char} {key : String} (hnames : Toml.Names name key)
    {value : List Char}
    (hvalue : ∀ c ∈ (value.dropWhile Toml.isSpace).head?, c ≠ '"' ∧ c ≠ '\'')
    (closed : Bool) (lines : List (List Char)) (fuel : Nat) :
    Toml.readLines? (fuel + 1)
      (Toml.document closed (Toml.assignment name value :: lines)) = none := by
  obtain ⟨rest, hdocument, hhead, -⟩ :=
    Toml.exists_document_cons closed (Toml.assignment name value) lines
  rw [hdocument, Toml.readLines?_of_readKey? (hnames.readKey?_assignment _ _),
    hnames.readAssignment?]
  suffices hnone : Toml.readString? ((value ++ rest).dropWhile Toml.isSpace) = none by
    simp [hnone]
  -- the reader sees the first character of the value, or the end of the line
  have hfirst : ∀ c ∈ ((value ++ rest).dropWhile Toml.isSpace).head?, c ≠ '"' ∧ c ≠ '\'' := by
    rw [List.dropWhile_append]
    split
    next =>
      cases rest with
      | nil => simp
      | cons c rest =>
        obtain rfl := hhead c (by simp)
        simp [Toml.isSpace]
    next hvisible =>
      have hne : value.dropWhile Toml.isSpace ≠ [] := by simpa using hvisible
      rwa [List.head?_append, List.head?_eq_some_head hne, Option.some_or,
        ← List.head?_eq_some_head hne]
  unfold Toml.readString?
  split <;> simp_all

end Setting

/-! ## The table -/

namespace ParamTable

/-- A name that is none of the parameters is refused, wherever it stands. -/
theorem assign?_eq_none_of_unknown {entries : List (String × String)}
    (h : ∃ entry ∈ entries, ParamKey.ofName? entry.1 = none) (seen : List String)
    (t : ParamTable) : t.assign? seen entries = none := by
  induction entries generalizing seen t with
  | nil => simp at h
  | cons entry entries ih =>
    obtain ⟨bad, hmem, hbad⟩ := h
    rw [assign?]
    split
    next => rfl
    next t' hset =>
      split
      next => rfl
      next =>
        rcases List.mem_cons.1 hmem with rfl | hmem
        · simp [withField?_eq, hbad] at hset
        · exact ih ⟨bad, hmem, hbad⟩ _ _

/-- A parameter that is assigned twice is refused. -/
theorem assign?_eq_none_of_twice {entries : List (ParamKey × String)} {seen : List String}
    (h : ¬(entries.map Prod.fst).Nodup ∨ ∃ entry ∈ entries, entry.1.name ∈ seen)
    (t : ParamTable) :
    t.assign? seen (entries.map fun entry => (entry.1.name, entry.2)) = none := by
  induction entries generalizing seen t with
  | nil => simp at h
  | cons entry entries ih =>
    simp only [List.map_cons, assign?, withField?_eq, ParamKey.ofName?_name, Option.map_some]
    split
    next => rfl
    next hnew =>
      apply ih
      rcases h with htwice | ⟨other, hmem, hseen⟩
      · rw [List.map_cons, List.nodup_cons, not_and_or, not_not] at htwice
        rcases htwice with hmem | htwice
        · obtain ⟨other, hmem, hother⟩ := List.mem_map.1 hmem
          exact .inr ⟨other, hmem, by simp [hother]⟩
        · exact .inl htwice
      · rcases List.mem_cons.1 hmem with rfl | hmem
        · exact absurd hseen hnew
        · exact .inr ⟨other, hmem, List.mem_cons_of_mem _ hseen⟩

/-- Values for different parameters give the same table in any order. -/
theorem setAll_perm {entries order : List (ParamKey × String)} (horder : order.Perm entries)
    (h : (entries.map Prod.fst).Nodup) (t : ParamTable) : t.setAll order = t.setAll entries := by
  have horderly : (order.map Prod.fst).Nodup := (horder.map Prod.fst).nodup_iff.2 h
  apply ext_get
  intro key
  by_cases hkey : ∃ value, (key, value) ∈ entries
  · obtain ⟨value, hmem⟩ := hkey
    rw [get_setAll_of_mem h hmem, get_setAll_of_mem horderly (horder.mem_iff.2 hmem)]
  · have hnone (value : String) : (key, value) ∉ entries := fun hmem => hkey ⟨value, hmem⟩
    rw [get_setAll_of_not_mem hnone,
      get_setAll_of_not_mem fun value hmem => hnone value (horder.mem_iff.1 hmem)]

theorem map_fst_entry (settings : List Setting) :
    (settings.map Setting.entry).map Prod.fst = settings.map Setting.key := by
  rw [List.map_map]
  rfl

/-- Lines that set different parameters change these in the table of defaults. -/
theorem ofText_lines {settings : List Setting} (h : (settings.map Setting.key).Nodup)
    (closed : Bool) :
    ofText (String.ofList (Toml.document closed (settings.map Setting.line))) =
      .ok (default.setAll (settings.map Setting.entry)) := by
  rw [← map_fst_entry] at h
  have hunseen : ∀ entry ∈ settings.map Setting.entry, entry.1.name ∉ ([] : List String) := by
    simp
  have hassign := assign?_eq_setAll h hunseen default
  rw [← Setting.map_named] at hassign
  simp only [ofText, ofToml?, Setting.readAssignments?_lines, hassign]

/-- A file is refused if what follows its first lines starts with a key and reads, if it does, with
a name that is none of the parameters. -/
theorem ofToml?_append {before : List Setting} {closed : Bool} {lines : List (List Char)}
    {found : List Char × List Char}
    (hkey : Toml.readKey? (Toml.document closed lines) = some found)
    (h : ∀ fuel entries, Toml.readLines? (fuel + 1) (Toml.document closed lines) = some entries →
      ∃ entry ∈ entries, ParamKey.ofName? entry.1 = none) :
    ofToml? (String.ofList (Toml.document closed (before.map Setting.line ++ lines))) = none := by
  obtain ⟨fuel, hread⟩ :=
    Setting.readAssignments?_append before (Toml.starts_of_readKey? hkey).2.2
  rw [ofToml?, hread]
  cases hmore : Toml.readLines? (fuel + 1) (Toml.document closed lines) with
  | none => rfl
  | some entries =>
    obtain ⟨entry, hmem, hno⟩ := h fuel entries hmore
    exact assign?_eq_none_of_unknown ⟨entry, List.mem_append_right _ hmem, hno⟩ _ _

/-- A line that spoils a file may stand anywhere between the others. -/
theorem ofText_of_spoils {before after : List Setting} {bad : List Char}
    (h : Setting.Spoils (before ++ after) bad) (closed : Bool) :
    ofText (String.ofList (Toml.document closed
      (before.map Setting.line ++ bad :: after.map Setting.line))) = .error .config := by
  suffices hnone : ofToml? (String.ofList (Toml.document closed
      (before.map Setting.line ++ bad :: after.map Setting.line))) = none by
    rw [ofText, hnone]
  obtain ⟨rest, hdocument, -, -⟩ :=
    Toml.exists_document_cons closed bad (after.map Setting.line)
  cases h with
  | @unknown name key hnames hunknown value =>
    refine ofToml?_append (hdocument ▸ hnames.readKey?_assignment value rest) ?_
    intro fuel entries hread
    obtain ⟨entry, hmem, rfl⟩ := Setting.key_of_readLines? hnames hread
    exact ⟨entry, hmem, by simpa [ParamKey.ofName?, ParamKey.mem_all] using hunknown⟩
  | @dotted name key hnames more =>
    have hkey := hnames '.' (more ++ rest) (by decide)
    rw [← List.cons_append, ← List.append_assoc, ← hdocument] at hkey
    refine ofToml?_append hkey fun fuel entries hread => ?_
    simp [Setting.readLines?_dotted hnames] at hread
  | @again s hkey =>
    have htwice : ¬((before ++ s :: after).map Setting.key).Nodup := by
      rw [List.map_append, List.map_cons, List.nodup_middle, ← List.map_append, List.nodup_cons]
      exact fun hnew => hnew.1 hkey
    rw [← map_fst_entry] at htwice
    have hread := Setting.readAssignments?_lines (before ++ s :: after) closed
    rw [List.map_append, List.map_cons] at hread
    rw [ofToml?, hread, Setting.map_named]
    exact assign?_eq_none_of_twice (.inl htwice) default
  | @noString name key hnames value hvalue =>
    refine ofToml?_append (hdocument ▸ hnames.readKey?_assignment value rest) ?_
    intro fuel entries hread
    simp [Setting.readLines?_noString hnames hvalue] at hread

/-- A partial file lays its values over the defaults, in whatever order its lines stand. With one
more line that spoils it, wherever this line stands, the file is refused. -/
theorem ofText_settings (settings : List Setting) (h : (settings.map Setting.key).Nodup)
    (closed : Bool) :
    (∃ t, ofText (String.ofList (Toml.document closed (settings.map Setting.line))) = .ok t ∧
      (∀ s ∈ settings, t.get s.key = s.value) ∧
      (∀ key, key ∉ settings.map Setting.key → t.get key = default.get key) ∧
      ∀ order : List (ParamKey × String), order.Perm (settings.map Setting.entry) →
        order.foldl (fun t entry => t.set entry.1 entry.2) default = t) ∧
    ∀ before after bad, settings = before ++ after → Setting.Spoils settings bad →
      ofText (String.ofList (Toml.document closed
        (before.map Setting.line ++ bad :: after.map Setting.line))) = .error .config := by
  have hkeys : ((settings.map Setting.entry).map Prod.fst).Nodup := map_fst_entry settings ▸ h
  refine ⟨⟨_, ofText_lines h closed, ?_, ?_, ?_⟩, ?_⟩
  · intro s hs
    exact get_setAll_of_mem hkeys (List.mem_map_of_mem hs) default
  · intro key hkey
    refine get_setAll_of_not_mem (fun value hmem => hkey ?_) default
    rw [← map_fst_entry]
    exact List.mem_map_of_mem hmem
  · intro order horder
    exact setAll_perm horder hkeys default
  · rintro before after bad rfl hbad
    exact ofText_of_spoils hbad closed

/-- Two parameters are set, in another order than that of the table, and a line for a key that is
none of the parameters stands between them. -/
theorem ofText_settings_of_two :
    ∃ tip mode : Setting, mode.line = "command_mode = \"FRI\"".toList ∧
      tip.line = "robot_tip_name = '''\n\\\"\n'''".toList ∧ tip.value = "\\\"\n" ∧
      ([mode, tip].map Setting.key).Nodup ∧
      (∃ t, ofText (String.ofList (Toml.document true [mode.line, tip.line])) = .ok t ∧
        t.get .robotTipName = "\\\"\n" ∧ t.get .commandMode = "FRI" ∧
        t.get .monitorMode = "JAVA") ∧
      ofText (String.ofList (Toml.document true
        [mode.line, Toml.assignment "speed".toList "3".toList, tip.line])) =
          .error .config := by
  let mode := Setting.plain .commandMode (Toml.literal_writeChars "FRI")
  let tip := Setting.plain .robotTipName (Toml.literal_writeChars "\\\"\n")
  have hkeys : ([mode, tip].map Setting.key).Nodup := by decide
  obtain ⟨⟨t, ht, hset, hdefault, -⟩, hspoil⟩ := ofText_settings [mode, tip] hkeys true
  have hspeed : Toml.Bare "speed" := by decide
  have hunknown : ∀ k : ParamKey, k.name ≠ "speed" := by
    intro k
    cases k <;> decide
  refine ⟨tip, mode, by decide, by decide, rfl, hkeys,
    ⟨t, ht, hset tip (by simp), hset mode (by simp), hdefault .monitorMode (by decide)⟩, ?_⟩
  exact hspoil [mode] [tip] _ rfl (.unknown hspeed.names hunknown "3".toList)

end ParamTable

end ArmStream
