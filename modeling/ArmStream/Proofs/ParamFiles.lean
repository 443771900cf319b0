import ArmStream.Params.Toml
import ArmStream.Proofs.Quoting

/-!
# Saving and loading a parameter table

A table is saved as one line for each parameter, and a file is read line by line. A line starts
with a bare key and ends behind the value, which is written in the form that its characters ask
for; so the reader gives back the keys and the values in their order. No parameter comes twice and
each is known by its name, so setting one after the other gives the table.

## Main definitions

- `Toml.line`: the line for a key and a written value.
- `Toml.Names`: a text is a written form of a key.
- `Toml.Reads`: a written value reads as a text up to the end of its line.
- `ParamTable.setAll`: a table after giving values to parameters one after the other.

## Main statements

- `Toml.readAssignments?_lines`: lines with bare keys are read as their keys and values.
- `ParamTable.assign?_eq_setAll`: assignments to different parameters are all carried out.
- `ParamTable.loads_as_saved`: what is saved is loaded again.
-/

namespace ArmStream

namespace Toml

/-! ## One line -/

def line (key : String) (written : List Char) : List Char :=
  key.toList ++ ' ' :: '=' :: ' ' :: (written ++ ['\n'])

/-- Up to the end of its line, a written value reads as a text. -/
def Reads (written : List Char) (value : String) : Prop :=
  ∀ rest, readString? (written ++ '\n' :: rest) = some (value.toList, '\n' :: rest)

theorem reads_writeChars (value : String) : Reads (writeChars value.toList) value := by
  intro rest
  exact readString?_writeChars _ (by simp) (by simp)

/-- The text may stand as a key without quotation marks. -/
def Bare (key : String) : Prop :=
  key.toList ≠ [] ∧ key.toList.all isBare = true

instance (key : String) : Decidable (Bare key) :=
  inferInstanceAs (Decidable (_ ∧ _))

theorem eq_of_isSpace {c : Char} (h : isSpace c = true) : c = ' ' ∨ c = '\t' := by
  simpa [isSpace] using h

/-- A written value starts with no blank. -/
theorem Reads.dropWhile_isSpace {written : List Char} {value : String} (h : Reads written value)
    (rest : List Char) :
    (written ++ '\n' :: rest).dropWhile isSpace = written ++ '\n' :: rest := by
  cases written with
  | nil => rfl
  | cons c written =>
    have hread := h rest
    have hc : isSpace c = false := by
      by_contra hc
      rcases eq_of_isSpace (by simpa using hc) with rfl | rfl <;> simp [readString?] at hread
    simp [hc]

/-- A character of a bare key opens neither a string nor a comment, and it is no blank, line end
or mark of a document. -/
theorem ne_of_isBare {c : Char} (h : isBare c = true) :
    isSpace c = false ∧ c ≠ '#' ∧ c ≠ '\n' ∧ c ≠ '\r' ∧ c ≠ '"' ∧ c ≠ '\'' ∧
      c.toNat ≠ 0xfeff := by
  have hmark : c.toNat ≠ 0xfeff := by
    intro hc
    have hbom : isBare (Char.ofNat 0xfeff) = false := by decide
    rw [← hc, Char.ofNat_toNat, h] at hbom
    exact absurd hbom (by decide)
  have hspace : isSpace c = false := by
    by_contra hc
    rcases eq_of_isSpace (by simpa using hc) with rfl | rfl <;> exact absurd h (by decide)
  refine ⟨hspace, ?_, ?_, ?_, ?_, ?_, hmark⟩ <;> rintro rfl <;> exact absurd h (by decide)

theorem Bare.isBare_of_mem {key : String} (h : Bare key) : ∀ c ∈ key.toList, isBare c = true :=
  List.all_eq_true.1 h.2

/-- The first character of a bare key. -/
theorem Bare.exists_cons {key : String} (h : Bare key) :
    ∃ c tail, key.toList = c :: tail ∧ isBare c = true := by
  cases hkey : key.toList with
  | nil => exact absurd hkey h.1
  | cons c tail => exact ⟨c, tail, rfl, h.isBare_of_mem c (by simp [hkey])⟩

/-- The text is a written form of a key: up to a character that cannot go on with a bare key it
reads as the key. -/
def Names (written : List Char) (key : String) : Prop :=
  ∀ stop rest, isBare stop = false →
    readKey? (written ++ stop :: rest) = some (key.toList, stop :: rest)

/-- Reading a bare key. -/
theorem Bare.names {key : String} (h : Bare key) : Names key.toList key := by
  intro stop rest hstop
  have htake : (key.toList ++ stop :: rest).takeWhile isBare = key.toList := by
    rw [List.takeWhile_append_of_pos h.isBare_of_mem]
    simp [hstop]
  have hdrop : (key.toList ++ stop :: rest).dropWhile isBare = stop :: rest := by
    rw [List.dropWhile_append_of_pos h.isBare_of_mem]
    simp [hstop]
  obtain ⟨c, tail, hkey, hc⟩ := h.exists_cons
  obtain ⟨-, -, -, -, hquote, happ, -⟩ := ne_of_isBare hc
  rw [hkey, List.cons_append] at htake hdrop ⊢
  unfold readKey?
  split
  · simp_all
  · simp_all
  · rw [htake, hdrop]

theorem readKey?_bare {key : String} (h : Bare key) (rest : List Char) :
    readKey? (key.toList ++ ' ' :: rest) = some (key.toList, ' ' :: rest) :=
  h.names ' ' rest rfl

/-- Reading the assignment of a line, up to its end. -/
theorem readAssignment?_line {key value : String} {written : List Char} (hkey : Bare key)
    (hvalue : Reads written value) (rest : List Char) :
    readAssignment? (line key written ++ rest) = some ((key, value), '\n' :: rest) := by
  have hspace : isSpace ' ' = true := rfl
  have heq : isSpace '=' = false := rfl
  simp [readAssignment?, line, readKey?_bare hkey, hspace, heq, hvalue.dropWhile_isSpace,
    hvalue rest]

/-- A line with an assignment is no line of blanks and a comment. -/
theorem restOfLine?_line {key : String} (h : Bare key) (written rest : List Char) :
    restOfLine? (line key written ++ rest) = none := by
  obtain ⟨c, tail, hkey, hc⟩ := h.exists_cons
  obtain ⟨hspace, hhash, hn, hr, -, -, -⟩ := ne_of_isBare hc
  simp only [line, hkey, List.cons_append, restOfLine?, List.dropWhile_cons, hspace]
  split <;> simp_all [lineEnd?]

/-- Reading a line and what follows it. -/
theorem readLines?_line {key value : String} {written : List Char} (hkey : Bare key)
    (hvalue : Reads written value) (fuel : Nat) (rest : List Char) :
    readLines? (fuel + 1) (line key written ++ rest) =
      (readLines? fuel rest).map ((key, value) :: ·) := by
  have hnone := restOfLine?_line hkey written rest
  have hassign := readAssignment?_line hkey hvalue rest
  have hend : restOfLine? ('\n' :: rest) = some rest := rfl
  obtain ⟨c, tail, hcons, hc⟩ := hkey.exists_cons
  have hspace := (ne_of_isBare hc).1
  simp only [line, hcons, List.cons_append] at hnone hassign ⊢
  rw [readLines?, hnone, List.dropWhile_cons_of_neg (by simp [hspace])]
  · simp only [hassign, hend]
  · exact List.cons_ne_nil _ _

/-! ## All lines -/

/-- Lines with bare keys are read one after the other. -/
theorem readLines?_lines {entries : List (String × String)}
    (h : ∀ entry ∈ entries, Bare entry.1) {fuel : Nat} (hfuel : entries.length < fuel) :
    readLines? fuel (entries.flatMap fun entry => line entry.1 (writeChars entry.2.toList)) =
      some entries := by
  induction entries generalizing fuel with
  | nil =>
    cases fuel with
    | zero => simp at hfuel
    | succ fuel => rfl
  | cons entry entries ih =>
    cases fuel with
    | zero => simp at hfuel
    | succ fuel =>
      have hrest := ih (fun e he => h e (List.mem_cons_of_mem _ he)) (by simpa using hfuel)
      have hline := readLines?_line (h entry List.mem_cons_self) (reads_writeChars entry.2) fuel
      rw [List.flatMap_cons, hline, hrest]
      rfl

/-- A document of lines with bare keys is read as their keys and values. -/
theorem readAssignments?_lines {entries : List (String × String)}
    (h : ∀ entry ∈ entries, Bare entry.1) :
    readAssignments? (String.ofList
        (entries.flatMap fun entry => line entry.1 (writeChars entry.2.toList))) =
      some entries := by
  have hmark : withoutMark (entries.flatMap fun entry =>
      line entry.1 (writeChars entry.2.toList)) =
        entries.flatMap fun entry => line entry.1 (writeChars entry.2.toList) := by
    cases entries with
    | nil => rfl
    | cons entry entries =>
      obtain ⟨c, tail, hcons, hc⟩ := (h entry List.mem_cons_self).exists_cons
      obtain ⟨-, -, -, -, -, -, hc⟩ := ne_of_isBare hc
      simp [line, hcons, withoutMark, hc]
  have hlength : entries.length ≤
      (entries.flatMap fun entry => line entry.1 (writeChars entry.2.toList)).length := by
    clear h hmark
    induction entries with
    | nil => simp
    | cons entry entries ih =>
      have hpos : 0 < (line entry.1 (writeChars entry.2.toList)).length := by simp [line]
      rw [List.flatMap_cons, List.length_append, List.length_cons]
      omega
  simp only [readAssignments?, String.toList_ofList, hmark]
  exact readLines?_lines h (by omega)

end Toml

/-! ## The table -/

namespace ParamKey

theorem ofName?_name (key : ParamKey) : ofName? key.name = some key := by
  cases key <;> rfl

theorem name_injective : Function.Injective name := by
  intro key other h
  have hsome : some key = some other := by rw [← ofName?_name key, h, ofName?_name other]
  exact Option.some.inj hsome

theorem bare_name (key : ParamKey) : Toml.Bare key.name := by
  cases key <;> decide

theorem mem_all (key : ParamKey) : key ∈ all := by
  cases key <;> decide

theorem nodup_all : all.Nodup := by
  decide

end ParamKey

namespace ParamTable

/-- A table is what its parameters are. -/
theorem ext_get {t u : ParamTable} (h : ∀ key, t.get key = u.get key) : t = u := by
  cases t
  cases u
  simp only [mk.injEq]
  exact ⟨h .robotTipName, h .robotTargetName, h .robotTargetBaseName, h .localTransportAddress,
    h .remoteTransportAddress, h .localLowLevelAddress, h .localLowLevelPort,
    h .remoteLowLevelAddress, h .remoteLowLevelPort, h .commandMode, h .monitorMode,
    h .kinematicsGroupName⟩

theorem fields_eq (t : ParamTable) :
    t.fields = t.entries.map fun entry => (entry.1.name, entry.2) := rfl

/-- The fields have the names of the parameters, and setting a field sets its parameter. -/
theorem withField?_eq (t : ParamTable) (name value : String) :
    t.withField? name value = (ParamKey.ofName? name).map fun key => t.set key value := by
  unfold withField?
  split
  case h_13 =>
    -- the name is none of the twelve
    have hnone : ParamKey.ofName? name = none := by
      rw [ParamKey.ofName?, List.find?_eq_none]
      intro key _ hname
      obtain rfl := eq_of_beq hname
      cases key <;> simp_all [ParamKey.name]
    rw [hnone]
    rfl
  all_goals rfl

def setAll (t : ParamTable) (entries : List (ParamKey × String)) : ParamTable :=
  entries.foldl (fun t entry => t.set entry.1 entry.2) t

/-- A parameter that gets no value keeps its own. -/
theorem get_setAll_of_not_mem {entries : List (ParamKey × String)} {key : ParamKey}
    (h : ∀ value, (key, value) ∉ entries) (t : ParamTable) :
    (t.setAll entries).get key = t.get key := by
  induction entries generalizing t with
  | nil => rfl
  | cons entry entries ih =>
    have hkey : key ≠ entry.1 := by
      rintro rfl
      exact h entry.2 (by simp)
    have hrest (value : String) : (key, value) ∉ entries := fun hmem => h value (by simp [hmem])
    calc (t.setAll (entry :: entries)).get key
        = ((t.set entry.1 entry.2).setAll entries).get key := rfl
      _ = (t.set entry.1 entry.2).get key := ih hrest _
      _ = t.get key := by simp [hkey]

/-- A parameter that gets a value, and no other later, has it. -/
theorem get_setAll_of_mem {entries : List (ParamKey × String)}
    (hnodup : (entries.map Prod.fst).Nodup) {key : ParamKey} {value : String}
    (h : (key, value) ∈ entries) (t : ParamTable) : (t.setAll entries).get key = value := by
  induction entries generalizing t with
  | nil => simp at h
  | cons entry entries ih =>
    rw [List.map_cons, List.nodup_cons] at hnodup
    rcases List.mem_cons.mp h with rfl | hmem
    · have hlater (other : String) : (key, other) ∉ entries := fun hother =>
        hnodup.1 (List.mem_map.mpr ⟨_, hother, rfl⟩)
      calc (t.setAll ((key, value) :: entries)).get key
          = ((t.set key value).setAll entries).get key := rfl
        _ = (t.set key value).get key := get_setAll_of_not_mem hlater _
        _ = value := by simp
    · exact ih hnodup.2 hmem _

/-- Assignments to parameters that are all different, and were not assigned before, are all
carried out. -/
theorem assign?_eq_setAll {entries : List (ParamKey × String)}
    (hnodup : (entries.map Prod.fst).Nodup) {seen : List String}
    (hseen : ∀ entry ∈ entries, entry.1.name ∉ seen) (t : ParamTable) :
    t.assign? seen (entries.map fun entry => (entry.1.name, entry.2)) =
      some (t.setAll entries) := by
  induction entries generalizing seen t with
  | nil => rfl
  | cons entry entries ih =>
    rw [List.map_cons, List.nodup_cons] at hnodup
    have hnew : entry.1.name ∉ seen := hseen entry (by simp)
    have hrest : ∀ other ∈ entries, other.1.name ∉ entry.1.name :: seen := by
      intro other hother
      have hne : other.1.name ≠ entry.1.name := fun heq =>
        hnodup.1 (ParamKey.name_injective heq ▸ List.mem_map_of_mem hother)
      simp [hne, hseen other (by simp [hother])]
    simp only [List.map_cons, assign?, withField?_eq, ParamKey.ofName?_name, Option.map_some,
      if_neg hnew]
    exact ih hnodup.2 hrest _

/-- No parameter has two values in a table. -/
theorem nodup_entries (t : ParamTable) : (t.entries.map Prod.fst).Nodup := by
  have hkeys : t.entries.map Prod.fst = ParamKey.all := by
    simp [entries, Function.comp_def]
  rw [hkeys]
  exact ParamKey.nodup_all

/-- The values of a table make it up, whatever it was before. -/
theorem setAll_entries (t u : ParamTable) : u.setAll t.entries = t := by
  apply ext_get
  intro key
  have hmem : (key, t.get key) ∈ t.entries :=
    List.mem_map_of_mem (ParamKey.mem_all key)
  exact get_setAll_of_mem t.nodup_entries hmem u

/-- The file of a table holds one line for each parameter. -/
theorem toToml_eq_lines (t : ParamTable) :
    t.toToml = String.ofList ((t.entries.map fun entry => (entry.1.name, entry.2)).flatMap
      fun entry => Toml.line entry.1 (Toml.writeChars entry.2.toList)) := by
  apply String.toList_injective
  rw [toToml, fields_eq, String.toList_join, String.toList_ofList, List.flatMap_map]
  simp [Toml.line, Toml.writeString]

/-- What is saved is loaded again: each parameter has its line, which reads as its name and its
value, and the table of all lines is the table saved. -/
theorem loads_as_saved (t : ParamTable) :
    Toml.readAssignments? t.toToml = some (t.entries.map fun entry => (entry.1.name, entry.2)) ∧
      ofToml? t.toToml = some t := by
  have hlines : Toml.readAssignments? t.toToml =
      some (t.entries.map fun entry => (entry.1.name, entry.2)) := by
    have hbare : ∀ entry ∈ t.entries.map fun entry => (entry.1.name, entry.2),
        Toml.Bare entry.1 := by
      intro entry hentry
      obtain ⟨⟨key, value⟩, -, rfl⟩ := List.mem_map.mp hentry
      exact key.bare_name
    rw [toToml_eq_lines]
    exact Toml.readAssignments?_lines hbare
  refine ⟨hlines, ?_⟩
  have hunseen : ∀ entry ∈ t.entries, entry.1.name ∉ ([] : List String) := by simp
  have hassign := assign?_eq_setAll t.nodup_entries hunseen default
  rw [ofToml?, hlines]
  simp only [hassign, setAll_entries]

end ParamTable

end ArmStream
