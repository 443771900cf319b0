import Mathlib
import ArmStream.Endpoint
import ArmStream.Proofs.Cutting
import ArmStream.Proofs.Numerals

/-!
# Written endpoints

An endpoint is written `scheme://host:port`. The text is cut at the first `://`, and what follows at
the last colon, whatever the host holds. Upper and lower case are the same in the scheme, brackets
around the host are no part of it, and the port is a numeral of at most 65535. Of all that is wrong
with a text, what comes first in the order of `Defect` is reported.

The written form of an endpoint reads back, unless its host stands in brackets itself and holds no
colon: then no brackets are put around it, and those that it has are taken off.

## Main definitions

- `Endpoint.Spelled`: the grammar of endpoints.
- `Endpoint.Defect.AppliesTo`, `Endpoint.Defect.FirstIn`: what is wrong with a text.

## Main statements

- `Endpoint.parse_iff`: what is read, and which defect is reported.
- `Endpoint.parse_text`: reading the written form.
-/

namespace ArmStream.Endpoint

open Text Number

/-! ## The grammar -/

def separator : List Char := [':', '/', '/']

/-- The text is the name of the scheme, each letter in lower or upper case. -/
def NamesScheme (s : List Char) (scheme : Scheme) : Prop :=
  List.Forall₂ (fun c letter => c = letter ∨ c = letter.toUpper) s scheme.name.toList

/-- The host without its first and last character, if these are brackets. -/
def bareHost (h : List Char) : List Char :=
  if h.head? = some '[' ∧ h.getLast? = some ']' then h.tail.dropLast else h

/-- The text is cut at its first `://`, and what follows at its last colon. -/
def Divides (s scheme host port : List Char) : Prop :=
  ∃ rest, CutsFirst separator s scheme rest ∧ CutsLast ':' rest host port

def Spelled (s : List Char) (e : Endpoint) : Prop :=
  ∃ scheme host port, Divides s scheme host port ∧ NamesScheme scheme e.scheme ∧
    bareHost host ≠ [] ∧ e.host.toList = bareHost host ∧ Spells port e.port ∧ e.port ≤ 65535

namespace Defect

/-- The defect is found in the text, whatever else is wrong with it. -/
def AppliesTo (s : List Char) : Defect → Prop
  | .missingScheme => ¬ separator <:+: s
  | .unsupportedScheme =>
    ∃ scheme rest, CutsFirst separator s scheme rest ∧ ∀ known, ¬ NamesScheme scheme known
  | .missingPort => ∃ scheme rest, CutsFirst separator s scheme rest ∧ ':' ∉ rest
  | .missingHost => ∃ scheme host port, Divides s scheme host port ∧ bareHost host = []
  | .invalidPort =>
    ∃ scheme host port, Divides s scheme host port ∧ ∀ n ≤ 65535, ¬ Spells port n

def rank : Defect → Nat
  | .missingScheme => 0
  | .unsupportedScheme => 1
  | .missingPort => 2
  | .missingHost => 3
  | .invalidPort => 4

/-- The defect applies to the text, and none that comes before it does. -/
def FirstIn (d : Defect) (s : List Char) : Prop :=
  d.AppliesTo s ∧ ∀ earlier : Defect, earlier.rank < d.rank → ¬ earlier.AppliesTo s

theorem rank_injective : Function.Injective rank := by
  intro d d'
  cases d <;> cases d' <;> simp [rank]

theorem FirstIn.unique {d d' : Defect} {s : List Char} (h : d.FirstIn s) (h' : d'.FirstIn s) :
    d = d' := by
  rcases Nat.lt_trichotomy d.rank d'.rank with hless | hsame | hless
  · exact absurd h.1 (h'.2 d hless)
  · exact rank_injective hsame
  · exact absurd h'.1 (h.2 d' hless)

end Defect

/-! ## Its parts -/

variable {s scheme host port : List Char} {e : Endpoint}

theorem not_isLower_of_isUpper {c : Char} (h : c.isUpper) : ¬ c.isLower := by
  simp only [Char.isLower, Char.isUpper, decide_eq_true_eq, UInt32.le_iff_toNat_le] at h ⊢
  grind

theorem toLower_eq_iff {c letter : Char} (h : letter.isLower) :
    c.toLower = letter ↔ c = letter ∨ c = letter.toUpper := by
  have hletter : letter.toLower = letter :=
    Char.toLower_eq_of_not_isUpper fun hupper => not_isLower_of_isUpper hupper h
  constructor
  · rintro rfl
    by_cases hupper : c.isUpper
    · right
      rw [Char.toUpper_toLower_eq_toUpper,
        Char.toUpper_eq_of_not_isLower (not_isLower_of_isUpper hupper)]
    · exact .inl (Char.toLower_eq_of_not_isUpper hupper).symm
  · rintro (rfl | rfl)
    · exact hletter
    · rw [Char.toLower_toUpper_eq_toLower, hletter]

theorem toList_name (known : Scheme) : known.name.toList =
    match known with
    | .tcp => ['t', 'c', 'p']
    | .udp => ['u', 'd', 'p'] := by
  cases known <;> rfl

theorem namesScheme_iff {known : Scheme} :
    NamesScheme scheme known ↔ scheme.map Char.toLower = known.name.toList := by
  have hlower : ∀ letter ∈ known.name.toList, letter.isLower := by
    cases known <;> simp [toList_name]
  rw [NamesScheme, ← List.forall₂_eq_eq_eq, List.forall₂_map_left_iff]
  generalize known.name.toList = name at hlower
  induction name generalizing scheme with
  | nil => simp
  | cons letter name ih =>
    cases scheme with
    | nil => simp
    | cons c scheme =>
      rw [List.forall₂_cons, List.forall₂_cons]
      exact and_congr (toLower_eq_iff (hlower letter (by simp))).symm
        (ih fun l hl => hlower l (List.mem_cons_of_mem letter hl))

theorem readScheme?_eq_some_iff {known : Scheme} :
    readScheme? scheme = some known ↔ NamesScheme scheme known := by
  rw [namesScheme_iff, readScheme?, toList_name]
  cases known <;> grind

theorem unbracket_eq (h : List Char) : unbracket h = bareHost h := by
  unfold unbracket bareHost
  split
  next rest => cases hlast : rest.getLast? <;> simp [List.getLast?_cons, hlast]
  next hne =>
    rw [if_neg]
    rintro ⟨hhead, -⟩
    obtain ⟨rest, rfl⟩ := List.head?_eq_some_iff.1 hhead
    exact hne rest rfl

theorem Divides.unique {scheme' host' port' : List Char} (h : Divides s scheme host port)
    (h' : Divides s scheme' host' port') : scheme' = scheme ∧ host' = host ∧ port' = port := by
  obtain ⟨rest, hfirst, hlast⟩ := h
  obtain ⟨rest', hfirst', hlast'⟩ := h'
  obtain ⟨rfl, rfl⟩ := hfirst.unique hfirst'
  have hcut := (cutLast?_eq_some_iff.2 hlast).symm.trans (cutLast?_eq_some_iff.2 hlast')
  cases hcut
  exact ⟨rfl, rfl, rfl⟩

/-! ## Defects that do not apply -/

namespace Defect

variable {rest : List Char}

theorem not_missingScheme (h : CutsFirst separator s scheme rest) :
    ¬ missingScheme.AppliesTo s :=
  not_not.2 ⟨scheme, rest, h.eq.symm⟩

theorem not_unsupportedScheme {known : Scheme} (h : CutsFirst separator s scheme rest)
    (hscheme : NamesScheme scheme known) : ¬ unsupportedScheme.AppliesTo s := by
  rintro ⟨scheme', rest', h', hnone⟩
  obtain ⟨rfl, rfl⟩ := h.unique h'
  exact hnone known hscheme

theorem not_missingPort (h : Divides s scheme host port) : ¬ missingPort.AppliesTo s := by
  rintro ⟨scheme', rest', h', hnone⟩
  obtain ⟨rest, hfirst, hlast⟩ := h
  obtain ⟨rfl, rfl⟩ := hfirst.unique h'
  rw [hlast.eq] at hnone
  simp at hnone

theorem not_missingHost (h : Divides s scheme host port) (hhost : bareHost host ≠ []) :
    ¬ missingHost.AppliesTo s := by
  rintro ⟨scheme', host', port', h', hempty⟩
  obtain ⟨rfl, rfl, rfl⟩ := h.unique h'
  exact hhost hempty

theorem not_invalidPort {n : Nat} (h : Divides s scheme host port) (hport : Spells port n)
    (hn : n ≤ 65535) : ¬ invalidPort.AppliesTo s := by
  rintro ⟨scheme', host', port', h', hnone⟩
  obtain ⟨rfl, rfl, rfl⟩ := h.unique h'
  exact hnone n hn hport

end Defect

/-- Nothing is wrong with the text of an endpoint. -/
theorem Spelled.not_appliesTo (h : Spelled s e) (d : Defect) : ¬ d.AppliesTo s := by
  obtain ⟨scheme, host, port, hdivides, hscheme, hhost, -, hport, hbound⟩ := h
  obtain ⟨rest, hfirst, -⟩ := id hdivides
  cases d with
  | missingScheme => exact Defect.not_missingScheme hfirst
  | unsupportedScheme => exact Defect.not_unsupportedScheme hfirst hscheme
  | missingPort => exact Defect.not_missingPort hdivides
  | missingHost => exact Defect.not_missingHost hdivides hhost
  | invalidPort => exact Defect.not_invalidPort hdivides hport hbound

/-! ## Reading -/

theorem read_of_divides {known : Scheme} {n : Nat} (h : Divides s scheme host port)
    (hscheme : NamesScheme scheme known) (hport : Spells port n) (hn : n ≤ 65535) :
    read s =
      if bareHost host = [] then .error .missingHost
      else .ok ⟨known, String.ofList (bareHost host), n⟩ := by
  obtain ⟨rest, hfirst, hlast⟩ := h
  have hfirst' : cutFirst? [':', '/', '/'] s = some (scheme, rest) := cutFirst?_eq_some_iff.2 hfirst
  have hport' := readBelow?_eq_some_iff.2 ⟨hport, Nat.lt_succ_of_le hn⟩
  simp only [read, hfirst', readScheme?_eq_some_iff.2 hscheme, cutLast?_eq_some_iff.2 hlast,
    unbracket_eq, hport']

theorem read_of_spelled (h : Spelled s e) : read s = .ok e := by
  obtain ⟨scheme, host, port, hdivides, hscheme, hhost, hname, hport, hbound⟩ := h
  rw [read_of_divides hdivides hscheme hport hbound, if_neg hhost, ← hname, String.ofList_toList]

/-- Each branch of reading finds an endpoint, or a defect that is the first. -/
theorem read_cases (s : List Char) :
    (∃ e, read s = .ok e ∧ Spelled s e) ∨ ∃ d : Defect, read s = .error d ∧ d.FirstIn s := by
  -- each step that succeeds rules out the defect that it looks for
  unfold read
  split
  next hcut => exact .inr ⟨.missingScheme, rfl, cutFirst?_eq_none_iff.1 hcut, by simp [Defect.rank]⟩
  next scheme rest hcut =>
    have hfirst : CutsFirst separator s scheme rest := cutFirst?_eq_some_iff.1 hcut
    have hno₀ := Defect.not_missingScheme hfirst
    split
    next hnone =>
      refine .inr ⟨.unsupportedScheme, rfl, ⟨scheme, rest, hfirst, fun known hknown => ?_⟩, ?_⟩
      · cases hnone.symm.trans (readScheme?_eq_some_iff.2 hknown)
      · rintro (_ | _ | _ | _ | _) <;> simp [Defect.rank, hno₀]
    next known hknown =>
      have hscheme := readScheme?_eq_some_iff.1 hknown
      have hno₁ := Defect.not_unsupportedScheme hfirst hscheme
      split
      next hnone =>
        refine .inr ⟨.missingPort, rfl, ⟨scheme, rest, hfirst, cutLast?_eq_none_iff.1 hnone⟩, ?_⟩
        rintro (_ | _ | _ | _ | _) <;> simp [Defect.rank, hno₀, hno₁]
      next host port hlast =>
        have hdivides : Divides s scheme host port :=
          ⟨rest, hfirst, cutLast?_eq_some_iff.1 hlast⟩
        have hno₂ := Defect.not_missingPort hdivides
        dsimp only
        rw [unbracket_eq]
        split
        next hempty =>
          refine .inr ⟨.missingHost, rfl, ⟨scheme, host, port, hdivides, hempty⟩, ?_⟩
          rintro (_ | _ | _ | _ | _) <;> simp [Defect.rank, hno₀, hno₁, hno₂]
        next hhost =>
          have hno₃ := Defect.not_missingHost hdivides hhost
          split
          next hnone =>
            refine .inr ⟨.invalidPort, rfl,
              ⟨scheme, host, port, hdivides, fun n hn hspells => ?_⟩, ?_⟩
            · cases hnone.symm.trans (readBelow?_eq_some_iff.2 ⟨hspells, Nat.lt_succ_of_le hn⟩)
            · rintro (_ | _ | _ | _ | _) <;> simp [Defect.rank, hno₀, hno₁, hno₂, hno₃]
          next n hport =>
            obtain ⟨hspells, hbound⟩ := readBelow?_eq_some_iff.1 hport
            exact .inl ⟨_, rfl, scheme, host, port, hdivides, hscheme, hhost, by simp, hspells,
              Nat.le_of_lt_succ hbound⟩

theorem read_eq_ok_iff : read s = .ok e ↔ Spelled s e := by
  refine ⟨fun h => ?_, read_of_spelled⟩
  rcases read_cases s with ⟨e', hread, hspelled⟩ | ⟨d, hread, -⟩
  · cases h.symm.trans hread
    exact hspelled
  · cases h.symm.trans hread

theorem read_eq_error_iff {d : Defect} : read s = .error d ↔ d.FirstIn s := by
  rcases read_cases s with ⟨e, hread, hspelled⟩ | ⟨d', hread, hfirst⟩
  · rw [hread]
    exact ⟨nofun, fun h => absurd h.1 (hspelled.not_appliesTo d)⟩
  · rw [hread, Except.error.injEq]
    exact ⟨fun h => h ▸ hfirst, fun h => hfirst.unique h⟩

theorem parse_eq_ok_iff {s : String} : parse s = .ok e ↔ Spelled s.toList e := by
  rw [← read_eq_ok_iff, parse]
  cases read s.toList <;> simp

theorem parse_eq_error_iff {s : String} {error : LinkError} : parse s = .error error ↔
    ∃ d : Defect, d.FirstIn s.toList ∧ error = .invalidEndpoint s d.reason := by
  simp only [← read_eq_error_iff, parse]
  cases read s.toList <;> simp [eq_comm]

/-- A text is read as an endpoint exactly if it spells it: the parts around the first `://` and the
last colon are the name of the scheme, the host, with or without brackets, and the numeral of the
port. Any other text is refused with an error that repeats it and says which of its defects comes
first. -/
theorem parse_iff (s : String) :
    (∀ e, parse s = .ok e ↔ Spelled s.toList e) ∧
    ∀ error, parse s = .error error ↔
      ∃ d : Defect, d.FirstIn s.toList ∧ error = .invalidEndpoint s d.reason :=
  ⟨fun _ => parse_eq_ok_iff, fun _ => parse_eq_error_iff⟩

/-! ## The written form -/

def writtenHost (e : Endpoint) : List Char :=
  if ':' ∈ e.host.toList then '[' :: e.host.toList ++ [']'] else e.host.toList

theorem toList_text (e : Endpoint) : e.text.toList =
    e.scheme.name.toList ++ separator ++ (e.writtenHost ++ ':' :: (toString e.port).toList) := by
  by_cases h : ':' ∈ e.host.toList <;> simp [text, writtenHost, separator, h]

theorem divides_text (e : Endpoint) :
    Divides e.text.toList e.scheme.name.toList e.writtenHost (toString e.port).toList := by
  have hscheme : ':' ∉ e.scheme.name.toList := by
    cases e.scheme <;> simp [toList_name]
  have hport : ':' ∉ (toString e.port).toList := notMem_toString (by decide) e.port
  rw [toList_text]
  exact ⟨_, cutsFirst_append hscheme _ _, rfl, hport⟩

theorem namesScheme_name (known : Scheme) : NamesScheme known.name.toList known :=
  List.forall₂_same.2 fun _ _ => .inl rfl

theorem bareHost_enclosed (inner : List Char) : bareHost ('[' :: inner ++ [']']) = inner := by
  have hlast : ('[' :: inner ++ [']']).getLast? = some ']' := List.getLast?_concat
  rw [bareHost, if_pos ⟨rfl, hlast⟩]
  simp

theorem bareHost_eq_self_iff {h : List Char} :
    bareHost h = h ↔ ¬ (h.head? = some '[' ∧ h.getLast? = some ']') := by
  unfold bareHost
  split
  next hends =>
    obtain ⟨rest, rfl⟩ := List.head?_eq_some_iff.1 hends.1
    refine iff_of_false (fun heq => ?_) (not_not.2 hends)
    have hlength := congrArg List.length heq
    simp only [List.tail_cons, List.length_dropLast, List.length_cons] at hlength
    omega
  next hends => exact iff_of_true rfl hends

theorem bareHost_writtenHost (e : Endpoint) : bareHost e.writtenHost =
    if ':' ∈ e.host.toList then e.host.toList else bareHost e.host.toList := by
  unfold writtenHost
  split
  next => exact bareHost_enclosed _
  next => rfl

/-- Of the written form everything is read as it was, the host perhaps without brackets. -/
theorem parse_text_eq (h : e.port ≤ 65535) :
    parse e.text =
      if bareHost e.writtenHost = [] then
        .error (.invalidEndpoint e.text Defect.missingHost.reason)
      else .ok ⟨e.scheme, String.ofList (bareHost e.writtenHost), e.port⟩ := by
  rw [parse, read_of_divides (divides_text e) (namesScheme_name e.scheme)
    (spells_toString e.port) h]
  split_ifs <;> rfl

theorem withHost_eq_iff {h : List Char} :
    (⟨e.scheme, String.ofList h, e.port⟩ : Endpoint) = e ↔ h = e.host.toList := by
  constructor
  · intro heq
    rw [← congrArg Endpoint.host heq, String.toList_ofList]
  · rintro rfl
    rw [String.ofList_toList]

theorem parse_text_eq_ok_iff (hport : e.port ≤ 65535) (hne : e.host.toList ≠ []) :
    parse e.text = .ok e ↔
      (e.host.toList.head? = some '[' ∧ e.host.toList.getLast? = some ']' →
        ':' ∈ e.host.toList) := by
  have hsame : parse e.text = .ok e ↔ bareHost e.writtenHost = e.host.toList := by
    rw [parse_text_eq hport]
    split
    next hempty => simp [hempty, hne.symm]
    next => rw [Except.ok.injEq, withHost_eq_iff]
  rw [hsame, bareHost_writtenHost]
  by_cases hcolon : ':' ∈ e.host.toList
  · simp [hcolon]
  · rw [if_neg hcolon, bareHost_eq_self_iff]
    exact (imp_iff_not hcolon).symm

theorem Spelled.host_ne_nil (h : Spelled s e) : e.host.toList ≠ [] := by
  obtain ⟨scheme, host, port, -, -, hhost, hname, -⟩ := h
  rwa [hname]

theorem Spelled.port_le (h : Spelled s e) : e.port ≤ 65535 := by
  obtain ⟨scheme, host, port, -, -, -, -, -, hbound⟩ := h
  exact hbound

/-- The written form of an endpoint that was read is read as the same endpoint exactly if its host
does not stand in brackets itself or holds a colon. Else the brackets are taken off, and nothing is
read if they enclose nothing. -/
theorem parse_text {s : String} (h : parse s = .ok e) :
    (parse e.text = .ok e ↔
      (e.host.toList.head? = some '[' ∧ e.host.toList.getLast? = some ']' →
        ':' ∈ e.host.toList)) ∧
    ∀ inner, e.host.toList = '[' :: inner ++ [']'] → ':' ∉ inner →
      parse e.text =
        if inner = [] then .error (.invalidEndpoint e.text Defect.missingHost.reason)
        else .ok ⟨e.scheme, String.ofList inner, e.port⟩ := by
  have hspelled := parse_eq_ok_iff.1 h
  refine ⟨parse_text_eq_ok_iff hspelled.port_le hspelled.host_ne_nil, fun inner hhost hcolon => ?_⟩
  have hbare : bareHost e.writtenHost = inner := by
    rw [bareHost_writtenHost, if_neg (by simp [hhost, hcolon]), hhost, bareHost_enclosed]
  rw [parse_text_eq hspelled.port_le, hbare]

/-- A host in two pairs of brackets keeps one of them, which is lost when the written form is
read. -/
theorem not_parse_text_enclosed :
    parse "tcp://[[a]]:1" = .ok ⟨.tcp, "[a]", 1⟩ ∧
      ¬ ∀ (s : String) (e : Endpoint), parse s = .ok e → parse e.text = .ok e := by
  have hread : parse "tcp://[[a]]:1" = .ok ⟨.tcp, "[a]", 1⟩ := by decide
  refine ⟨hread, fun h => ?_⟩
  have hlost : parse (Endpoint.text ⟨.tcp, "[a]", 1⟩) = .ok ⟨.tcp, "a", 1⟩ := by decide
  exact absurd (hlost.symm.trans (h _ _ hread)) (by decide)

/-- Brackets around brackets, a colon within them, and a port with a sign and a zero in front. -/
theorem parse_text_of_colon :
    parse "UDP://[[::1]]:+07" = .ok ⟨.udp, "[::1]", 7⟩ ∧
      parse (Endpoint.text ⟨.udp, "[::1]", 7⟩) = .ok ⟨.udp, "[::1]", 7⟩ := by
  have hread : parse "UDP://[[::1]]:+07" = .ok ⟨.udp, "[::1]", 7⟩ := by decide
  exact ⟨hread, (parse_text hread).1.2 fun _ => by decide⟩

end ArmStream.Endpoint
