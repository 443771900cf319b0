import Mathlib
import ArmStream.Proofs.Endpoints

/-!
# Addresses in text

The text of an address reads back as the address: four decimal numbers, or groups of hexadecimal
digits of which the longest run of zeros is left out. Between two colons of such a text there is
always a group, but for the place where groups are left out, so this place is found again, and the
number of groups that are given says how many are missing there.

## Main statements

- `Ip.readV4?_textV4`, `Ip.readV6?_textV6`, `Ip.read?_text`: the text of an address reads back.
- `Endpoint.parse_socketAddress`: the text of a socket address behind a scheme is an endpoint.
-/

namespace ArmStream.Ip

open Text Number

/-! ## Version 4 -/

theorem readOctet?_toString (x : UInt8) : readOctet? (toString x.toNat).toList = some x := by
  -- no zero in front and at most three digits: decided for each of the 256 numbers
  have hall : ∀ n : Fin 256, readOctet? (toString n.val).toList = some (UInt8.ofNat n.val) := by
    decide +kernel
  simpa using hall ⟨x.toNat, x.toNat_lt⟩

theorem pieces_textV4 (a b c d : UInt8) : pieces '.' (textV4 a b c d) =
    [(toString a.toNat).toList, (toString b.toNat).toList, (toString c.toNat).toList,
      (toString d.toNat).toList] := by
  have hdot (n : Nat) : '.' ∉ (toString n).toList := notMem_toString (by decide) n
  simp only [textV4, List.append_assoc, List.cons_append]
  rw [pieces_append_cons (hdot _), pieces_append_cons (hdot _), pieces_append_cons (hdot _),
    pieces_of_notMem (hdot _)]

theorem readV4?_textV4 (a b c d : UInt8) : readV4? (textV4 a b c d) = some (a, b, c, d) := by
  simp only [readV4?, pieces_textV4, List.map_cons, List.map_nil, readOctet?_toString]

theorem isDigit_of_readOctet? {s : List Char} {x : UInt8} (h : readOctet? s = some x) {c : Char}
    (hc : c ∈ s) : c.isDigit := by
  unfold readOctet? at h
  split at h
  next => cases h
  next => cases h
  next =>
    split at h
    next => cases h
    next =>
      split at h
      next n hvalue => exact (digitsValue?_eq_some_iff.1 hvalue).1 c hc
      next => cases h

theorem octets_of_readV4? {s : List Char} {q : UInt8 × UInt8 × UInt8 × UInt8}
    (h : readV4? s = some q) :
    (pieces '.' s).map readOctet? = [some q.1, some q.2.1, some q.2.2.1, some q.2.2.2] := by
  unfold readV4? at h
  split at h
  next hoctets =>
    cases h
    exact hoctets
  next => cases h

/-- An address of version 4 is written with digits and points. -/
theorem notMem_textV4 {c : Char} (hdigit : ¬ c.isDigit) (hdot : c ≠ '.') (x y z w : UInt8) :
    c ∉ textV4 x y z w := by
  simp only [textV4, List.mem_append, List.mem_cons, notMem_toString hdigit, hdot, or_self,
    not_false_eq_true]

/-- A text without points is no address of version 4. -/
theorem readV4?_of_dot_notMem {s : List Char} (h : '.' ∉ s) : readV4? s = none := by
  refine Option.eq_none_iff_forall_ne_some.2 fun q hq => ?_
  have hoctets := octets_of_readV4? hq
  simp [pieces_of_notMem h] at hoctets

/-- Nor is a text with a colon. -/
theorem readV4?_of_colon_mem {s : List Char} (h : ':' ∈ s) : readV4? s = none := by
  refine Option.eq_none_iff_forall_ne_some.2 fun q hq => ?_
  obtain ⟨piece, hpiece, hcolon⟩ := exists_mem_pieces h (show ':' ≠ '.' by decide)
  have hoctet := List.mem_map_of_mem (f := readOctet?) hpiece
  rw [octets_of_readV4? hq] at hoctet
  have hsome : ∃ x, readOctet? piece = some x := by
    simp only [List.mem_cons, List.not_mem_nil, or_false] at hoctet
    rcases hoctet with h | h | h | h <;> exact ⟨_, h⟩
  obtain ⟨x, hx⟩ := hsome
  exact absurd (isDigit_of_readOctet? hx hcolon) (by decide)

/-! ## Groups -/

theorem hexDigit?_lowerHexDigit : ∀ n < 16, hexDigit? (lowerHexDigit n) = some n := by
  decide

theorem lowerHexDigit_ne : ∀ n < 16, lowerHexDigit n ≠ ':' ∧ lowerHexDigit n ≠ '.' := by
  decide

theorem hexValue?_hexDigits {width n : Nat} (h : n < 16 ^ width) (rest : List Char) :
    hexValue? (hexDigits width n rest) 0 = hexValue? rest n := by
  induction width generalizing n rest with
  | zero =>
    obtain rfl : n = 0 := by simpa using h
    rfl
  | succ width ih =>
    have hdigit := hexDigit?_lowerHexDigit (n % 16) (Nat.mod_lt n (by decide))
    rw [hexDigits]
    split
    next hsmall =>
      -- the leading digit
      rw [hexValue?, hdigit, Nat.mod_eq_of_lt hsmall]
      simp
    next =>
      rw [ih (by omega), hexValue?, hdigit]
      simp only [Nat.div_add_mod]

theorem length_hexDigits_le (width n : Nat) (rest : List Char) :
    (hexDigits width n rest).length ≤ width + rest.length := by
  induction width generalizing n rest with
  | zero => simp [hexDigits]
  | succ width ih =>
    rw [hexDigits]
    split
    next => simp [Nat.add_comm]
    next =>
      have hlength := ih (n / 16) (lowerHexDigit (n % 16) :: rest)
      rw [List.length_cons] at hlength
      omega

theorem mem_hexDigits {width n : Nat} {rest : List Char} {c : Char}
    (h : c ∈ hexDigits width n rest) : c ∈ rest ∨ ∃ k < 16, c = lowerHexDigit k := by
  have hdigit : n % 16 < 16 := Nat.mod_lt n (by decide)
  induction width generalizing n rest with
  | zero => exact .inl h
  | succ width ih =>
    rw [hexDigits] at h
    split at h
    next =>
      rcases List.mem_cons.1 h with rfl | h
      · exact .inr ⟨_, hdigit, rfl⟩
      · exact .inl h
    next =>
      rcases ih h (Nat.mod_lt _ (by decide)) with h | h
      · rcases List.mem_cons.1 h with rfl | h
        · exact .inr ⟨_, hdigit, rfl⟩
        · exact .inl h
      · exact .inr h

theorem hexDigits_succ_ne_nil (width n : Nat) (rest : List Char) :
    hexDigits (width + 1) n rest ≠ [] := by
  induction width generalizing n rest with
  | zero => simp [hexDigits]
  | succ width ih =>
    rw [hexDigits]
    split
    next => simp
    next => exact ih _ _

/-- A group is written with digits only, and with at least one. -/
theorem groupText_digits (g : UInt16) :
    groupText g ≠ [] ∧ ':' ∉ groupText g ∧ '.' ∉ groupText g := by
  have hdigit {c : Char} (h : c ∈ groupText g) : ∃ k < 16, c = lowerHexDigit k := by
    simpa using mem_hexDigits h
  refine ⟨hexDigits_succ_ne_nil 3 _ _, fun h => ?_, fun h => ?_⟩
  · obtain ⟨k, hk, hc⟩ := hdigit h
    exact (lowerHexDigit_ne k hk).1 hc.symm
  · obtain ⟨k, hk, hc⟩ := hdigit h
    exact (lowerHexDigit_ne k hk).2 hc.symm

theorem readGroup?_groupText (g : UInt16) : readGroup? (groupText g) = some g := by
  have hlength := length_hexDigits_le 4 g.toNat []
  have hvalue : hexValue? (hexDigits 4 g.toNat []) 0 = hexValue? [] g.toNat :=
    hexValue?_hexDigits g.toNat_lt []
  rw [readGroup?, if_neg, groupText, hvalue]
  · simp [hexValue?]
  · rintro (h | h)
    · exact (groupText_digits g).1 h
    · exact absurd h (Nat.not_lt_of_le hlength)

/-! ## Groups between colons -/

theorem joinGroups_cons_cons (g g' : UInt16) (gs : List UInt16) :
    joinGroups (g :: g' :: gs) = groupText g ++ ':' :: joinGroups (g' :: gs) := rfl

theorem pieces_joinGroups {gs : List UInt16} (h : gs ≠ []) :
    pieces ':' (joinGroups gs) = gs.map groupText := by
  induction gs with
  | nil => exact absurd rfl h
  | cons g gs ih =>
    have hcolon := (groupText_digits g).2.1
    cases gs with
    | nil => exact pieces_of_notMem hcolon
    | cons g' gs =>
      rw [joinGroups_cons_cons, pieces_append_cons hcolon, ih (by simp), List.map_cons,
        List.map_cons, List.map_cons]

theorem readGroups?_groupText (gs : List UInt16) :
    readGroups? (gs.map groupText) = some gs := by
  induction gs with
  | nil => rfl
  | cons g gs ih =>
    cases gs with
    | nil =>
      simp [readGroups?, readV4?_of_dot_notMem (groupText_digits g).2.2, readGroup?_groupText]
    | cons g' gs =>
      rw [List.map_cons] at ih
      simp [readGroups?, readGroup?_groupText, ih]

theorem dot_notMem_joinGroups (gs : List UInt16) : '.' ∉ joinGroups gs := by
  induction gs with
  | nil => simp [joinGroups]
  | cons g gs ih =>
    have hdot := (groupText_digits g).2.2
    cases gs with
    | nil => exact hdot
    | cons g' gs => simp [joinGroups_cons_cons, hdot, ih]

theorem exists_joinGroups_eq_cons (g : UInt16) (gs : List UInt16) :
    ∃ c rest, joinGroups (g :: gs) = c :: rest ∧ c ≠ ':' := by
  obtain ⟨hne, hcolon, -⟩ := groupText_digits g
  obtain ⟨c, rest, hg⟩ := List.exists_cons_of_ne_nil hne
  have hc : c ≠ ':' := fun hc => hcolon (by simp [hg, hc])
  cases gs with
  | nil => exact ⟨c, rest, hg, hc⟩
  | cons g' gs => exact ⟨c, _, by rw [joinGroups_cons_cons, hg]; rfl, hc⟩

theorem readSide?_joinGroups (gs : List UInt16) : readSide? (joinGroups gs) = some gs := by
  cases gs with
  | nil => rfl
  | cons g gs =>
    obtain ⟨c, rest, heq, -⟩ := exists_joinGroups_eq_cons g gs
    rw [readSide?, if_neg (by simp [heq]), pieces_joinGroups (by simp), readGroups?_groupText]

/-- No two colons stand side by side in groups, nor do groups end with a colon. -/
theorem cutFirst?_joinGroups (gs : List UInt16) (s : List Char) :
    cutFirst? [':', ':'] (joinGroups gs ++ s) =
      (cutFirst? [':', ':'] s).map fun cut => (joinGroups gs ++ cut.1, cut.2) := by
  induction gs with
  | nil => simp [joinGroups]
  | cons g gs ih =>
    have hcolon := (groupText_digits g).2.1
    cases gs with
    | nil => exact cutFirst?_append hcolon _ _
    | cons g' gs =>
      -- behind the colon a digit follows, so the separator does not begin there
      obtain ⟨c, rest, heq, hc⟩ := exists_joinGroups_eq_cons g' gs
      have hstep : cutFirst? [':', ':'] (':' :: (joinGroups (g' :: gs) ++ s)) =
          (cutFirst? [':', ':'] (joinGroups (g' :: gs) ++ s)).map
            fun cut => (':' :: cut.1, cut.2) := by
        rw [cutFirst?, heq]
        simp [afterStart?, hc.symm]
      rw [joinGroups_cons_cons, List.append_assoc, List.cons_append, cutFirst?_append hcolon,
        hstep, ih]
      simp [Function.comp_def]

/-! ## The run that is left out -/

theorem replicate_zeroRun (gs : List UInt16) : List.replicate (zeroRun gs) 0 <+: gs := by
  induction gs with
  | nil => simp [zeroRun]
  | cons g gs ih =>
    rw [zeroRun]
    split
    next hg => simpa [List.replicate_succ, hg] using ih
    next => simp

/-- The place holds zeros: as many as are given, from the given position on. -/
def HoldsZeros (groups : List UInt16) (place : Nat × Nat) : Prop :=
  List.replicate place.2 0 <+: groups.drop place.1

theorem holdsZeros_longestRun {groups gs : List UInt16} {start : Nat} {best : Nat × Nat}
    (hgs : groups.drop start = gs) (hbest : HoldsZeros groups best) :
    HoldsZeros groups (longestRun start best gs) := by
  induction gs generalizing start best with
  | nil => exact hbest
  | cons g gs ih =>
    rw [longestRun]
    refine ih (by rw [← List.drop_drop, hgs]; rfl) ?_
    split
    next =>
      rw [HoldsZeros, hgs]
      exact replicate_zeroRun (g :: gs)
    next => exact hbest

theorem HoldsZeros.eq_append {groups : List UInt16} {start run : Nat}
    (h : HoldsZeros groups (start, run)) :
    groups = groups.take start ++ List.replicate run 0 ++ groups.drop (start + run) := by
  have hdrop := List.prefix_iff_eq_append.1 h
  simp only [List.length_replicate, List.drop_drop] at hdrop
  rw [List.append_assoc, hdrop, List.take_append_drop]

/-! ## Version 6 -/

theorem eightGroups?_toList (groups : Vector UInt16 8) :
    eightGroups? groups.toList = some groups := by
  obtain ⟨array, hsize⟩ := groups
  simp [eightGroups?, hsize]

theorem readV6?_joinGroups (groups : Vector UInt16 8) :
    readV6? (joinGroups groups.toList) = some groups := by
  have hne : groups.toList ≠ [] := by
    rw [← List.length_pos_iff, Vector.length_toList]
    decide
  have hnone : cutFirst? [':', ':'] (joinGroups groups.toList) = none := by
    have hcut := cutFirst?_joinGroups groups.toList []
    rwa [List.append_nil] at hcut
  simp only [readV6?, hnone, pieces_joinGroups hne, readGroups?_groupText, eightGroups?_toList]

/-- The groups on both sides say how many are left out between them. -/
theorem readV6?_omitted {groups : Vector UInt16 8} {start run : Nat} (hrun : 0 < run)
    (h : HoldsZeros groups.toList (start, run)) :
    readV6? (joinGroups (groups.toList.take start) ++ [':', ':'] ++
      joinGroups (groups.toList.drop (start + run))) = some groups := by
  have heq := h.eq_append
  generalize groups.toList.take start = front at heq ⊢
  generalize groups.toList.drop (start + run) = back at heq ⊢
  have hlength : front.length + run + back.length = 8 := by
    simpa [Nat.add_assoc] using (congrArg List.length heq).symm
  have hcut : cutFirst? [':', ':'] (joinGroups front ++ [':', ':'] ++ joinGroups back) =
      some (joinGroups front, joinGroups back) := by
    rw [List.append_assoc, cutFirst?_joinGroups]
    simp [cutFirst?, afterStart?]
  have hdot : (joinGroups front).contains '.' = false := by
    simpa using dot_notMem_joinGroups front
  have hgiven : front.length + back.length ≤ 7 := by omega
  have hmissing : 8 - (front.length + back.length) = run := by omega
  simp only [readV6?, hcut, hdot, readSide?_joinGroups]
  rw [if_pos hgiven, hmissing, ← heq]
  exact eightGroups?_toList groups

theorem mappedGroups_bytes (x y : UInt16) :
    mappedGroups (UInt8.ofNat (x.toNat / 256)) (UInt8.ofNat x.toNat)
      (UInt8.ofNat (y.toNat / 256)) (UInt8.ofNat y.toNat) = [x, y] := by
  have hword (z : UInt16) :
      UInt16.ofNat (256 * (UInt8.ofNat (z.toNat / 256)).toNat + (UInt8.ofNat z.toNat).toNat) =
        z := by
    have hz := z.toNat_lt
    apply UInt16.toNat_inj.1
    simp only [UInt16.toNat_ofNat', UInt8.toNat_ofNat']
    omega
  simp only [mappedGroups, hword]

/-- Six groups in front of an address of version 4: five zeros, which are left out, and ones. -/
theorem readV6?_mapped {groups : Vector UInt16 8} {x y : UInt16}
    (h : groups.toList = [0, 0, 0, 0, 0, 0xffff, x, y]) :
    readV6? ("::ffff:".toList ++ textV4 (UInt8.ofNat (x.toNat / 256)) (UInt8.ofNat x.toNat)
      (UInt8.ofNat (y.toNat / 256)) (UInt8.ofNat y.toNat)) = some groups := by
  have hlast := readV4?_textV4 (UInt8.ofNat (x.toNat / 256)) (UInt8.ofNat x.toNat)
    (UInt8.ofNat (y.toNat / 256)) (UInt8.ofNat y.toNat)
  have hcolon := notMem_textV4 (c := ':') (by decide) (by decide) (UInt8.ofNat (x.toNat / 256))
    (UInt8.ofNat x.toNat) (UInt8.ofNat (y.toNat / 256)) (UInt8.ofNat y.toNat)
  have hgroups := mappedGroups_bytes x y
  generalize textV4 (UInt8.ofNat (x.toNat / 256)) (UInt8.ofNat x.toNat)
    (UInt8.ofNat (y.toNat / 256)) (UInt8.ofNat y.toNat) = last at hlast hcolon ⊢
  have hcut : cutFirst? [':', ':'] ("::ffff:".toList ++ last) =
      some ([], ['f', 'f', 'f', 'f'] ++ ':' :: last) := rfl
  have hpieces : pieces ':' (['f', 'f', 'f', 'f'] ++ ':' :: last) =
      [['f', 'f', 'f', 'f'], last] := by
    rw [pieces_append_cons (by decide), pieces_of_notMem hcolon]
  have hfirst : readGroup? ['f', 'f', 'f', 'f'] = some 0xffff := by decide
  have hside : readSide? (['f', 'f', 'f', 'f'] ++ ':' :: last) = some [0xffff, x, y] := by
    rw [readSide?, if_neg (by simp), hpieces]
    simp only [readGroups?, hfirst, hlast, hgroups]
  have hall := eightGroups?_toList groups
  rw [h] at hall
  simp only [readV6?, hcut, hside]
  exact hall

theorem readV6?_textV6 (groups : Vector UInt16 8) : readV6? (textV6 groups) = some groups := by
  unfold textV6
  dsimp only
  split
  next x y h => exact readV6?_mapped h
  next =>
    have hzeros : HoldsZeros groups.toList (longestRun 0 (0, 0) groups.toList) :=
      holdsZeros_longestRun rfl (by simp [HoldsZeros])
    split
    next => exact readV6?_joinGroups groups
    next hrun =>
      exact readV6?_omitted (Nat.lt_of_lt_of_le Nat.two_pos (Nat.le_of_not_lt hrun)) hzeros

theorem colon_mem_textV6 (groups : Vector UInt16 8) : ':' ∈ textV6 groups := by
  unfold textV6
  dsimp only
  split
  next => simp
  next =>
    split
    next =>
      have hlength : groups.toList.length = 8 := groups.length_toList
      obtain ⟨g, rest, hgroups⟩ := List.exists_cons_of_length_eq_add_one hlength
      rw [hgroups, List.length_cons, Nat.succ_inj] at hlength
      obtain ⟨g', rest, rfl⟩ := List.exists_cons_of_length_eq_add_one hlength
      simp [hgroups, joinGroups_cons_cons]
    next => simp

theorem read?_text (ip : Ip) : read? ip.text.toList = some ip := by
  cases ip with
  | v4 a b c d => simp [text, read?, readV4?_textV4]
  | v6 groups =>
    simp [text, read?, readV4?_of_colon_mem (colon_mem_textV6 groups), readV6?_textV6]

end ArmStream.Ip

namespace ArmStream.Endpoint

open Number

def ofAddress (scheme : Scheme) (x : SocketAddress) : Endpoint := ⟨scheme, x.ip.text, x.port⟩

theorem text_ofAddress (scheme : Scheme) (x : SocketAddress) :
    (ofAddress scheme x).text = scheme.name ++ "://" ++ x.text := by
  obtain ⟨ip, port⟩ := x
  apply String.toList_inj.1
  cases ip with
  | v4 a b c d =>
    have hcolon := Ip.notMem_textV4 (c := ':') (by decide) (by decide) a b c d
    simp [text, ofAddress, SocketAddress.text, Ip.text, hcolon]
  | v6 groups =>
    have hcolon := Ip.colon_mem_textV6 groups
    simp [text, ofAddress, SocketAddress.text, Ip.text, hcolon]

/-- No name service is asked. -/
theorem resolve_ofAddress (scheme : Scheme) (x : SocketAddress) (names : NameService) :
    (ofAddress scheme x).resolve names = .ok x := by
  have hread := Ip.read?_text x.ip
  have hhost : x.ip.text ≠ "*" := fun h => by
    have hstar : Ip.read? "*".toList = none := by decide
    rw [h, hstar] at hread
    cases hread
  simp only [resolve, addresses, ofAddress, hhost, if_false, hread]

theorem parse_text_ofAddress (scheme : Scheme) {x : SocketAddress} (h : x.port ≤ 65535) :
    parse (ofAddress scheme x).text = .ok (ofAddress scheme x) := by
  have hread := Ip.read?_text x.ip
  have hne : x.ip.text.toList ≠ [] := fun hempty => by
    have hnone : Ip.read? [] = none := by decide
    rw [hempty, hnone] at hread
    cases hread
  refine (parse_text_eq_ok_iff h hne).2 fun hbrackets => ?_
  obtain ⟨ip, port⟩ := x
  cases ip with
  | v4 a b c d =>
    have hfront := Ip.notMem_textV4 (c := '[') (by decide) (by decide) a b c d
    refine absurd (List.mem_of_head? ?_) hfront
    simpa [ofAddress, Ip.text] using hbrackets.1
  | v6 groups => simpa [ofAddress, Ip.text] using Ip.colon_mem_textV6 groups

/-- The text of a socket address behind any scheme is read as an endpoint that is written in the
same way and is found at this very address, whatever the name service says. -/
theorem parse_socketAddress (scheme : Scheme) (x : SocketAddress) (h : x.port ≤ 65535) :
    ∃ e, parse (scheme.name ++ "://" ++ x.text) = .ok e ∧ e.scheme = scheme ∧
      e.text = scheme.name ++ "://" ++ x.text ∧
      ∀ names : NameService, e.resolve names = .ok x := by
  rw [← text_ofAddress]
  exact ⟨_, parse_text_ofAddress scheme h, rfl, rfl, resolve_ofAddress scheme x⟩

/-- Two runs of three zero groups, of which the first is left out. -/
theorem parse_socketAddress_of_runs :
    ∃ x : SocketAddress, x = ⟨.v6 #v[0xfe80, 0, 0, 0, 7, 0, 0, 0], 65535⟩ ∧
      x.text = "[fe80::7:0:0:0]:65535" ∧ x.port ≤ 65535 ∧
      ∃ e, parse ("udp" ++ "://" ++ "[fe80::7:0:0:0]:65535") = .ok e ∧ e.scheme = .udp ∧
        e.text = "udp" ++ "://" ++ "[fe80::7:0:0:0]:65535" ∧
        ∀ names : NameService, e.resolve names = .ok x := by
  obtain ⟨x, hx⟩ : ∃ x : SocketAddress, x = ⟨.v6 #v[0xfe80, 0, 0, 0, 7, 0, 0, 0], 65535⟩ :=
    ⟨_, rfl⟩
  have htext : x.text = "[fe80::7:0:0:0]:65535" := by rw [hx]; decide
  have hport : x.port ≤ 65535 := by rw [hx]
  refine ⟨x, hx, htext, hport, ?_⟩
  rw [← htext]
  exact parse_socketAddress .udp x hport

end ArmStream.Endpoint
