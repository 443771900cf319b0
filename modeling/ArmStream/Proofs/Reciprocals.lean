import Mathlib
import ArmStream.Number.Tenths

/-!
# Reciprocals of numbers

The pattern of a positive number is the mantissa, with the exponent as a multiple of two to the
power of 52 on top. So rounding a mantissa up carries into the exponent by itself, and a rounded
quotient has a pattern that can be read off. The reciprocal of a power of two is exact; between two
powers the reciprocal stays strictly between theirs, also after rounding. So a reciprocal reaches a
power of two exactly if the number does not exceed the opposite power.

## Main definitions

- `Encodes`: a pattern is that of a mantissa and an exponent.

## Main statements

- `toNat_pack_roundWithAccuracy`: the pattern of a rounded mantissa.
- `le_reciprocal_iff`: when a reciprocal reaches a power of two.
-/

namespace ArmStream.Number

open Float.Model (Format totalExponent UnpackedFloat)
open Float.Model.UnpackedFloat

/-! ## Patterns -/

/-- The pattern of the number `m * 2 ^ e`, if its exponent is not too large. Below the least
exponent there are no full mantissas. -/
structure Encodes (p m : Nat) (e : Int) : Prop where
  pos : 0 < m
  lt : m < 2 ^ 53
  ge : -1074 ≤ e
  normal : 2 ^ 52 ≤ m ∨ e = -1074
  eq : (p : Int) = (e + 1074) * 2 ^ 52 + m

variable {p : Pattern} {m n : Nat} {e : Int}

theorem toNat_unpackMantissa (b : BitVec 64) :
    (@unpackMantissa .binary64 b).toNat = b.toNat % 2 ^ 52 := by
  rw [unpackMantissa_def, BitVec.extractLsb'_toNat, Nat.shiftRight_eq_div_pow]
  simp

theorem toNat_unpackExponent {b : BitVec 64} (h : b.toNat < 2 ^ 63) :
    (@unpackExponent .binary64 b).toNat = b.toNat / 2 ^ 52 := by
  have hsmall : b.toNat / 2 ^ 52 < 2 ^ 11 := by omega
  rw [unpackExponent_def, BitVec.extractLsb'_toNat, Nat.shiftRight_eq_div_pow]
  exact Nat.mod_eq_of_lt hsmall

theorem unpackExponent_eq_iff {b : BitVec 64} (h : b.toNat < 2 ^ 63) (x : BitVec 11) :
    @unpackExponent .binary64 b = x ↔ b.toNat / 2 ^ 52 = x.toNat := by
  rw [← BitVec.toNat_inj, toNat_unpackExponent h]

theorem sign_of_lt {b : BitVec 64} (h : b.toNat < 2 ^ 63) :
    Sign.ofBitVec (@unpackSign .binary64 b) = .positive := by
  have hzero : @unpackSign .binary64 b = 0#1 := by
    apply BitVec.eq_of_toNat_eq
    rw [unpackSign_def, BitVec.extractLsb'_toNat, Nat.shiftRight_eq_div_pow]
    simp only [Nat.reduceAdd]
    rw [Nat.div_eq_of_lt h]
    rfl
  rw [hzero]
  rfl

theorem exponent_ne_infinite {b : BitVec 64} (h : b.toNat < 2047 * 2 ^ 52) :
    @unpackExponent .binary64 b ≠ -1#11 := by
  rw [Ne, unpackExponent_eq_iff (by omega)]
  simp only [BitVec.reduceNeg, BitVec.reduceToNat]
  omega

theorem toNat_one_append (x : BitVec 52) : (1#1 ++ x).toNat = 2 ^ 52 + x.toNat := by
  rw [BitVec.toNat_append, ← Nat.shiftLeft_add_eq_or_of_lt x.isLt]
  simp

theorem unpack_of_subnormal {b : BitVec 64} (hpos : 0 < b.toNat) (h : b.toNat < 2 ^ 52) :
    unpack .binary64 b = .finite .positive b.toNat (-1074) hpos := by
  have hmantissa : (@unpackMantissa .binary64 b).toNat = b.toNat := by
    rw [toNat_unpackMantissa, Nat.mod_eq_of_lt h]
  have hexponent : @unpackExponent .binary64 b = 0#11 := by
    rw [unpackExponent_eq_iff (by omega), Nat.div_eq_of_lt h]
    rfl
  have hnonzero : @unpackMantissa .binary64 b ≠ 0#52 := by
    rw [Ne, ← BitVec.toNat_inj, hmantissa]
    exact hpos.ne'
  unfold unpack
  simp only [sign_of_lt (show b.toNat < 2 ^ 63 by omega)]
  rw [if_neg (exponent_ne_infinite (by omega)), if_pos hexponent, dif_neg hnonzero]
  simp [hexponent, hmantissa, Format.exponentBias]

theorem unpack_of_normal {b : BitVec 64} (hlow : 2 ^ 52 ≤ b.toNat)
    (hhigh : b.toNat < 2047 * 2 ^ 52) : unpack .binary64 b =
      .finite .positive (2 ^ 52 + b.toNat % 2 ^ 52) (b.toNat / 2 ^ 52 - 1075) (by omega) := by
  have hexponent := toNat_unpackExponent (show b.toNat < 2 ^ 63 by omega)
  have hnonzero : @unpackExponent .binary64 b ≠ 0#11 := by
    rw [Ne, ← BitVec.toNat_inj, hexponent]
    simp only [BitVec.toNat_ofNat, Nat.zero_mod]
    omega
  unfold unpack
  simp only [sign_of_lt (show b.toNat < 2 ^ 63 by omega)]
  rw [if_neg (exponent_ne_infinite hhigh), if_neg hnonzero]
  simp [hexponent, toNat_one_append, toNat_unpackMantissa, Format.exponentBias]

/-- A positive finite pattern is unpacked into its mantissa and its exponent. -/
theorem unpack_of_pos {b : BitVec 64} (hpos : 0 < b.toNat) (hfinite : b.toNat < 2047 * 2 ^ 52) :
    ∃ m e, ∃ h : Encodes b.toNat m e, unpack .binary64 b = .finite .positive m e h.pos := by
  by_cases hsubnormal : b.toNat < 2 ^ 52
  · exact ⟨b.toNat, -1074, ⟨hpos, by omega, by omega, .inr rfl, by omega⟩,
      unpack_of_subnormal hpos hsubnormal⟩
  · exact ⟨2 ^ 52 + b.toNat % 2 ^ 52, b.toNat / 2 ^ 52 - 1075,
      ⟨by omega, by omega, by omega, .inl (by omega), by omega⟩,
      unpack_of_normal (by omega) hfinite⟩

theorem toNat_packComponents (x : BitVec 11) (y : BitVec 52) :
    (packComponents .binary64 .positive x y).toNat = x.toNat * 2 ^ 52 + y.toNat := by
  have hsign : (Sign.positive.toBitVec ++ x).toNat = x.toNat := by
    rw [BitVec.toNat_append, ← Nat.shiftLeft_add_eq_or_of_lt x.isLt]
    simp [Sign.toBitVec]
  unfold packComponents
  rw [BitVec.toNat_append, ← Nat.shiftLeft_add_eq_or_of_lt y.isLt, hsign, Nat.shiftLeft_eq]

theorem Encodes.log2_eq {p : Nat} (h : Encodes p m e) :
    m.log2 + 1 = 53 ↔ 2 ^ 52 ≤ m := by
  have hlt := (Nat.log2_lt h.pos.ne').2 h.lt
  have hle := Nat.le_log2 (k := 52) h.pos.ne'
  omega

/-- Patterns that are too large are packed as infinity. -/
theorem Encodes.toNat_pack {p : Nat} (h : Encodes p m e) :
    (pack .binary64 (.finite .positive m e h.pos)).toNat = min (2047 * 2 ^ 52) p := by
  obtain ⟨hpos, hlt, hge, hnormal, heq⟩ := id h
  have hlog := h.log2_eq
  have hbits : Format.binary64.mantissaBits = 53 := rfl
  have hbias : ((e + (Format.binary64.exponentBias : Int) + (52 : Nat)).toNat : Int) =
      e + 1075 := by
    simp [Format.exponentBias]
    omega
  unfold pack
  dsimp only
  by_cases hinfinite : 2 ^ 11 ≤ (e + (Format.binary64.exponentBias : Int) + (52 : Nat)).toNat + 1
  · rw [if_pos hinfinite, packedInfinity, toNat_packComponents]
    simp
    omega
  · rw [if_neg hinfinite]
    by_cases hfull : m.log2 + 1 = Format.binary64.mantissaBits
    · rw [if_pos hfull, toNat_packComponents, BitVec.toNat_ofNat, BitVec.toNat_ofNat]
      omega
    · rw [if_neg hfull, toNat_packComponents, BitVec.toNat_ofNat]
      simp
      omega

/-! ## Rounding -/

theorem targetExponent_eq (e : Int) : Format.binary64.targetExponent e = max (e - 53) (-1074) :=
  rfl

/-- Rounding goes up by one at most. -/
theorem le_roundToNearestEven (m : Nat) (acc : Accuracy) :
    m ≤ acc.roundToNearestEven m ∧ acc.roundToNearestEven m ≤ m + 1 := by
  unfold Accuracy.roundToNearestEven
  split <;> omega

theorem roundedMantissa_ofMantissaAndAccuracy (m : Nat) (acc : Accuracy) :
    (ExtendedMantissa.ofMantissaAndAccuracy m acc).roundedMantissa = acc.roundToNearestEven m := by
  rcases acc with _ | (_ | _ | _) <;> rfl

theorem shiftToTargetExponent_of_lt (hm : 0 < m) (h : m < 2 ^ 53)
    (he : -1074 ≤ e) (acc : Accuracy) : shiftToTargetExponent .binary64 m e acc =
      (.ofMantissaAndAccuracy m acc, e) := by
  have hlog := (Nat.log2_lt hm.ne').2 h
  have hshift : (Format.binary64.targetExponent (totalExponent m e) - e).toNat = 0 := by
    rw [targetExponent_eq, totalExponent]
    omega
  rw [shiftToTargetExponent, shiftToExponent, hshift]
  simp
  rfl

theorem shiftToTargetExponent_full (he : -1074 ≤ e) :
    shiftToTargetExponent .binary64 (2 ^ 53) e .exact =
      (.ofMantissaAndAccuracy (2 ^ 52) .exact, e + 1) := by
  have hlog : Nat.log2 (2 ^ 53) = 53 := rfl
  have hshift : (Format.binary64.targetExponent (totalExponent (2 ^ 53) e) - e).toNat = 1 := by
    rw [targetExponent_eq, totalExponent, hlog]
    omega
  rw [shiftToTargetExponent, shiftToExponent, hshift]
  rfl

/-- The carry of an exact mantissa. -/
theorem exists_encodes (hpos : 0 < n) (hle : n ≤ 2 ^ 53) (he : -1074 ≤ e)
    (hnormal : 2 ^ 52 ≤ n ∨ e = -1074) : ∃ m e', Encodes ((e + 1074) * 2 ^ 52 + n).toNat m e' ∧
      shiftToTargetExponent .binary64 n e .exact = (.ofMantissaAndAccuracy m .exact, e') := by
  by_cases hfull : n = 2 ^ 53
  · subst hfull
    exact ⟨2 ^ 52, e + 1, ⟨by omega, by omega, by omega, by omega, by omega⟩,
      shiftToTargetExponent_full he⟩
  · have hlt : n < 2 ^ 53 := by omega
    exact ⟨n, e, ⟨hpos, hlt, he, hnormal, by omega⟩, shiftToTargetExponent_of_lt hpos hlt he .exact⟩

theorem Encodes.shift {p : Nat} (h : Encodes p m e) (acc : Accuracy) :
    shiftToTargetExponent .binary64 m e acc = (.ofMantissaAndAccuracy m acc, e) :=
  shiftToTargetExponent_of_lt h.pos h.lt h.ge acc

theorem toNat_pack_of_shifts {p q : Nat} {e₁ e' : Int} {acc : Accuracy}
    {em : ExtendedMantissa} (hfirst : shiftToTargetExponent .binary64 q e acc = (em, e₁))
    (hsecond : shiftToTargetExponent .binary64 em.roundedMantissa e₁ .exact =
      (.ofMantissaAndAccuracy m .exact, e')) (h : Encodes p m e') :
    (pack .binary64 (roundWithAccuracy .binary64 .positive q e acc)).toNat =
      min (2047 * 2 ^ 52) p := by
  have hround : roundWithAccuracy .binary64 .positive q e acc = .finite .positive m e' h.pos := by
    simp only [roundWithAccuracy, hfirst, hsecond]
    exact dif_neg h.pos.ne'
  rw [hround, h.toNat_pack]

/-- The pattern of a rounded mantissa. A full mantissa that needs no rounding may come with it. -/
theorem toNat_pack_roundWithAccuracy {q : Nat} {acc : Accuracy} (hpos : 0 < q)
    (hq : q < 2 ^ 53 ∨ q = 2 ^ 53 ∧ acc = .exact) (he : -1074 ≤ e)
    (hnormal : 2 ^ 52 ≤ q ∨ e = -1074) :
    (pack .binary64 (roundWithAccuracy .binary64 .positive q e acc)).toNat =
      min (2047 * 2 ^ 52) ((e + 1074) * 2 ^ 52 + acc.roundToNearestEven q).toNat := by
  -- a mantissa of 54 places is shifted before it is rounded, any other after that
  rcases hq with hlt | ⟨rfl, rfl⟩
  · have hrounded := le_roundToNearestEven q acc
    obtain ⟨m, e', hencodes, hshift⟩ := exists_encodes (n := acc.roundToNearestEven q)
      (by omega) (by omega) he (by omega)
    rw [← roundedMantissa_ofMantissaAndAccuracy] at hshift
    exact toNat_pack_of_shifts (shiftToTargetExponent_of_lt hpos hlt he acc) hshift hencodes
  · obtain ⟨m, e', hencodes, hshift⟩ := exists_encodes hpos (Nat.le_refl _) he hnormal
    refine toNat_pack_of_shifts hshift ?_ hencodes
    rw [roundedMantissa_ofMantissaAndAccuracy]
    exact hencodes.shift .exact

/-! ## The reciprocal -/

theorem divCore_one (he : e ≤ 971) :
    divCore .binary64 (2 ^ 52) (-52) m e =
      let q := max (-m.log2 - e - 53) (-1074)
      let n := 2 ^ (52 + (-52 - e - q).toNat)
      (n / m, q, accuracyOfFraction (n % m) m) := by
  have hlog : Nat.log2 (2 ^ 52) = 52 := rfl
  have htarget : min (-52 - e) (Format.binary64.targetExponent
      (totalExponent (2 ^ 52) (-52) - totalExponent m e)) = max (-m.log2 - e - 53) (-1074) := by
    rw [targetExponent_eq, totalExponent, totalExponent, hlog]
    omega
  simp only [divCore, htarget, Nat.shiftLeft_eq, ← Nat.pow_add]

theorem unpack_one : (1.0 : Float).toModel.unpack =
    .finite .positive (2 ^ 52) (-52) (Nat.two_pow_pos 52) := by
  rfl

theorem unpack_ofBits (h : p.toNat < 2047 * 2 ^ 52) :
    (Float.ofBits p).toModel.unpack = unpack .binary64 p.toBitVec := by
  have hvalid : Format.binary64.Valid p.toBitVec := by
    refine ⟨fun hinfinite => absurd hinfinite (exponent_ne_infinite ?_)⟩
    rwa [UInt64.toNat_toBitVec]
  exact congrArg (unpack .binary64) (pack_unpack_of_valid hvalid)

theorem toNat_toBits_reciprocal (h : p.toNat < 2047 * 2 ^ 52)
    (hm : 0 < m) (hp : unpack .binary64 p.toBitVec = .finite .positive m e hm) (he : e ≤ 971) :
    (1.0 / Float.ofBits p).toBits.toNat =
      let q := max (-m.log2 - e - 53) (-1074)
      let n := 2 ^ (52 + (-52 - e - q).toNat)
      (pack .binary64 (roundWithAccuracy .binary64 .positive (n / m) q
        (accuracyOfFraction (n % m) m))).toNat := by
  have hbits : (1.0 / Float.ofBits p).toBits.toNat = (pack .binary64 (UnpackedFloat.div .binary64
      (1.0 : Float).toModel.unpack (Float.ofBits p).toModel.unpack)).toNat := rfl
  rw [hbits, unpack_one, unpack_ofBits h, hp]
  simp only [UnpackedFloat.div, divCore_one he]
  rfl

/-- The quotient of a power of two that is 53 places above a mantissa. -/
theorem quotient_bounds (hpos : 0 < m) (hlt : m < 2 ^ 53) :
    2 ^ 52 ≤ 2 ^ (53 + m.log2) / m ∧
      (m = 2 ^ m.log2 ∧ 2 ^ (53 + m.log2) / m = 2 ^ 53 ∧ 2 ^ (53 + m.log2) % m = 0 ∨
        m ≠ 2 ^ m.log2 ∧ 2 ^ (53 + m.log2) / m + 1 < 2 ^ 53) := by
  have hbelow := Nat.log2_self_le hpos.ne'
  have habove : m < 2 ^ m.log2 * 2 := Nat.pow_succ 2 m.log2 ▸ Nat.lt_log2_self
  have hlog := (Nat.log2_lt hpos.ne').2 hlt
  have hsmall : 2 ^ m.log2 ≤ 2 ^ 52 := Nat.pow_le_pow_right (by omega) (by omega)
  rw [Nat.pow_add]
  generalize 2 ^ m.log2 = u at *
  constructor
  · rw [Nat.le_div_iff_mul_le hpos]
    omega
  · by_cases hpower : m = u
    · subst hpower
      exact .inl ⟨rfl, Nat.mul_div_cancel _ hpos, Nat.mul_mod_left _ _⟩
    · refine .inr ⟨hpower, ?_⟩
      have hdiv : 2 ^ 53 * u / m < 2 ^ 53 - 1 := by
        rw [Nat.div_lt_iff_lt_mul hpos]
        omega
      omega

/-- The reciprocal of a number that is not too large has a whole mantissa. -/
theorem toNat_reciprocal_of_small
    (hfinite : p.toNat < 2047 * 2 ^ 52) (h : Encodes p.toNat m e)
    (hp : unpack .binary64 p.toBitVec = .finite .positive m e h.pos)
    (hsmall : m.log2 + e ≤ 1021) :
    ∃ r : Nat, 2 ^ 52 ≤ r ∧ (m = 2 ^ m.log2 ∧ r = 2 ^ 53 ∨ m ≠ 2 ^ m.log2 ∧ r < 2 ^ 53) ∧
      (1.0 / Float.ofBits p).toBits.toNat =
        min (2047 * 2 ^ 52) ((1021 - m.log2 - e) * 2 ^ 52 + r).toNat := by
  obtain ⟨hm, hlt, hge, hnormal, heq⟩ := id h
  have hexponent : max (-(m.log2 : Int) - e - 53) (-1074) = -m.log2 - e - 53 := by omega
  have hshift : 52 + (-52 - e - (-(m.log2 : Int) - e - 53)).toNat = 53 + m.log2 := by omega
  obtain ⟨hlow, hquotient⟩ := quotient_bounds hm hlt
  obtain ⟨q, hq⟩ : ∃ q, q = 2 ^ (53 + m.log2) / m := ⟨_, rfl⟩
  obtain ⟨acc, hacc⟩ : ∃ acc, acc = accuracyOfFraction (2 ^ (53 + m.log2) % m) m := ⟨_, rfl⟩
  have hrounded := le_roundToNearestEven q acc
  have hbits : (1.0 / Float.ofBits p).toBits.toNat =
      (pack .binary64 (roundWithAccuracy .binary64 .positive q (-m.log2 - e - 53) acc)).toNat := by
    rw [toNat_toBits_reciprocal hfinite hm hp (by omega)]
    simp only [hexponent, hshift, hq, hacc]
  rw [← hq] at hlow hquotient
  have hform : q < 2 ^ 53 ∨ q = 2 ^ 53 ∧ acc = .exact := by
    rcases hquotient with ⟨-, hq, hmod⟩ | ⟨-, hq⟩
    · exact .inr ⟨hq, by rw [hacc, hmod]; rfl⟩
    · exact .inl (by omega)
  refine ⟨acc.roundToNearestEven q, by omega, ?_, ?_⟩
  · rcases hquotient with ⟨hpower, hq, hmod⟩ | ⟨hpower, hq⟩
    · refine .inl ⟨hpower, ?_⟩
      rw [hacc, hmod, hq]
      rfl
    · exact .inr ⟨hpower, by omega⟩
  · rw [hbits, toNat_pack_roundWithAccuracy (by omega) hform (by omega) (.inl hlow)]
    congr 3
    omega

/-- The reciprocal of a large number is small. -/
theorem toNat_reciprocal_of_large
    (hfinite : p.toNat < 2047 * 2 ^ 52) (h : Encodes p.toNat m e)
    (hp : unpack .binary64 p.toBitVec = .finite .positive m e h.pos)
    (hlarge : 1021 < m.log2 + e) : (1.0 / Float.ofBits p).toBits.toNat < 2 ^ 53 := by
  obtain ⟨hm, hlt, hge, hnormal, heq⟩ := id h
  have hlog := (Nat.log2_lt hm.ne').2 hlt
  have hexponent : max (-(m.log2 : Int) - e - 53) (-1074) = -1074 := by omega
  obtain ⟨n, hn⟩ : ∃ n, n = 2 ^ (52 + (-52 - e - -1074).toNat) := ⟨_, rfl⟩
  have hbounds : 2 ^ 103 ≤ n ∧ n ≤ 2 ^ 104 := by
    rw [hn]
    exact ⟨Nat.pow_le_pow_right (by omega) (by omega), Nat.pow_le_pow_right (by omega) (by omega)⟩
  have hquotient : 0 < n / m ∧ n / m ≤ 2 ^ 52 := by
    rw [Nat.div_pos_iff, Nat.div_le_iff_le_mul_add_pred hm]
    omega
  have hrounded := le_roundToNearestEven (n / m) (accuracyOfFraction (n % m) m)
  rw [toNat_toBits_reciprocal hfinite hm hp (by omega)]
  simp only [hexponent, ← hn]
  rw [toNat_pack_roundWithAccuracy hquotient.1 (.inl (by omega)) (by omega) (.inr rfl)]
  omega

/-- A reciprocal reaches a power of two if the number does not exceed the opposite power. -/
theorem le_reciprocal_iff (hpos : 0 < p.toNat) (hfinite : p.toNat < 2047 * 2 ^ 52)
    {k : Nat} (hk : k ≤ 1022) : (1023 + k) * 2 ^ 52 ≤ (1.0 / Float.ofBits p).toBits.toNat ↔
      p.toNat ≤ (1023 - k) * 2 ^ 52 := by
  obtain ⟨m, e, h, hp⟩ := unpack_of_pos hpos hfinite
  obtain ⟨hm, hlt, hge, hnormal, heq⟩ := id h
  rw [UInt64.toNat_toBitVec] at heq h
  have hfull := h.log2_eq
  have hlog := (Nat.log2_lt hm.ne').2 hlt
  by_cases hsmall : m.log2 + e ≤ 1021
  · obtain ⟨r, hr, hpower, hbits⟩ := toNat_reciprocal_of_small hfinite h hp hsmall
    rw [hbits]
    by_cases hsubnormal : m < 2 ^ 52
    · omega
    · have hwhole : m.log2 = 52 := by omega
      rw [hwhole] at hpower ⊢
      omega
  · have hbits := toNat_reciprocal_of_large hfinite h hp (by omega)
    omega

end ArmStream.Number
