import ScyllaDriver.Library.FloatFormat
import ScyllaDriver.Library.Loop
import ScyllaDriver.Numbers.DecimalArithmetic
import ScyllaDriver.Numbers.NumberParser

/-!
# A Decimal from a double

`from_double` takes the bits of a double apart, moves the trailing zeros of the
significand into the exponent, and stores what is left: a power of two as it is, a
negative power of two as a power of five over a power of ten.
-/

namespace ScyllaDriver
namespace Numbers

open CString Positional FloatFormat

/-- The local variables of `from_double`. -/
structure DoubleParts where
  mantissa : BitVec 64
  exponent : Int
deriving DecidableEq

/-- `DOUBLE_MANTISSA_MASK`. -/
def doubleMantissaMask : BitVec 64 :=
  0xfffffffffffff#64

/-- `DOUBLE_EXPONENT_MASK`. -/
def doubleExponentMask : BitVec 64 :=
  0x7ff#64

/-- `from_double` up to its loop. -/
def splitDouble (raw : BitVec 64) : DoubleParts :=
  let mantissa := raw &&& doubleMantissaMask
  let exponent := (raw.sshiftRight 52 &&& doubleExponentMask).toInt
  if exponent = 0 then
    -- a denormal number has no implied one
    ⟨mantissa, -1022 - 52⟩
  else
    ⟨mantissa ||| 0x10000000000000#64, exponent - 1023 - 52⟩

/-- The loop that removes trailing zeros. -/
def stripZero (p : DoubleParts) : Loop.Round DoubleParts DoubleParts :=
  if p.exponent < 0 ∧ p.mantissa &&& 1#64 = 0#64 then
    .next ⟨p.mantissa.sshiftRight 1, p.exponent + 1⟩
  else
    .stop p

/-- `from_double` after its loop. The mantissa goes through a text, there is no setter
for it. -/
def storeDouble (raw : BitVec 64) (p : DoubleParts) : Option Decimal :=
  (mpzSetStr (formatInteger p.mantissa.toInt) 10).map fun mantissa =>
    let value := if raw.toInt < 0 then -mantissa else mantissa
    if p.exponent < 0 then
      ⟨value * 5 ^ (-p.exponent).toNat, Int64.ofInt (-p.exponent)⟩
    else
      ⟨value * 2 ^ p.exponent.toNat, 0⟩

/-- `from_double`, with a bound on the rounds of its loop. -/
def fromDouble (rounds : Nat) (raw : BitVec 64) : Option Decimal :=
  (Loop.run stripZero rounds (splitDouble raw)).bind (storeDouble raw)

variable (raw : BitVec 64)

theorem toNat_mantissa :
    (raw &&& doubleMantissaMask).toNat = raw.toNat % 2 ^ 52 := by
  rw [BitVec.toNat_and, ← Nat.and_two_pow_sub_one_eq_mod]
  rfl

theorem toNat_exponent :
    (raw.sshiftRight 52 &&& doubleExponentMask).toNat = raw.toNat / 2 ^ 52 % 2 ^ 11 := by
  have hlt := raw.isLt
  have hshift : (raw.sshiftRight 52).toNat % 2 ^ 11 = raw.toNat / 2 ^ 52 % 2 ^ 11 := by
    rw [BitVec.toNat_sshiftRight]
    split_ifs
    · rw [Nat.shiftRight_eq_div_pow]
      omega
    · rw [Nat.shiftRight_eq_div_pow]
  rw [BitVec.toNat_and, ← hshift, ← Nat.and_two_pow_sub_one_eq_mod]
  rfl

theorem toInt_of_lt {v : BitVec 64} (h : v.toNat < 2 ^ 63) : v.toInt = v.toNat := by
  rw [BitVec.toInt_eq_toNat_cond, if_pos (by omega)]

theorem toNat_implied_one {mantissa : BitVec 64} (h : mantissa.toNat < 2 ^ 52) :
    (mantissa ||| 0x10000000000000#64).toNat = 2 ^ 52 + mantissa.toNat := by
  have hor := Nat.two_pow_add_eq_or_of_lt h 1
  rw [BitVec.toNat_or, Nat.or_comm]
  simpa using hor.symm

theorem isNegative_iff : binary64.isNegative raw.toNat ↔ raw.toInt < 0 := by
  have hlt := raw.isLt
  rw [Format.isNegative, BitVec.toInt_eq_toNat_cond]
  change 2 ^ 63 ≤ raw.toNat ↔ _
  split_ifs <;> omega

theorem magnitude_eq : binary64.magnitude raw.toNat = raw.toNat % 2 ^ 63 := by
  have hlt := raw.isLt
  unfold Format.magnitude Format.isNegative
  change (if 2 ^ 63 ≤ raw.toNat then raw.toNat - 2 ^ 63 else raw.toNat) = _
  split_ifs <;> omega

/-- The parts stand for this magnitude. -/
def DoubleParts.denote (p : DoubleParts) : ℚ :=
  p.mantissa.toNat * 2 ^ p.exponent

/-- What the loop keeps. -/
structure DoubleParts.Bounded (p : DoubleParts) : Prop where
  mantissa_lt : p.mantissa.toNat < 2 ^ 53
  exponent_ge : -1074 ≤ p.exponent

theorem splitDouble_bounded : (splitDouble raw).Bounded := by
  have hmantissa := toNat_mantissa raw
  have hexponent := toNat_exponent raw
  have hmod : raw.toNat % 2 ^ 52 < 2 ^ 52 := Nat.mod_lt _ (by decide)
  have hmod' : raw.toNat / 2 ^ 52 % 2 ^ 11 < 2 ^ 11 := Nat.mod_lt _ (by decide)
  unfold splitDouble
  dsimp only
  rw [toInt_of_lt (by omega), hexponent]
  split_ifs with hzero
  · exact ⟨by dsimp only; omega, by dsimp only; omega⟩
  · refine ⟨?_, by dsimp only; omega⟩
    dsimp only
    rw [toNat_implied_one (by omega)]
    omega

/-- The parts of a pattern denote its magnitude. -/
theorem splitDouble_denote :
    (splitDouble raw).denote = Format.magnitudeOf 52 1023 (binary64.magnitude raw.toNat) := by
  have hmantissa := toNat_mantissa raw
  have hexponent := toNat_exponent raw
  have hmod : raw.toNat % 2 ^ 52 < 2 ^ 52 := Nat.mod_lt _ (by decide)
  have hfraction : raw.toNat % 2 ^ 63 % 2 ^ 52 = raw.toNat % 2 ^ 52 := by omega
  have hfield : raw.toNat % 2 ^ 63 / 2 ^ 52 = raw.toNat / 2 ^ 52 % 2 ^ 11 := by omega
  have hpow : ∀ e : Int, (2 : ℚ) ^ (e - 52) = 2 ^ e / 2 ^ 52 := by
    intro e
    rw [zpow_sub₀ (by norm_num)]
    rfl
  rw [magnitude_eq, Format.magnitudeOf, hfraction, hfield]
  unfold splitDouble
  dsimp only
  rw [toInt_of_lt (by omega), hexponent]
  by_cases hzero : raw.toNat / 2 ^ 52 % 2 ^ 11 = 0
  · rw [if_pos (by exact_mod_cast hzero), if_pos hzero, DoubleParts.denote, hmantissa, hpow,
      mul_div_assoc', div_mul_eq_mul_div]
    rfl
  · rw [if_neg (by exact_mod_cast hzero), if_neg hzero, DoubleParts.denote,
      toNat_implied_one (by omega), hmantissa, hpow]
    push_cast
    ring

theorem stripZero_next {p p' : DoubleParts} (hbounded : p.Bounded) (h : stripZero p = .next p') :
    (p'.Bounded ∧ p'.denote = p.denote) ∧ (-p'.exponent).toNat < (-p.exponent).toNat := by
  obtain ⟨hmantissa, hexponent⟩ := hbounded
  unfold stripZero at h
  split_ifs at h with hzero
  obtain ⟨hneg, heven⟩ := hzero
  cases h
  have hshift : (p.mantissa.sshiftRight 1).toNat = p.mantissa.toNat / 2 := by
    rw [BitVec.toNat_sshiftRight, if_neg, Nat.shiftRight_eq_div_pow, pow_one]
    rw [BitVec.msb_eq_decide, decide_eq_true_iff]
    omega
  have hbit : p.mantissa.toNat % 2 = 0 := by
    have h := congrArg BitVec.toNat heven
    rw [BitVec.toNat_and] at h
    exact (Nat.and_one_is_mod _).symm.trans h
  have hhalf : (p.mantissa.toNat : ℚ) = 2 * (p.mantissa.toNat / 2 : Nat) := by
    exact_mod_cast (Nat.mul_div_cancel' (Nat.dvd_of_mod_eq_zero hbit)).symm
  refine ⟨⟨⟨?_, ?_⟩, ?_⟩, ?_⟩
  · rw [hshift]
    omega
  · dsimp only
    omega
  · rw [DoubleParts.denote, DoubleParts.denote, hshift, hhalf, zpow_add_one₀ (by norm_num)]
    ring
  · dsimp only
    omega

/-- The loop stops, after at most as many rounds as the exponent has steps to zero, and
the magnitude has not changed. -/
theorem exists_stripped {p : DoubleParts} {rounds : Nat} (hbounded : p.Bounded)
    (hrounds : 1075 ≤ rounds) :
    ∃ q, Loop.run stripZero rounds p = some q ∧ Loop.Ends stripZero p q ∧ q.Bounded ∧
      q.denote = p.denote := by
  have hmeasure : (-p.exponent).toNat < rounds := by
    have hexponent := hbounded.exponent_ge
    omega
  obtain ⟨q, hq⟩ := Loop.exists_run (fun p : DoubleParts => (-p.exponent).toNat)
    (fun p p' hp h => ⟨(stripZero_next hp h).1.1, (stripZero_next hp h).2⟩) hbounded hmeasure
  have hends := Loop.ends_of_run hq
  have hnext : ∀ r r', r.Bounded ∧ r.denote = p.denote → stripZero r = .next r' →
      r'.Bounded ∧ r'.denote = p.denote := by
    intro r r' hr h
    obtain ⟨⟨hr', hsame⟩, -⟩ := stripZero_next hr.1 h
    exact ⟨hr', hsame.trans hr.2⟩
  have hstop : ∀ r r', r.Bounded ∧ r.denote = p.denote → stripZero r = .stop r' →
      r'.Bounded ∧ r'.denote = p.denote := by
    intro r r' hr h
    unfold stripZero at h
    split_ifs at h
    cases h
    exact hr
  exact ⟨q, hq, hends, hends.invariant hnext hstop ⟨hbounded, rfl⟩⟩

theorem mpzSetStr_formatInteger (n : Nat) : mpzSetStr (formatInteger n) 10 = some (n : Int) := by
  have h := mpzSetStr_digits false (decimalText_ne_nil n) fun _ hc => isdigit_of_mem_decimalText hc
  rw [formatInteger, mpzGetStr, if_neg (by omega)]
  simpa using h

theorem pow_five_mul (k : Nat) : (5 : ℚ) ^ k * 10 ^ (-(k : Int)) = 2 ^ (-(k : Int)) := by
  rw [show (10 : ℚ) = 5 * 2 by norm_num, mul_zpow, ← mul_assoc, zpow_neg, zpow_natCast,
    mul_inv_cancel₀ (by positivity), one_mul]

theorem storeDouble_denote {p : DoubleParts} (h : p.Bounded) :
    ∃ d, storeDouble raw p = some d ∧ d.denote = if raw.toInt < 0 then -p.denote else p.denote := by
  obtain ⟨hmantissa, hexponent⟩ := h
  have hsign : ((if raw.toInt < 0 then -(p.mantissa.toNat : Int) else p.mantissa.toNat : Int) : ℚ) *
      2 ^ p.exponent = if raw.toInt < 0 then -p.denote else p.denote := by
    unfold DoubleParts.denote
    split_ifs <;> push_cast <;> ring
  have hword : p.mantissa.toInt = p.mantissa.toNat := toInt_of_lt (by omega)
  rw [storeDouble, hword, mpzSetStr_formatInteger, Option.map_some]
  refine ⟨_, rfl, ?_⟩
  rw [← hsign]
  dsimp only
  generalize (if raw.toInt < 0 then -(p.mantissa.toNat : Int) else p.mantissa.toNat : Int) = value
  split_ifs with hneg
  · obtain ⟨k, hk⟩ : ∃ k : Nat, p.exponent = -(k : Int) := ⟨(-p.exponent).toNat, by omega⟩
    have hscale : (Int64.ofInt (k : Int)).toInt = k := Int64.toInt_ofInt_of_le (by omega) (by omega)
    rw [Decimal.denote, hk, neg_neg, Int.toNat_natCast, hscale, ← pow_five_mul]
    push_cast
    ring
  · obtain ⟨k, hk⟩ : ∃ k : Nat, p.exponent = k := ⟨p.exponent.toNat, by omega⟩
    rw [Decimal.denote, hk, Int.toNat_natCast]
    simp

/--
A Decimal built from a finite double is exactly the number of the double.

The loop stops, and with enough rounds for it `from_double` stores a Decimal whose
unscaled value divided by ten to its scale is the number that the bits denote. The
callers have turned away the patterns that are not finite.
-/
theorem fromDouble_exact
    (raw : BitVec 64) :
    ∃ p d, Loop.Ends stripZero (splitDouble raw) p ∧
      (∀ rounds ≥ 1075, fromDouble rounds raw = some d) ∧
      (d.value : ℚ) / 10 ^ d.scale.toInt = double raw.toNat := by
  have hbounded := splitDouble_bounded raw
  obtain ⟨p, -, hends, hp, hsame⟩ := exists_stripped hbounded (le_refl 1075)
  obtain ⟨d, hd, hdenote⟩ := storeDouble_denote raw hp
  refine ⟨p, d, hends, ?_, ?_⟩
  · intro rounds hrounds
    obtain ⟨q, hq, hq', -⟩ := exists_stripped hbounded hrounds
    rw [fromDouble, hq, hq'.unique hends, Option.bind_some, hd]
  · have hnumber : (d.value : ℚ) / 10 ^ d.scale.toInt = d.denote := by
      rw [Decimal.denote, zpow_neg, div_eq_mul_inv]
    rw [hnumber, hdenote, hsame, splitDouble_denote, double, Format.number]
    simp only [isNegative_iff]

end Numbers
end ScyllaDriver
