import Mathlib.Algebra.Order.Field.Rat
import Mathlib.Data.Int.Order.Basic
import Mathlib.Tactic

/-!
# Floating-point numbers as bit patterns

A binary interchange format stores the sign in the top bit and below it a
magnitude whose bit patterns are ordered as the numbers are: zero first, then
the finite numbers, infinity, and above infinity the patterns that are not
numbers. This is enough to say what `<` means on the patterns, and how they
can be ordered without exception. The number of a finite pattern is read off
the fields of its magnitude.
-/

namespace ScyllaDriver
namespace FloatFormat

/-- A format: the weight of its sign bit and the pattern of infinity. -/
structure Format where
  signBit : Nat
  infinity : Nat
  infinity_lt : infinity < signBit

def binary64 : Format := ⟨2 ^ 63, 0x7ff0000000000000, by decide⟩

def binary32 : Format := ⟨2 ^ 31, 0x7f800000, by decide⟩

namespace Format

variable (f : Format)

/-- The pattern fits the format. -/
def Fits (bits : Nat) : Prop :=
  bits < 2 * f.signBit

def isNegative (bits : Nat) : Prop :=
  f.signBit ≤ bits

instance (bits : Nat) : Decidable (f.isNegative bits) :=
  inferInstanceAs (Decidable (f.signBit ≤ bits))

def magnitude (bits : Nat) : Nat :=
  if f.isNegative bits then bits - f.signBit else bits

def isNan (bits : Nat) : Prop :=
  f.infinity < f.magnitude bits

instance (bits : Nat) : Decidable (f.isNan bits) :=
  inferInstanceAs (Decidable (f.infinity < f.magnitude bits))

/-- Where the number stands among the numbers of the format; both zeros stand
at 0. -/
def position (bits : Nat) : Int :=
  if f.isNegative bits then -(f.magnitude bits : Int) else f.magnitude bits

/-- The comparison `<` of two numbers, false if one of them is not a number. -/
def less (bits₁ bits₂ : Nat) : Prop :=
  ¬ f.isNan bits₁ ∧ ¬ f.isNan bits₂ ∧ f.position bits₁ < f.position bits₂

instance (bits₁ bits₂ : Nat) : Decidable (f.less bits₁ bits₂) :=
  inferInstanceAs (Decidable (_ ∧ _ ∧ _))

def signed (bits : Nat) : Int :=
  if f.isNegative bits then (bits : Int) - 2 * f.signBit else bits

/-- Position in the order without exceptions: negative zero just below zero,
and above infinity one place for everything that is not a number. -/
def rank (bits : Nat) : Int :=
  if f.isNan bits then 2 * f.infinity + 2
  else if f.isNegative bits then 2 * f.position bits
  else 2 * f.position bits + 1

variable {f}

variable {bits₁ bits₂ : Nat}

theorem rank_lt_of_less (h : f.less bits₁ bits₂) :
    f.rank bits₁ < f.rank bits₂ := by
  obtain ⟨hnum₁, hnum₂, hlt⟩ := h
  unfold rank
  rw [if_neg hnum₁, if_neg hnum₂]
  split <;> split <;> omega

/-- Where `<` decides neither way, the ranks lie as the patterns do, with one
pattern above infinity for all that is not a number. -/
theorem compare_rank_of_not_less {nan : Nat} (hnan : f.infinity < nan) (hfits₁ : f.Fits bits₁)
    (hfits₂ : f.Fits bits₂) (h₁ : ¬ f.less bits₁ bits₂) (h₂ : ¬ f.less bits₂ bits₁) :
    compare (f.rank bits₁) (f.rank bits₂) =
      compare (if f.isNan bits₁ then (nan : Int) else f.signed bits₁)
        (if f.isNan bits₂ then (nan : Int) else f.signed bits₂) := by
  have hinf := f.infinity_lt
  unfold Fits at hfits₁ hfits₂
  unfold less at h₁ h₂
  by_cases hnum₁ : f.isNan bits₁ <;> by_cases hnum₂ : f.isNan bits₂
  · simp [rank, hnum₁, hnum₂]
  · -- only the first is not a number: both sides put it above the second
    simp only [rank, hnum₁, hnum₂, if_true, if_false]
    unfold isNan magnitude at hnum₂
    unfold position magnitude signed
    rw [(compare_gt_iff_gt (α := Int)).mpr, (compare_gt_iff_gt (α := Int)).mpr] <;>
      split_ifs at * <;> omega
  · simp only [rank, hnum₁, hnum₂, if_true, if_false]
    unfold isNan magnitude at hnum₁
    unfold position magnitude signed
    rw [(compare_lt_iff_lt (α := Int)).mpr, (compare_lt_iff_lt (α := Int)).mpr] <;>
      split_ifs at * <;> omega
  · -- two numbers in one place: the same pattern, or the two zeros
    have hpos : f.position bits₁ = f.position bits₂ := by
      have hle₁ : ¬ f.position bits₁ < f.position bits₂ := fun h => h₁ ⟨hnum₁, hnum₂, h⟩
      have hle₂ : ¬ f.position bits₂ < f.position bits₁ := fun h => h₂ ⟨hnum₂, hnum₁, h⟩
      omega
    simp only [rank, hnum₁, hnum₂, if_false, hpos]
    unfold position magnitude at hpos
    unfold signed
    by_cases hneg₁ : f.isNegative bits₁ <;> by_cases hneg₂ : f.isNegative bits₂ <;>
      simp only [hneg₁, hneg₂, if_true, if_false] at hpos ⊢ <;>
      unfold isNegative at hneg₁ hneg₂
    · have heq : bits₁ = bits₂ := by omega
      simp [heq]
    · rw [(compare_lt_iff_lt (α := Int)).mpr, (compare_lt_iff_lt (α := Int)).mpr] <;>
        omega
    · rw [(compare_gt_iff_gt (α := Int)).mpr, (compare_gt_iff_gt (α := Int)).mpr] <;>
        omega
    · have heq : bits₁ = bits₂ := by omega
      simp [heq]

theorem position_eq_iff :
    f.position bits₁ = f.position bits₂ ↔
      bits₁ = bits₂ ∨ (f.position bits₁ = 0 ∧ f.position bits₂ = 0) := by
  unfold position magnitude
  split_ifs with hneg₁ hneg₂ hneg₂ <;> unfold isNegative at * <;> omega

theorem rank_eq_iff (hnum₁ : ¬ f.isNan bits₁) (hnum₂ : ¬ f.isNan bits₂) :
    f.rank bits₁ = f.rank bits₂ ↔ bits₁ = bits₂ := by
  rw [rank, if_neg hnum₁, rank, if_neg hnum₂]
  unfold position magnitude
  split_ifs with hneg₁ hneg₂ hneg₂ <;> unfold isNegative at * <;> omega

theorem rank_lt_of_isNan (hnum₁ : ¬ f.isNan bits₁) (hnan₂ : f.isNan bits₂) :
    f.rank bits₁ < f.rank bits₂ := by
  rw [rank, if_neg hnum₁, rank, if_pos hnan₂]
  unfold isNan at hnum₁
  unfold position
  split_ifs <;> omega

theorem position_ne_zero_of_isNan {bits : Nat} (hnan : f.isNan bits) : f.position bits ≠ 0 := by
  unfold isNan at hnan
  unfold position
  split_ifs <;> omega

/-- The magnitude of a finite pattern: an exponent field with a bias above a fraction
field. The significand has a leading one that is not stored, unless the exponent
field is zero. -/
def magnitudeOf (fractionBits bias magnitude : Nat) : ℚ :=
  let fraction : ℚ := (magnitude % 2 ^ fractionBits : Nat) / 2 ^ fractionBits
  if magnitude / 2 ^ fractionBits = 0 then
    fraction * 2 ^ (1 - bias : Int)
  else
    (1 + fraction) * 2 ^ ((magnitude / 2 ^ fractionBits : Nat) - bias : Int)

def number (f : Format) (fractionBits bias bits : Nat) : ℚ :=
  if f.isNegative bits then -magnitudeOf fractionBits bias (f.magnitude bits)
  else magnitudeOf fractionBits bias (f.magnitude bits)

end Format

def double (bits : Nat) : ℚ :=
  binary64.number 52 1023 bits

end FloatFormat
end ScyllaDriver
