import Mathlib.Data.Int.Bitwise
import Mathlib.Tactic

/-!
# Signed words of a fixed width

A word is a `BitVec`, read in two's complement by `toInt`. Storing an integer in a
word keeps its low bits. An operation on words is exact if its integer result fits;
the lemmas on checks say that this can be seen from the stored word by undoing the
operation.
-/

namespace ScyllaDriver
namespace FixedWidth

/-- The integer has a word of `w` bits. -/
def Fits (w : Nat) (x : Int) : Prop :=
  -2 ^ (w - 1) ≤ x ∧ x < 2 ^ (w - 1)

instance (w : Nat) (x : Int) : Decidable (Fits w x) :=
  inferInstanceAs (Decidable (_ ∧ _))

def least (w : Nat) : Int :=
  -2 ^ (w - 1)

variable {w : Nat}

theorem fits_toInt (v : BitVec w) : Fits w v.toInt :=
  ⟨v.le_toInt, BitVec.toInt_lt⟩

theorem two_pow_eq (hw : 0 < w) : (2 : Int) ^ w = 2 * 2 ^ (w - 1) := by
  obtain ⟨k, rfl⟩ := Nat.exists_eq_add_of_lt hw
  rw [Nat.zero_add, Nat.add_sub_cancel, pow_succ, mul_comm]

theorem toInt_ofInt_of_fits {x : Int} (hw : 0 < w) (h : Fits w x) :
    (BitVec.ofInt w x).toInt = x := by
  obtain ⟨hlow, hhigh⟩ := h
  have hpow := two_pow_eq hw
  rw [BitVec.toInt_ofInt]
  refine Int.bmod_eq_of_le ?_ ?_ <;> push_cast <;> omega

theorem toInt_ofInt_eq_iff {x : Int} (hw : 0 < w) : (BitVec.ofInt w x).toInt = x ↔ Fits w x :=
  ⟨fun h => h ▸ fits_toInt _, toInt_ofInt_of_fits hw⟩

theorem exists_toInt_ofInt (w : Nat) (x : Int) : ∃ k, (BitVec.ofInt w x).toInt = x + 2 ^ w * k := by
  have h := Int.bmod_add_bdiv x (2 ^ w)
  refine ⟨-x.bdiv (2 ^ w), ?_⟩
  rw [BitVec.toInt_ofInt]
  push_cast at h
  linarith

theorem eq_zero_of_natAbs_lt {k y b : Int} (hw : 0 < w) (hb : Fits w b) (hy : y.natAbs < b.natAbs)
    (hk : y = 2 ^ w * k) : k = 0 := by
  obtain ⟨hlow, hhigh⟩ := hb
  have hpow := two_pow_eq hw
  have hpos : (0 : Int) < 2 ^ (w - 1) := by positivity
  by_contra hne
  have hone : 1 ≤ k.natAbs := Int.natAbs_pos.mpr hne
  have habs : y.natAbs = ((2 : Int) ^ w).natAbs * k.natAbs := by rw [hk, Int.natAbs_mul]
  have hle : ((2 : Int) ^ w).natAbs ≤ y.natAbs := by
    rw [habs]
    exact Nat.le_mul_of_pos_right _ hone
  omega

theorem tdiv_ofInt_mul_eq_iff {a b : Int} (hw : 0 < w) (hb : Fits w b) (hne : b ≠ 0) :
    (BitVec.ofInt w (a * b)).toInt.tdiv b = a ↔ Fits w (a * b) := by
  constructor
  · intro h
    obtain ⟨k, hk⟩ := exists_toInt_ofInt w (a * b)
    have hdivision := Int.mul_tdiv_add_tmod (BitVec.ofInt w (a * b)).toInt b
    rw [h] at hdivision
    -- the remainder is what storing added to the product
    have hrest : (BitVec.ofInt w (a * b)).toInt.tmod b = 2 ^ w * k := by linarith
    have hsmall : ((BitVec.ofInt w (a * b)).toInt.tmod b).natAbs < b.natAbs := by
      rw [Int.natAbs_tmod]
      exact Nat.mod_lt _ (Int.natAbs_pos.mpr hne)
    have hzero := eq_zero_of_natAbs_lt hw hb hsmall hrest
    rw [hzero, mul_zero, add_zero] at hk
    exact (toInt_ofInt_eq_iff hw).mp hk
  · intro h
    rw [toInt_ofInt_of_fits hw h]
    exact Int.mul_tdiv_cancel a hne

theorem fits_tdiv_iff {a b : Int} (ha : Fits w a) (hne : b ≠ 0) :
    Fits w (a.tdiv b) ↔ ¬ (a = least w ∧ b = -1) := by
  obtain ⟨hlow, hhigh⟩ := ha
  have hpos : (0 : Int) < 2 ^ (w - 1) := by positivity
  by_cases hminus : b = -1
  · subst hminus
    rw [Int.tdiv_neg, Int.tdiv_one, Fits, least]
    omega
  · by_cases hone : b = 1
    · subst hone
      rw [Int.tdiv_one, Fits]
      omega
    · -- the quotient is at most half as large
      have hhalf : (a.tdiv b).natAbs ≤ a.natAbs / 2 := by
        rw [Int.natAbs_tdiv]
        exact Nat.div_le_div_left (by omega) (by decide)
      rw [Fits]
      omega

theorem fits_tmod {a b : Int} (ha : Fits w a) : Fits w (a.tmod b) := by
  obtain ⟨hlow, hhigh⟩ := ha
  have hle : (a.tmod b).natAbs ≤ a.natAbs := by
    rw [Int.natAbs_tmod]
    exact Nat.mod_le _ _
  rcases Int.le_total 0 a with hsign | hsign
  · have hrest := Int.tmod_nonneg b hsign
    exact ⟨by omega, by omega⟩
  · have hrest : a.tmod b ≤ 0 := by
      have hneg := Int.tmod_nonneg b (Int.neg_nonneg_of_nonpos hsign)
      rw [Int.neg_tmod] at hneg
      omega
    exact ⟨by omega, by omega⟩

end FixedWidth
end ScyllaDriver
