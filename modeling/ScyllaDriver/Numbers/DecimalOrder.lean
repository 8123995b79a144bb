import ScyllaDriver.Numbers.DecimalArithmetic
import ScyllaDriver.Values.Atoms

/-!
# The order of Decimals

`php_scylladb_decimal_compare` decides on the scales if they differ, whatever the
numbers are. That is the numeric order only where the Decimal of the smaller scale is
not the larger number.
-/

namespace ScyllaDriver
namespace Numbers

open Values

/-- `php_scylladb_decimal_compare` on two Decimals. -/
def Decimal.compare (d₁ d₂ : Decimal) : Ordering :=
  decimalCompare d₁.value d₁.scale d₂.value d₂.scale

/-- The comparison says which number is smaller, and orders equal numbers by scale. -/
def ComparesNumerically (d₁ d₂ : Decimal) : Prop :=
  (d₁.denote < d₂.denote → d₁.compare d₂ = .lt) ∧
    (d₂.denote < d₁.denote → d₁.compare d₂ = .gt) ∧
    (d₁.denote = d₂.denote → d₁.compare d₂ = Ord.compare d₁.scale d₂.scale)

/-- Aligned to the larger scale, the Decimal of the smaller scale is not the larger
one. -/
def ScaleOrdered (d₁ d₂ : Decimal) : Prop :=
  (d₁.scale < d₂.scale → (d₁.scaledUp d₂.scale).value ≤ d₂.value) ∧
    (d₂.scale < d₁.scale → (d₂.scaledUp d₁.scale).value ≤ d₁.value)

section

variable {d₁ d₂ : Decimal}

theorem denote_le_iff (hscale : d₁.scale ≤ d₂.scale) :
    d₁.denote ≤ d₂.denote ↔ (d₁.scaledUp d₂.scale).value ≤ d₂.value := by
  have hpos : (0 : ℚ) < 10 ^ (-d₂.scale.toInt) := by positivity
  rw [← scaledUp_denote hscale, Decimal.denote, mul_le_mul_iff_left₀ hpos]
  exact_mod_cast Iff.rfl

theorem compare_of_scale_lt (h : d₁.scale < d₂.scale) :
    d₁.compare d₂ = .lt ∧ d₂.compare d₁ = .gt := by
  have hlt : Ord.compare d₁.scale d₂.scale = .lt := Std.compare_eq_lt.mpr h
  have hgt : Ord.compare d₂.scale d₁.scale = .gt := Std.compare_eq_gt.mpr h
  constructor
  · rw [Decimal.compare, decimalCompare, hlt]
    rfl
  · rw [Decimal.compare, decimalCompare, hgt]
    rfl

theorem compare_of_scale_eq (h : d₁.scale = d₂.scale) :
    d₁.compare d₂ = Ord.compare d₁.value d₂.value := by
  have hself : Ord.compare d₂.scale d₂.scale = .eq := Std.ReflCmp.compare_self
  rw [Decimal.compare, decimalCompare, h, hself]
  rfl

theorem comparesNumerically_of_scale_eq (h : d₁.scale = d₂.scale) : ComparesNumerically d₁ d₂ := by
  have hpos : (0 : ℚ) < 10 ^ (-d₂.scale.toInt) := by positivity
  have hlt : ∀ {v w : Int}, (v : ℚ) * 10 ^ (-d₂.scale.toInt) < w * 10 ^ (-d₂.scale.toInt) ↔
      v < w := by
    intro v w
    rw [mul_lt_mul_iff_left₀ hpos]
    exact_mod_cast Iff.rfl
  have heq : ∀ {v w : Int}, (v : ℚ) * 10 ^ (-d₂.scale.toInt) = w * 10 ^ (-d₂.scale.toInt) ↔
      v = w := by
    intro v w
    rw [mul_left_inj' hpos.ne']
    exact_mod_cast Iff.rfl
  have hself : Ord.compare d₂.scale d₂.scale = .eq := Std.ReflCmp.compare_self
  unfold ComparesNumerically
  rw [compare_of_scale_eq h, Decimal.denote, Decimal.denote, h, hlt, hlt, heq, hself]
  exact ⟨compare_lt_iff_lt.mpr, compare_gt_iff_gt.mpr, compare_eq_iff_eq.mpr⟩

end

/--
Where Decimals compare as numbers: where the scales are equal, or the Decimal of the
smaller scale is not the larger number.
-/
theorem comparesNumerically_iff
    (d₁ d₂ : Decimal) :
    ComparesNumerically d₁ d₂ ↔ ScaleOrdered d₁ d₂ := by
  by_cases hscale : d₁.scale = d₂.scale
  · refine iff_of_true (comparesNumerically_of_scale_eq hscale) ?_
    rw [ScaleOrdered, hscale]
    exact ⟨fun h => absurd h Int64.lt_irrefl, fun h => absurd h Int64.lt_irrefl⟩
  · rcases Int64.lt_or_lt_of_ne hscale with hlt | hgt
    · have hnot : ¬ d₂.scale < d₁.scale := fun h => Int64.lt_irrefl (Int64.lt_trans hlt h)
      have hcompare := (compare_of_scale_lt hlt).1
      have hle := denote_le_iff (Int64.le_of_lt hlt)
      rw [ScaleOrdered, imp_iff_right hlt, ← hle, and_iff_left fun h => absurd h hnot]
      unfold ComparesNumerically
      rw [hcompare, Std.compare_eq_lt.mpr hlt]
      simp
    · have hnot : ¬ d₁.scale < d₂.scale := fun h => Int64.lt_irrefl (Int64.lt_trans hgt h)
      have hcompare := (compare_of_scale_lt hgt).2
      have hle := denote_le_iff (Int64.le_of_lt hgt)
      rw [ScaleOrdered, imp_iff_right hgt, ← hle, and_iff_right fun h => absurd h hnot]
      unfold ComparesNumerically
      rw [hcompare, Std.compare_eq_gt.mpr hgt]
      simp

/-- 2 compares below 1.0. -/
theorem two_below_one :
    Decimal.compare ⟨2, 0⟩ ⟨10, 1⟩ = .lt ∧ (⟨10, 1⟩ : Decimal).denote < (⟨2, 0⟩ : Decimal).denote ∧
      ¬ ComparesNumerically ⟨2, 0⟩ ⟨10, 1⟩ := by
  have hless : (⟨10, 1⟩ : Decimal).denote < (⟨2, 0⟩ : Decimal).denote := by
    have hone : (1 : Int64).toInt = 1 := by decide
    have hzero : (0 : Int64).toInt = 0 := by decide
    simp only [Decimal.denote, hone, hzero]
    norm_num
  have hcompare : Decimal.compare ⟨2, 0⟩ ⟨10, 1⟩ = .lt := by decide
  refine ⟨hcompare, hless, fun h => ?_⟩
  have hgt := h.2.1 hless
  rw [hcompare] at hgt
  cases hgt

end Numbers
end ScyllaDriver
