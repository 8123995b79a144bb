import ScyllaDriver.Library.Truncation
import ScyllaDriver.Numbers.DecimalArithmetic
import ScyllaDriver.Numbers.NumberParser

/-!
# A Decimal as an integer

`Decimal::toInt` computes in `mpf` numbers, whose results are truncated to a working
precision: the unscaled value, the power of ten, for a positive scale its reciprocal,
and the product. Then the range is checked and the fraction is cut off.

With a scale that is not positive, nothing is lost that matters. With a positive scale
the reciprocal is never exact, so a whole number comes out one too small; and near the
integers the result depends on how much the truncations take away.
-/

namespace ScyllaDriver
namespace Numbers

open CString

section Model

variable {p : ℕ} (T : Truncation p)

/-- `to_mpf`. The magnitude of the least scale is `2 ^ 63` as an `unsigned long`. -/
def toMpf (d : Decimal) : ℚ :=
  let result := T d.value
  let scaleFactor := T (T 10 ^ d.scale.toInt.natAbs)
  T (result * if 0 < d.scale then T (1 / scaleFactor) else scaleFactor)

/-- The fraction is cut off, as `mpf_get_si` does it. -/
def truncated (x : ℚ) : Int :=
  if 0 ≤ x then ⌊x⌋ else ⌈x⌉

/-- `to_long`. -/
def toLong (d : Decimal) : Except Thrown Int :=
  let value := toMpf T d
  if value < longMin then
    .error (.range "Value is too small")
  else if longMax < value then
    .error (.range "Value is too big")
  else
    .ok (truncated value)

/-- The number without its fraction is returned, or a range exception says that a
`long` does not hold it. -/
def LongRight (d : Decimal) : Prop :=
  if FitsLong (truncated d.denote) then toLong T d = .ok (truncated d.denote)
  else ∃ message, toLong T d = .error (.range message)

end Model

/-- The largest magnitude that a `long` of the sign holds. -/
def limit (d : Decimal) : ℕ :=
  if d.value < 0 then 2 ^ 63 else 2 ^ 63 - 1

def tens (d : Decimal) : ℕ :=
  10 ^ d.scale.toInt.natAbs

section Magnitude

variable {p : ℕ} (T : Truncation p)

/-- What becomes of the magnitude of the unscaled value. -/
def magnitude (d : Decimal) : ℚ :=
  T (T d.value.natAbs * if 0 < d.scale then T (1 / T (tens d)) else T (tens d))

theorem apply_nonneg {x : ℚ} (hp : 2 ≤ p) (hx : 0 ≤ x) : 0 ≤ T x := by
  rcases hx.eq_or_lt with rfl | hpos
  · exact T.zero.ge
  · exact ((mul_pos hpos (kept_pos hp)).trans (T.truncates x hpos).lt).le

theorem magnitude_nonneg (hp : 2 ≤ p) (d : Decimal) : 0 ≤ magnitude T d := by
  unfold magnitude
  have htens : 0 ≤ T (tens d) := apply_nonneg T hp (by positivity)
  refine apply_nonneg T hp (mul_nonneg (apply_nonneg T hp (by positivity)) ?_)
  split_ifs
  · exact apply_nonneg T hp (by positivity)
  · exact htens

theorem intCast_eq_natAbs (z : Int) : (z : ℚ) = if z < 0 then -(z.natAbs : ℚ) else z.natAbs := by
  rw [Nat.cast_natAbs]
  split_ifs with hneg
  · rw [abs_of_neg hneg]
    push_cast
    ring
  · rw [abs_of_nonneg (by omega)]

theorem toMpf_eq (hp : 64 ≤ p) (d : Decimal) :
    toMpf T d = if d.value < 0 then -magnitude T d else magnitude T d := by
  have hten : T 10 = 10 := by
    have hlt : 10 < 2 ^ p := lt_of_lt_of_le (by decide) (Nat.pow_le_pow_right (by decide) hp)
    exact_mod_cast T.apply_natCast hlt
  have hpower : T (T 10 ^ d.scale.toInt.natAbs) = T (tens d) := by
    rw [hten, tens]
    push_cast
    rfl
  unfold toMpf magnitude
  dsimp only
  rw [hpower, intCast_eq_natAbs]
  by_cases hneg : d.value < 0
  · rw [if_pos hneg, if_pos hneg, T.neg, neg_mul, T.neg]
  · rw [if_neg hneg, if_neg hneg]

def share (d : Decimal) : ℚ :=
  d.value.natAbs * 10 ^ (-d.scale.toInt)

theorem denote_eq (d : Decimal) : d.denote = if d.value < 0 then -share d else share d := by
  unfold Decimal.denote share
  rw [intCast_eq_natAbs]
  split_ifs
  · rw [neg_mul]
  · rfl

theorem truncated_neg {x : ℚ} (hx : 0 ≤ x) : truncated (-x) = -⌊x⌋ := by
  rcases hx.eq_or_lt with rfl | hpos
  · simp [truncated]
  · rw [truncated, if_neg (by linarith), Int.ceil_neg]

theorem truncated_of_nonneg {x : ℚ} (hx : 0 ≤ x) : truncated x = ⌊x⌋ :=
  if_pos hx

theorem checked_iff {fits beyond : Prop} [Decidable fits] [Decidable beyond] {message : String}
    {x n : Int} :
    (if fits then (if beyond then .error (.range message) else .ok x : Except Thrown Int) = .ok n
      else ∃ m, (if beyond then .error (.range message) else .ok x : Except Thrown Int) =
        .error (.range m)) ↔
      if fits then ¬ beyond ∧ x = n else beyond := by
  by_cases hbeyond : beyond
  · simp [hbeyond]
  · simp [hbeyond]

theorem longRight_iff (hp : 64 ≤ p) (d : Decimal) :
    LongRight T d ↔
      if ⌊share d⌋ ≤ limit d then magnitude T d ≤ limit d ∧ ⌊magnitude T d⌋ = ⌊share d⌋
      else (limit d : ℚ) < magnitude T d := by
  have hshare : 0 ≤ share d := by
    unfold share
    positivity
  have hfloor : 0 ≤ ⌊share d⌋ := Int.floor_nonneg.mpr hshare
  have hmag := magnitude_nonneg T (by omega) d
  unfold LongRight toLong
  dsimp only
  rw [toMpf_eq T hp, denote_eq]
  by_cases hneg : d.value < 0
  · have hlimit : limit d = 2 ^ 63 := if_pos hneg
    have hfits : FitsLong (-⌊share d⌋) ↔ ⌊share d⌋ ≤ limit d := by
      rw [hlimit, FitsLong, longMin, longMax]
      push_cast
      omega
    have hsmall : -magnitude T d < longMin ↔ (limit d : ℚ) < magnitude T d := by
      rw [hlimit, longMin]
      push_cast
      exact neg_lt_neg_iff
    have hbig : ¬ (longMax : ℚ) < -magnitude T d := by
      rw [longMax]
      push_cast
      linarith
    simp only [if_pos hneg, truncated_neg hshare, truncated_neg hmag, hfits, hsmall, if_neg hbig]
    rw [checked_iff, not_lt, neg_inj]
  · have hlimit : limit d = 2 ^ 63 - 1 := if_neg hneg
    have hfits : FitsLong ⌊share d⌋ ↔ ⌊share d⌋ ≤ limit d := by
      rw [hlimit, FitsLong, longMin, longMax]
      push_cast
      omega
    have hsmall : ¬ magnitude T d < longMin := by
      rw [longMin]
      push_cast
      linarith
    have hbig : longMax < magnitude T d ↔ (limit d : ℚ) < magnitude T d := by
      rw [hlimit, longMax]
      push_cast
      norm_num
    simp only [if_neg hneg, truncated_of_nonneg hshare, truncated_of_nonneg hmag, hfits,
      if_neg hsmall, hbig]
    rw [checked_iff, not_lt]

end Magnitude

/-- Results of the truncations for a positive scale: of the unscaled value, of the
power of ten, of its reciprocal, and of the product. -/
structure Chain (p v t : ℕ) (a w u r : ℚ) : Prop where
  value : Truncates p v a
  power : Truncates p t w
  reciprocal : Truncates p (1 / w) u
  product : Truncates p (a * u) r

namespace Chain

variable {p v t : ℕ} {a w u r : ℚ}

theorem of_truncation (T : Truncation p) (hp : 2 ≤ p) (hv : 0 < v) (ht : 0 < t) :
    Chain p v t (T v) (T t) (T (1 / T t)) (T (T v * T (1 / T t))) := by
  have hvalue := T.truncates v (by exact_mod_cast hv)
  have hpower := T.truncates t (by exact_mod_cast ht)
  have hw := hpower.pos hp (by exact_mod_cast ht)
  have hreciprocal := T.truncates (1 / T t) (by positivity)
  have hu := hreciprocal.pos hp (by positivity)
  have ha := hvalue.pos hp (by exact_mod_cast hv)
  exact ⟨hvalue, hpower, hreciprocal, T.truncates _ (mul_pos ha hu)⟩

section Bounds

variable (h : Chain p v t a w u r) (hp : 2 ≤ p) (hv : 0 < v) (ht : 0 < t)
include h hp hv ht

theorem positive : 0 < a ∧ 0 < w ∧ 0 < u ∧ 0 < r := by
  have ha := h.value.pos hp (by exact_mod_cast hv)
  have hw := h.power.pos hp (by exact_mod_cast ht)
  have hu := h.reciprocal.pos hp (by positivity)
  exact ⟨ha, hw, hu, h.product.pos hp (mul_pos ha hu)⟩

theorem mul_kept_sq_lt : a * kept p ^ 2 < r * t := by
  obtain ⟨ha, hw, hu, hr⟩ := h.positive hp hv ht
  have hkept := kept_pos hp
  have hu' : kept p < u * w := by
    have hlt := h.reciprocal.lt
    rwa [one_div_mul_eq_div, div_lt_iff₀ hw] at hlt
  calc
    a * kept p ^ 2 = a * kept p * kept p := by ring
    _ < a * kept p * (u * w) := mul_lt_mul_of_pos_left hu' (mul_pos ha hkept)
    _ = a * u * kept p * w := by ring
    _ ≤ r * w := mul_le_mul_of_nonneg_right h.product.lt.le hw.le
    _ ≤ r * t := mul_le_mul_of_nonneg_left h.power.le hr.le

theorem mul_kept_cube_lt : v * kept p ^ 3 < r * t := by
  have hkept := kept_pos hp
  calc
    v * kept p ^ 3 = v * kept p * kept p ^ 2 := by ring
    _ < a * kept p ^ 2 := mul_lt_mul_of_pos_right h.value.lt (by positivity)
    _ < r * t := h.mul_kept_sq_lt hp hv ht

theorem mul_le : r * w ≤ v := by
  obtain ⟨ha, hw, hu, hr⟩ := h.positive hp hv ht
  have hu' : u * w ≤ 1 := by
    have hle := h.reciprocal.le
    rwa [le_div_iff₀ hw] at hle
  calc
    r * w ≤ a * u * w := mul_le_mul_of_nonneg_right h.product.le hw.le
    _ = a * (u * w) := by ring
    _ ≤ a * 1 := mul_le_mul_of_nonneg_left hu' ha.le
    _ ≤ v := by linarith [h.value.le]

theorem mul_kept_lt : r * (t * kept p) < v := by
  obtain ⟨-, -, -, hr⟩ := h.positive hp hv ht
  exact (mul_lt_mul_of_pos_left h.power.lt hr).trans_le (h.mul_le hp hv ht)

theorem mul_lt (hexact : Representable p t) (hten : ¬ IsDyadic (1 / t)) : r * t < v := by
  obtain ⟨ha, hw, hu, hr⟩ := h.positive hp hv ht
  have hpower := h.power.exact hexact
  have hreciprocal : u * t < 1 := by
    have hle := h.reciprocal.le
    rw [hpower] at hle hw
    have hne : u ≠ 1 / t := fun heq => hten (heq ▸ h.reciprocal.dyadic)
    have hlt := lt_of_le_of_ne hle hne
    rwa [lt_div_iff₀ hw] at hlt
  have ht' : (0 : ℚ) < t := by exact_mod_cast ht
  calc
    r * t ≤ a * u * t := mul_le_mul_of_nonneg_right h.product.le ht'.le
    _ = a * (u * t) := by ring
    _ < a * 1 := mul_lt_mul_of_pos_left hreciprocal ha
    _ ≤ v := by linarith [h.value.le]

end Bounds

/-- A chain of results that do not clash comes from a truncation. -/
theorem exists_truncation (h : Chain p v t a w u r) (hp : 2 ≤ p) (hv : 0 < v) (ht : 0 < t)
    (hsame : v = t → a = w) (hw : 1 < w) (hvalue : a * u ≠ v) (hpower : a * u ≠ t)
    (hreciprocal : a * u ≠ 1 / w) : ∃ T : Truncation p, T (T v * T (1 / T t)) = r := by
  obtain ⟨ha, hwpos, hu, hr⟩ := h.positive hp hv ht
  have hv' : (0 : ℚ) < v := by exact_mod_cast hv
  have ht' : (0 : ℚ) < t := by exact_mod_cast ht
  have hone : 1 / w < 1 := (div_lt_one hwpos).mpr hw
  have hone' : (0 : ℚ) < 1 / w := by positivity
  have hsmall : ∀ {n : ℕ}, 0 < n → (n : ℚ) ≠ 1 / w := by
    intro n hn heq
    have hle : (1 : ℚ) ≤ n := by exact_mod_cast hn
    linarith
  have hproduct := mul_pos ha hu
  let T := ((((Truncation.bits p).update ht' h.power).update hv' h.value).update hone'
    h.reciprocal).update hproduct h.product
  have hTv : T v = a := by
    rw [Truncation.update_of_ne _ _ _ hv' hvalue.symm,
      Truncation.update_of_ne _ _ _ hv' (hsmall hv), Truncation.update_self]
  have hTt : T t = w := by
    rw [Truncation.update_of_ne _ _ _ ht' hpower.symm,
      Truncation.update_of_ne _ _ _ ht' (hsmall ht)]
    by_cases hvt : v = t
    · subst hvt
      rw [Truncation.update_self, hsame rfl]
    · rw [Truncation.update_of_ne _ _ _ ht' (by exact_mod_cast Ne.symm hvt), Truncation.update_self]
  have hTu : T (1 / w) = u := by
    rw [Truncation.update_of_ne _ _ _ hone' hreciprocal.symm, Truncation.update_self]
  have hTr : T (a * u) = r := Truncation.update_self _ _ _
  exact ⟨T, by rw [hTv, hTt, hTu, hTr]⟩

section Worst

variable (hp : 2 ≤ p) (hv : 0 < v)
include hp hv

theorem exists_low_value {b : ℕ} (hb : 1 ≤ b) (hexact : Representable p v → v * kept p ^ 2 < b * t)
    (hloss : v * kept p ^ 3 < b * t) :
    ∃ a, Truncates p v a ∧ (v = t → a = t) ∧ a * kept p ^ 2 < b * t := by
  have hv' : (0 : ℚ) < v := by exact_mod_cast hv
  have hkept := kept_pos hp
  have hself : Truncates p (v : ℚ) v := truncates_self hv' (by exact_mod_cast isDyadic_intCast v)
  by_cases hvt : v = t
  · refine ⟨v, hself, fun h => by rw [h], ?_⟩
    have hsq : kept p ^ 2 < 1 := pow_lt_one₀ hkept.le (kept_lt_one p) (by decide)
    have hb' : (1 : ℚ) ≤ b := by exact_mod_cast hb
    rw [← hvt]
    nlinarith
  · by_cases hrep : Representable p v
    · exact ⟨v, hself, fun h => absurd h hvt, hexact hrep⟩
    · have hroom : v * kept p < min (v : ℚ) (b * t / kept p ^ 2) := by
        refine lt_min (mul_lt_of_lt_one_right hv' (kept_lt_one p)) ?_
        rw [lt_div_iff₀ (by positivity), mul_assoc, ← pow_succ']
        exact hloss
      obtain ⟨m, k, -, -, hlow, hhigh⟩ := exists_odd_between hroom 0
      obtain ⟨hle, hlt⟩ := lt_min_iff.mp hhigh
      refine ⟨m / 2 ^ k, ⟨hlow, hle.le, ⟨m, k, rfl⟩, fun h => absurd h hrep⟩,
        fun h => absurd h hvt, ?_⟩
      rwa [lt_div_iff₀ (by positivity)] at hlt

variable (ht : 1 < t)
include ht

theorem exists_low {b : ℕ} (hten : ¬ IsDyadic (1 / t)) (hb : 1 ≤ b)
    (hexact : Representable p v → v * kept p ^ 2 < b * t) (hloss : v * kept p ^ 3 < b * t) :
    ∃ T : Truncation p, T (T v * T (1 / T t)) < b := by
  have hv' : (0 : ℚ) < v := by exact_mod_cast hv
  have ht' : (1 : ℚ) < t := by exact_mod_cast ht
  have htpos : (0 : ℚ) < t := by linarith
  have hkept := kept_pos hp
  obtain ⟨a, hvalue, hsame, hlow⟩ := exists_low_value hp hv hb hexact hloss
  have ha := hvalue.pos hp hv'
  have hroom : 1 / t * kept p < min (1 / t : ℚ) (b / (a * kept p)) := by
    refine lt_min (mul_lt_of_lt_one_right (by positivity) (kept_lt_one p)) ?_
    rw [lt_div_iff₀ (by positivity), ← sub_pos]
    have hsplit : b - 1 / t * kept p * (a * kept p) = (b * t - a * kept p ^ 2) / t := by
      field_simp
    rw [hsplit]
    exact div_pos (by linarith) htpos
  obtain ⟨u, hulow, huhigh, hudyadic, hmany, hfraction⟩ :=
    exists_factor p ha hvalue.dyadic (by positivity) hroom
  obtain ⟨hule, hubound⟩ := lt_min_iff.mp huhigh
  rw [lt_div_iff₀ (by positivity)] at hubound
  have hu : 0 < u := lt_trans (by positivity) hulow
  have hproduct : a * u * kept p < min (a * u) b := by
    refine lt_min (mul_lt_of_lt_one_right (by positivity) (kept_lt_one p)) ?_
    linarith
  obtain ⟨m, k, -, -, hrlow, hrhigh⟩ := exists_odd_between hproduct 0
  obtain ⟨hrle, hrbound⟩ := lt_min_iff.mp hrhigh
  have hchain : Chain p v t a t u (m / 2 ^ k) :=
    ⟨hvalue, truncates_self htpos (by exact_mod_cast isDyadic_intCast t),
      ⟨hulow, hule.le, hudyadic, fun h => absurd h.isDyadic hten⟩,
      ⟨hrlow, hrle.le, ⟨m, k, rfl⟩, fun h => absurd h hmany⟩⟩
  obtain ⟨T, hT⟩ := hchain.exists_truncation hp hv (by omega) hsame ht'
    (by exact_mod_cast hfraction v) (by exact_mod_cast hfraction t)
    fun heq => hten (heq ▸ hvalue.dyadic.mul hudyadic)
  exact ⟨T, by rw [hT]; exact hrbound⟩

theorem exists_high {b : ℚ} (hpower : Truncates p t w) (hw : 1 < w) (hten : ¬ IsDyadic (1 / w))
    (hsame : v = t → (v : ℚ) = w) (hb : b * w < v) :
    ∃ T : Truncation p, b < T (T v * T (1 / T t)) := by
  have hv' : (0 : ℚ) < v := by exact_mod_cast hv
  have hwpos : 0 < w := by linarith
  have hkept := kept_pos hp
  have hroom : max (1 / w * kept p) (b / v) < 1 / w := by
    refine max_lt (mul_lt_of_lt_one_right (by positivity) (kept_lt_one p)) ?_
    rw [div_lt_div_iff₀ hv' hwpos]
    linarith
  have hlo : 0 < max (1 / w * kept p) (b / v) := lt_max_of_lt_left (by positivity)
  have hvdyadic : IsDyadic (v : ℚ) := by exact_mod_cast isDyadic_intCast v
  obtain ⟨u, hulow, hule, hudyadic, -, hfraction⟩ := exists_factor p hv' hvdyadic hlo hroom
  obtain ⟨hushare, hubound⟩ := max_lt_iff.mp hulow
  have hu : 0 < u := lt_trans (by positivity) hushare
  have hproduct : 0 < v * u := mul_pos hv' hu
  have hchain : Chain p v t v w u (v * u) :=
    ⟨truncates_self hv' hvdyadic, hpower,
      ⟨hushare, hule.le, hudyadic, fun h => absurd h.isDyadic hten⟩,
      truncates_self hproduct (hvdyadic.mul hudyadic)⟩
  obtain ⟨T, hT⟩ := hchain.exists_truncation hp hv (by omega) hsame hw
    (by exact_mod_cast hfraction v) (by exact_mod_cast hfraction t)
    fun heq => hten (heq ▸ hvdyadic.mul hudyadic)
  refine ⟨T, ?_⟩
  rw [hT]
  rwa [div_lt_iff₀' hv'] at hubound

end Worst

end Chain

/--
The quotient is clear of the integers that the truncations could move it over, and of
the limit, where a fraction already counts as out of range.
-/
structure Clear (p v t bound : ℕ) : Prop where
  offLimit : v / t ≠ bound
  above : Representable p v → ((min (v / t) bound * t : ℕ) : ℚ) ≤ v * kept p ^ 2
  above' : ¬ Representable p v → ((min (v / t) bound * t : ℕ) : ℚ) ≤ v * kept p ^ 3
  below : v / t < bound → ¬ Representable p t → (v : ℚ) ≤ ((v / t + 1 : ℕ) : ℚ) * (t * kept p)

/-- What the range check and the cut make of a magnitude. -/
def Converts (v t bound : ℕ) (r : ℚ) : Prop :=
  if v / t ≤ bound then r ≤ bound ∧ ⌊r⌋ = ((v / t : ℕ) : ℤ) else (bound : ℚ) < r

section Quotient

variable {p v t bound : ℕ} (hp : 2 ≤ p) (hv : 0 < v) (ht : 1 < t) (hten : ¬ IsDyadic (1 / t))
include hp hv ht hten

theorem Clear.converts {a w u r : ℚ} (h : Clear p v t bound) (hchain : Chain p v t a w u r) :
    Converts v t bound r := by
  have ht' : (0 : ℚ) < t := by exact_mod_cast (by omega : 0 < t)
  have hlow : ((min (v / t) bound : ℕ) : ℚ) < r := by
    refine lt_of_mul_lt_mul_right ?_ ht'.le
    rw [← Nat.cast_mul]
    by_cases hrep : Representable p v
    · have hbound := hchain.mul_kept_sq_lt hp hv (by omega)
      rw [hchain.value.exact hrep] at hbound
      exact (h.above hrep).trans_lt hbound
    · exact (h.above' hrep).trans_lt (hchain.mul_kept_cube_lt hp hv (by omega))
  unfold Converts
  rcases Nat.lt_or_gt_of_ne h.offLimit with hlt | hgt
  · have hhigh : r < (v / t + 1 : ℕ) := by
      by_cases hrep : Representable p t
      · have hbound := hchain.mul_lt hp hv (by omega) hrep hten
        have hdiv : (v : ℚ) < (v / t + 1 : ℕ) * t := by
          exact_mod_cast Nat.lt_mul_of_div_lt (Nat.lt_succ_self _) (by omega)
        exact lt_of_mul_lt_mul_right (hbound.trans hdiv) ht'.le
      · have hbound := hchain.mul_kept_lt hp hv (by omega)
        exact lt_of_mul_lt_mul_right (hbound.trans_le (h.below hlt hrep))
          (mul_pos ht' (kept_pos hp)).le
    rw [if_pos hlt.le]
    rw [min_eq_left hlt.le] at hlow
    constructor
    · have hle : ((v / t + 1 : ℕ) : ℚ) ≤ bound := by exact_mod_cast hlt
      linarith
    · rw [Int.floor_eq_iff]
      push_cast at hhigh ⊢
      exact ⟨hlow.le, hhigh⟩
  · rw [if_neg (by omega)]
    rwa [min_eq_right hgt.le] at hlow

theorem offLimit_of_converts (h : ∀ T : Truncation p, Converts v t bound (T (T v * T (1 / T t))))
    (hbound : 1 ≤ bound) : v / t ≠ bound := by
  intro heq
  have hv' : (0 : ℚ) < v := by exact_mod_cast hv
  have ht' : (1 : ℚ) < t := by exact_mod_cast ht
  have hconverts : ∀ T : Truncation p, T (T v * T (1 / T t)) ≤ bound ∧
      (bound : ℚ) ≤ T (T v * T (1 / T t)) := by
    intro T
    have hT := h T
    rw [Converts, if_pos heq.le, heq] at hT
    exact ⟨hT.1, by exact_mod_cast Int.le_floor.mp hT.2.ge⟩
  rcases (Nat.mul_div_le v t).eq_or_lt with hwhole | hmore
  · -- a whole number comes out below itself
    rw [heq] at hwhole
    have hcast : (v : ℚ) = bound * t := by
      rw [← hwhole]
      push_cast
      ring
    have hless : ∀ k ≠ 0, v * kept p ^ k < bound * t := by
      intro k hk
      rw [hcast]
      exact mul_lt_of_lt_one_right (by rw [← hcast]; exact hv')
        (pow_lt_one₀ (kept_pos hp).le (kept_lt_one p) hk)
    obtain ⟨T, hT⟩ := Chain.exists_low hp hv ht hten hbound (fun _ => hless 2 (by decide))
      (hless 3 (by decide))
    exact absurd hT (not_lt.mpr (hconverts T).2)
  · -- a fraction above the limit stays above it
    rw [heq] at hmore
    have hself : Truncates p (t : ℚ) t :=
      truncates_self (by linarith) (by exact_mod_cast isDyadic_intCast t)
    obtain ⟨T, hT⟩ := Chain.exists_high (b := bound) hp hv ht hself ht' hten
      (fun hsame => by rw [hsame]) (by exact_mod_cast (Nat.mul_comm bound t).trans_lt hmore)
    exact absurd hT (not_lt.mpr (hconverts T).1)

theorem above_of_converts (h : ∀ T : Truncation p, Converts v t bound (T (T v * T (1 / T t)))) :
    (Representable p v → ((min (v / t) bound * t : ℕ) : ℚ) ≤ v * kept p ^ 2) ∧
      (¬ Representable p v → ((min (v / t) bound * t : ℕ) : ℚ) ≤ v * kept p ^ 3) := by
  have hv' : (0 : ℚ) < v := by exact_mod_cast hv
  have hkept := kept_pos hp
  have hleast : ∀ T : Truncation p, ((min (v / t) bound : ℕ) : ℚ) ≤ T (T v * T (1 / T t)) := by
    intro T
    have hT := h T
    rw [Converts] at hT
    split_ifs at hT with hle
    · rw [min_eq_left hle]
      exact_mod_cast Int.le_floor.mp hT.2.ge
    · rw [min_eq_right (by omega)]
      exact hT.le
  have hnone : ¬ ((Representable p v → v * kept p ^ 2 < ((min (v / t) bound : ℕ) : ℚ) * t) ∧
      v * kept p ^ 3 < ((min (v / t) bound : ℕ) : ℚ) * t) := by
    rintro ⟨hexact, hloss⟩
    have hone : 1 ≤ min (v / t) bound := by
      by_contra hzero
      rw [Nat.lt_one_iff.mp (not_le.mp hzero)] at hloss
      have hpos : 0 < v * kept p ^ 3 := by positivity
      simp at hloss
      linarith
    obtain ⟨T, hT⟩ := Chain.exists_low hp hv ht hten hone hexact hloss
    exact absurd hT (not_lt.mpr (hleast T))
  push_cast
  push_cast at hnone
  constructor
  · intro hrep
    by_contra hlt
    have hexact := not_le.mp hlt
    refine hnone ⟨fun _ => hexact, lt_of_le_of_lt ?_ hexact⟩
    exact mul_le_mul_of_nonneg_left
      (pow_le_pow_of_le_one hkept.le (kept_lt_one p).le (by decide)) hv'.le
  · intro hrep
    by_contra hlt
    exact hnone ⟨fun hrep' => absurd hrep' hrep, not_le.mp hlt⟩

theorem below_of_converts (h : ∀ T : Truncation p, Converts v t bound (T (T v * T (1 / T t))))
    (hlt : v / t < bound) (hrep : ¬ Representable p t) :
    (v : ℚ) ≤ ((v / t + 1 : ℕ) : ℚ) * (t * kept p) := by
  by_contra hfail
  have hless := not_le.mp hfail
  have ht' : (1 : ℚ) < t := by exact_mod_cast ht
  have hkept := kept_pos hp
  have hsucc : (0 : ℚ) < (v / t + 1 : ℕ) := by positivity
  -- the power of ten goes down almost as far as it may
  have hroom : (t : ℚ) * kept p < min (t : ℚ) (v / (v / t + 1 : ℕ)) := by
    refine lt_min (mul_lt_of_lt_one_right (by linarith) (kept_lt_one p)) ?_
    rw [lt_div_iff₀ hsucc]
    linarith
  obtain ⟨m, k, -, hodd, hlow, hhigh⟩ := exists_odd_between hroom 0
  obtain ⟨hle, hbound⟩ := lt_min_iff.mp hhigh
  rw [lt_div_iff₀ hsucc, mul_comm] at hbound
  have hhalf := half_le_kept hp
  have ht2 : (2 : ℚ) ≤ t := by exact_mod_cast ht
  have hw : 1 < (m / 2 ^ k : ℚ) := by nlinarith
  have hpos : (0 : ℚ) < 2 ^ k := by positivity
  have hm : 1 < m := by
    rw [lt_div_iff₀ hpos, one_mul] at hw
    have hone : (1 : ℚ) ≤ 2 ^ k := one_le_pow₀ (by norm_num)
    exact_mod_cast hone.trans_lt hw
  have hdyadic : ¬ IsDyadic (1 / (m / 2 ^ k) : ℚ) := by
    refine not_isDyadic_of_odd hodd hm (j := k) ?_
    have hne : (m : ℚ) ≠ 0 := by exact_mod_cast (by omega : m ≠ 0)
    rw [zpow_natCast]
    field_simp
  have hvt : v ≠ t := by
    rintro rfl
    rw [Nat.div_self hv] at hless
    push_cast at hless
    nlinarith
  obtain ⟨T, hT⟩ := Chain.exists_high hp hv ht
    ⟨hlow, hle.le, ⟨m, k, rfl⟩, fun h => absurd h hrep⟩ hw hdyadic (fun h => absurd h hvt) hbound
  have hconverts := h T
  rw [Converts, if_pos hlt.le] at hconverts
  have hfloor := Int.lt_floor_add_one (T (T v * T (1 / T t)))
  rw [hconverts.2, Int.cast_natCast] at hfloor
  rw [Nat.cast_add_one] at hT
  linarith

end Quotient

/-- For every truncation: the quotient is right exactly if it is clear. -/
theorem converts_iff_clear {p v t bound : ℕ} (hp : 2 ≤ p) (hv : 0 < v) (ht : 1 < t)
    (hten : ¬ IsDyadic (1 / t)) (hbound : 1 ≤ bound) :
    (∀ T : Truncation p, Converts v t bound (T (T v * T (1 / T t)))) ↔ Clear p v t bound := by
  constructor
  · intro h
    obtain ⟨habove, habove'⟩ := above_of_converts hp hv ht hten h
    exact ⟨offLimit_of_converts hp hv ht hten h hbound, habove, habove',
      below_of_converts hp hv ht hten h⟩
  · intro h T
    exact h.converts hp hv ht hten (Chain.of_truncation T hp hv (by omega))

section Multiply

variable {p : ℕ} (T : Truncation p) (hp : 64 ≤ p)
include hp

theorem lt_apply_of_le {x : ℚ} (hx : 2 ^ 64 - 2 ≤ x) : 2 ^ 63 < T x := by
  have hpos : 0 < x := lt_of_lt_of_le (by norm_num) hx
  calc
    (2 : ℚ) ^ 63 < (2 ^ 64 - 2) * kept 64 := by norm_num [kept]
    _ ≤ x * kept p := mul_le_mul hx (kept_mono hp) (by norm_num [kept]) hpos.le
    _ < T x := (T.truncates x hpos).lt

theorem apply_natCast_cases (n : ℕ) : (T n = n ∧ n < 2 ^ 64) ∨ 2 ^ 64 - 2 ≤ T n := by
  rcases Nat.lt_or_ge n (2 ^ 64) with hlt | hge
  · exact .inl ⟨T.apply_natCast (hlt.trans_le (Nat.pow_le_pow_right (by decide) hp)), hlt⟩
  · have hn : (2 : ℚ) ^ 64 ≤ n := by exact_mod_cast hge
    have hpos : (0 : ℚ) < n := lt_of_lt_of_le (by norm_num) hn
    right
    calc
      (2 : ℚ) ^ 64 - 2 = 2 ^ 64 * kept 64 := by norm_num [kept]
      _ ≤ n * kept p := mul_le_mul hn (kept_mono hp) (by norm_num [kept]) hpos.le
      _ ≤ T n := (T.truncates n hpos).lt.le

theorem one_le_apply {n : ℕ} (hn : 0 < n) : 1 ≤ T n := by
  rcases apply_natCast_cases T hp n with ⟨heq, -⟩ | hge
  · rw [heq]
    exact_mod_cast hn
  · exact le_trans (by norm_num) hge

theorem product_right {v t bound : ℕ} (hv : 0 < v) (ht : 0 < t) (hbound : bound ≤ 2 ^ 63) :
    if v * t ≤ bound then T (T v * T t) = (v * t : ℕ) else (bound : ℚ) < T (T v * T t) := by
  split_ifs with hfits
  · have hle : v * t ≤ 2 ^ 63 := hfits.trans hbound
    have hpow : 2 ^ 63 < 2 ^ p := Nat.pow_lt_pow_right (by decide) (by omega)
    have hvle : v ≤ v * t := Nat.le_mul_of_pos_right v ht
    have htle : t ≤ v * t := Nat.le_mul_of_pos_left t hv
    rw [T.apply_natCast (n := v) (by omega), T.apply_natCast (n := t) (by omega), ← Nat.cast_mul,
      T.apply_natCast (by omega)]
  · have hv1 := one_le_apply T hp hv
    have ht1 := one_le_apply T hp ht
    have hbeyond : 2 ^ 64 - 2 ≤ T v * T t → (bound : ℚ) < T (T v * T t) := by
      intro hge
      have hbound' : (bound : ℚ) ≤ 2 ^ 63 := by exact_mod_cast hbound
      exact hbound'.trans_lt (lt_apply_of_le T hp hge)
    rcases apply_natCast_cases T hp v with ⟨hTv, -⟩ | hvge
    · rcases apply_natCast_cases T hp t with ⟨hTt, -⟩ | htge
      · rcases apply_natCast_cases T hp (v * t) with ⟨hT, -⟩ | hge
        · rw [hTv, hTt, ← Nat.cast_mul, hT]
          exact_mod_cast Nat.lt_of_not_le hfits
        · rw [hTv, hTt, ← Nat.cast_mul]
          refine lt_of_le_of_lt ?_ (lt_of_lt_of_le (by norm_num : (2 : ℚ) ^ 63 < 2 ^ 64 - 2) hge)
          exact_mod_cast hbound
      · exact hbeyond (htge.trans (le_mul_of_one_le_left (by linarith) hv1))
    · exact hbeyond (hvge.trans (le_mul_of_one_le_right (by linarith) ht1))

end Multiply

theorem limit_pos (d : Decimal) : 1 ≤ limit d := by
  unfold limit
  split_ifs <;> norm_num

theorem limit_le (d : Decimal) : limit d ≤ 2 ^ 63 := by
  unfold limit
  split_ifs <;> norm_num

theorem tens_pos (d : Decimal) : 0 < tens d :=
  Nat.pow_pos (by decide)

section Cases

variable {p : ℕ} {d : Decimal}

theorem longRight_of_zero (T : Truncation p) (hp : 64 ≤ p) (h : d.value = 0) : LongRight T d := by
  have hshare : share d = 0 := by simp [share, h]
  have hmag : magnitude T d = 0 := by simp [magnitude, h, T.zero]
  rw [longRight_iff T hp, hshare, hmag]
  simp

theorem longRight_of_scale_nonpos (T : Truncation p) (hp : 64 ≤ p) (h : d.scale ≤ 0)
    (hne : d.value ≠ 0) : LongRight T d := by
  have hscale : ¬ 0 < d.scale := Int64.not_lt.mpr h
  have hshare : share d = (d.value.natAbs * tens d : ℕ) := by
    have hint : d.scale.toInt ≤ 0 := by simpa [Int64.le_iff_toInt_le] using h
    have hexp : -d.scale.toInt = (d.scale.toInt.natAbs : ℤ) := by omega
    rw [share, tens, hexp, zpow_natCast]
    push_cast
    rfl
  have hmag : magnitude T d = T (T d.value.natAbs * T (tens d)) := by
    rw [magnitude, if_neg hscale]
  have hproduct := product_right T hp (Int.natAbs_pos.mpr hne) (tens_pos d) (limit_le d)
  rw [longRight_iff T hp, hshare, hmag, Int.floor_natCast]
  simp only [Int.ofNat_le]
  split_ifs at hproduct ⊢ with hfits
  · rw [hproduct, Int.floor_natCast]
    exact ⟨by exact_mod_cast hfits, rfl⟩
  · exact hproduct

section Positive

variable (h : 0 < d.scale)
include h

theorem scale_toInt_pos : 0 < d.scale.toInt := by
  simpa [Int64.lt_iff_toInt_lt] using h

theorem one_lt_tens : 1 < tens d := by
  have hpos := scale_toInt_pos h
  exact Nat.one_lt_pow (by omega) (by decide)

theorem not_isDyadic_tens : ¬ IsDyadic (1 / tens d) := by
  have hpos := scale_toInt_pos h
  have hodd : Odd ((5 : ℤ) ^ d.scale.toInt.natAbs) := Odd.pow (by decide)
  have hlt : 1 < (5 : ℤ) ^ d.scale.toInt.natAbs := one_lt_pow₀ (by decide) (by omega)
  refine not_isDyadic_of_odd hodd hlt (j := -(d.scale.toInt.natAbs : ℤ)) ?_
  rw [tens, zpow_neg, zpow_natCast]
  push_cast
  rw [show (10 : ℚ) = 5 * 2 by norm_num, mul_pow]
  field_simp

/-- With a positive scale the magnitude is divided. -/
theorem longRight_iff_converts (T : Truncation p) (hp : 64 ≤ p) :
    LongRight T d ↔
      Converts d.value.natAbs (tens d) (limit d) (T (T d.value.natAbs * T (1 / T (tens d)))) := by
  have hpos := scale_toInt_pos h
  have hshare : share d = (d.value.natAbs : ℚ) / (tens d : ℚ) := by
    have hexp : d.scale.toInt = (d.scale.toInt.natAbs : ℤ) := by omega
    rw [share, zpow_neg, hexp, zpow_natCast, tens, div_eq_mul_inv]
    push_cast
    rfl
  have hfloor : ⌊share d⌋ = ((d.value.natAbs / tens d : ℕ) : ℤ) := by
    rw [hshare, Rat.floor_natCast_div_natCast]
    push_cast
    rfl
  rw [longRight_iff T hp, hfloor, magnitude, if_pos h, Converts]
  simp only [Int.ofNat_le]

theorem not_longRight_of_dvd (T : Truncation p) (hp : 64 ≤ p) (hne : d.value ≠ 0)
    (hexact : Representable p (tens d)) (hdvd : tens d ∣ d.value.natAbs)
    (hfits : d.value.natAbs / tens d ≤ limit d) : ¬ LongRight T d := by
  have hvalue := Int.natAbs_pos.mpr hne
  rw [longRight_iff_converts h T hp, Converts, if_pos hfits]
  rintro ⟨-, hfloor⟩
  have hchain := Chain.of_truncation T (by omega) hvalue (tens_pos d)
  have hlt := hchain.mul_lt (by omega) hvalue (tens_pos d) hexact (not_isDyadic_tens h)
  have hle := Int.floor_le (T (T d.value.natAbs * T (1 / T (tens d))))
  have hwhole : (d.value.natAbs : ℚ) = (d.value.natAbs / tens d : ℕ) * (tens d : ℚ) := by
    exact_mod_cast (Nat.div_mul_cancel hdvd).symm
  have htens : (0 : ℚ) < tens d := by exact_mod_cast tens_pos d
  rw [hfloor, Int.cast_natCast] at hle
  rw [hwhole] at hlt
  exact absurd (lt_of_mul_lt_mul_right hlt htens.le) (not_lt.mpr (by rwa [← hwhole]))

end Positive

end Cases

/-- The Decimals that every truncation converts right. -/
def LongExact (p : ℕ) (d : Decimal) : Prop :=
  d.value = 0 ∨ d.scale ≤ 0 ∨ Clear p d.value.natAbs (tens d) (limit d)

/--
`toInt` cuts off the fraction or reports the range, whatever the truncations take away,
exactly for the Decimals that are clear of the integers. A whole number that is written
with a fraction comes out wrong with every truncation that keeps its power of ten.
-/
theorem toLong_right_iff
    {p : ℕ}
    (hp : 64 ≤ p)
    (d : Decimal) :
    ((∀ T : Truncation p, LongRight T d) ↔ LongExact p d) ∧
      (0 < d.scale → d.value ≠ 0 → Representable p (tens d) → tens d ∣ d.value.natAbs →
        d.value.natAbs / tens d ≤ limit d → ∀ T : Truncation p, ¬ LongRight T d) := by
  refine ⟨?_, fun hscale hne hexact hdvd hfits T =>
    not_longRight_of_dvd hscale T hp hne hexact hdvd hfits⟩
  by_cases hzero : d.value = 0
  · exact iff_of_true (fun T => longRight_of_zero T hp hzero) (.inl hzero)
  by_cases hscale : 0 < d.scale
  · have hclear := converts_iff_clear (by omega : 2 ≤ p) (Int.natAbs_pos.mpr hzero)
      (one_lt_tens hscale) (not_isDyadic_tens hscale) (limit_pos d)
    have hscale' : ¬ d.scale ≤ 0 := Int64.not_le.mpr hscale
    simp only [longRight_iff_converts hscale _ hp, hclear, LongExact, hzero, hscale', false_or]
  · have hscale' : d.scale ≤ 0 := Int64.not_lt.mp hscale
    exact iff_of_true (fun T => longRight_of_scale_nonpos T hp hscale' hzero) (.inr (.inl hscale'))

theorem toLong_one_and_a_half :
    LongRight (Truncation.bits 64) ⟨15, 1⟩ := by
  have htens : tens ⟨15, 1⟩ = 10 := by decide
  refine (toLong_right_iff (le_refl 64) ⟨15, 1⟩).1.mpr (.inr (.inr ?_)) _
  rw [htens]
  refine ⟨by decide, fun _ => ?_, fun _ => ?_, fun _ _ => ?_⟩ <;> norm_num [limit, kept]

/-- `1.0` comes out as zero. -/
theorem toLong_one_with_fraction :
    toLong (Truncation.bits 64) ⟨10, 1⟩ = .ok 0 ∧ ¬ LongRight (Truncation.bits 64) ⟨10, 1⟩ := by
  have hzero : toLong (Truncation.bits 64) ⟨10, 1⟩ = .ok 0 := by decide +kernel
  have hone : truncated (Decimal.denote ⟨10, 1⟩) = 1 := by decide +kernel
  refine ⟨hzero, ?_⟩
  rw [LongRight, hone, if_pos ⟨by decide, by decide⟩, hzero]
  decide

end Numbers
end ScyllaDriver
