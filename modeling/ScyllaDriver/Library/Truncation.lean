import Mathlib.Data.Int.Log
import Mathlib.Data.Rat.Floor
import Mathlib.Tactic

/-!
# Arithmetic that truncates

A number of `p` significant bits is `m * 2 ^ e` with `m` below `2 ^ p`. A truncation to
`p` bits sends every rational to a binary fraction between the number and zero, less
than one part in `2 ^ (p - 1)` away from it, and leaves the numbers of `p` bits alone.
Which fraction it takes is open: an implementation may keep more bits than it has to.

`Truncation.bits` drops everything after the first `p` bits. `Truncation.update`
changes a truncation at one number, so that finitely many results can be prescribed.
-/

namespace ScyllaDriver

/-- A binary fraction. -/
def IsDyadic (x : ℚ) : Prop :=
  ∃ (m : ℤ) (k : ℕ), x = m / 2 ^ k

/-- A number of `p` significant bits. -/
def Representable (p : ℕ) (x : ℚ) : Prop :=
  ∃ (m e : ℤ), |m| < 2 ^ p ∧ x = m * 2 ^ e

/-- The share of a number that is kept at least. -/
def kept (p : ℕ) : ℚ :=
  1 - 2 / 2 ^ p

/-- What a truncation to `p` bits may make of a positive number. -/
structure Truncates (p : ℕ) (x y : ℚ) : Prop where
  lt : x * kept p < y
  le : y ≤ x
  dyadic : IsDyadic y
  exact : Representable p x → y = x

structure Truncation (p : ℕ) where
  run : ℚ → ℚ
  zero : run 0 = 0
  neg : ∀ x, run (-x) = -run x
  truncates : ∀ x, 0 < x → Truncates p x (run x)

instance (p : ℕ) : CoeFun (Truncation p) fun _ => ℚ → ℚ :=
  ⟨Truncation.run⟩

section Dyadic

variable {p : ℕ} {x : ℚ}

theorem isDyadic_intCast (z : ℤ) : IsDyadic z :=
  ⟨z, 0, by simp⟩

theorem isDyadic_mul_zpow (m e : ℤ) : IsDyadic (m * 2 ^ e) := by
  rcases Int.le_total 0 e with he | he
  · obtain ⟨k, rfl⟩ := Int.eq_ofNat_of_zero_le he
    refine ⟨m * 2 ^ k, 0, ?_⟩
    push_cast
    rw [pow_zero, div_one, zpow_natCast]
  · obtain ⟨k, hk⟩ := Int.eq_ofNat_of_zero_le (Int.neg_nonneg.mpr he)
    refine ⟨m, k, ?_⟩
    rw [← neg_neg e, hk, zpow_neg, zpow_natCast, div_eq_mul_inv]

theorem IsDyadic.mul {y : ℚ} (hx : IsDyadic x) (hy : IsDyadic y) : IsDyadic (x * y) := by
  obtain ⟨m, k, rfl⟩ := hx
  obtain ⟨n, j, rfl⟩ := hy
  refine ⟨m * n, k + j, ?_⟩
  push_cast
  rw [pow_add, div_mul_div_comm]

theorem representable_intCast {z : ℤ} (h : |z| < 2 ^ p) : Representable p z :=
  ⟨z, 0, h, by simp⟩

theorem isCoprime_two_pow {m : ℤ} (hodd : Odd m) (n : ℕ) : IsCoprime m (2 ^ n) := by
  obtain ⟨c, rfl⟩ := hodd
  have htwo : IsCoprime (2 * c + 1) 2 := ⟨1, -c, by ring⟩
  exact htwo.pow_right

theorem exists_mul_two_pow {a b e : ℤ} {k : ℕ} (h : (a / 2 ^ k : ℚ) = b * 2 ^ e) :
    ∃ i j : ℕ, a * 2 ^ i = b * 2 ^ j := by
  have htwo : (2 : ℚ) ≠ 0 := by norm_num
  refine ⟨e.natAbs, (k + e + e.natAbs).toNat, ?_⟩
  have hexp : ((k + e + e.natAbs).toNat : ℤ) = k + e + e.natAbs := by omega
  have hmul : (a * 2 ^ e.natAbs : ℚ) = b * 2 ^ ((k + e + e.natAbs).toNat) := by
    rw [← zpow_natCast 2 (k + e + e.natAbs).toNat, hexp, zpow_add₀ htwo, zpow_add₀ htwo,
      zpow_natCast, zpow_natCast]
    rw [div_eq_iff (by positivity)] at h
    rw [h]
    ring
  exact_mod_cast hmul

theorem not_isDyadic_of_odd {m j : ℤ} (hodd : Odd m) (hm : 1 < m) (h : x * m = 2 ^ j) :
    ¬ IsDyadic x := by
  rintro ⟨a, k, rfl⟩
  have hmul : ((a * m : ℤ) / 2 ^ k : ℚ) = (1 : ℤ) * 2 ^ j := by
    rw [← h]
    push_cast
    ring
  obtain ⟨i, n, hint⟩ := exists_mul_two_pow hmul
  have hdvd : m ∣ 2 ^ n := ⟨a * 2 ^ i, by linear_combination -hint⟩
  have hunit := (isCoprime_two_pow hodd n).isUnit_of_dvd' (dvd_refl m) hdvd
  rcases Int.isUnit_iff.mp hunit with h | h <;> omega

theorem not_representable_of_odd {a m : ℤ} {k : ℕ} (ha : a ≠ 0) (hodd : Odd m) (hm : 2 ^ p ≤ |m|) :
    ¬ Representable p ((a * m : ℤ) / 2 ^ k) := by
  rintro ⟨b, e, hb, h⟩
  obtain ⟨i, n, hint⟩ := exists_mul_two_pow h
  have hdvd : m ∣ b * 2 ^ n := ⟨a * 2 ^ i, by linear_combination -hint⟩
  have hdvd' : m ∣ b := (isCoprime_two_pow hodd n).dvd_of_dvd_mul_right hdvd
  have hne : b ≠ 0 := by
    rintro rfl
    have hzero : a * m * 2 ^ i = 0 := by rw [hint, zero_mul]
    have hmzero : m = 0 := by simpa [ha] using hzero
    rw [hmzero] at hodd
    exact absurd hodd (by decide)
  have hle := Int.le_of_dvd (abs_pos.mpr hne) ((abs_dvd_abs m b).mpr hdvd')
  omega

theorem ne_intCast_of_odd {a m : ℤ} {k : ℕ} (ha : 0 < a) (hodd : Odd m) (hk : a < 2 ^ k) (z : ℤ) :
    ((a * m : ℤ) / 2 ^ k : ℚ) ≠ z := by
  intro h
  rw [div_eq_iff (by positivity)] at h
  have hint : a * m = z * 2 ^ k := by exact_mod_cast h
  have hdvd : (2 : ℤ) ^ k ∣ a * m := ⟨z, by rw [hint]; ring⟩
  have hle := Int.le_of_dvd ha ((isCoprime_two_pow hodd k).symm.dvd_of_dvd_mul_right hdvd)
  omega

/-- Between two numbers there are odd binary fractions with any number of places. -/
theorem exists_odd_between {a b : ℚ} (h : a < b) (places : ℕ) :
    ∃ (m : ℤ) (k : ℕ), places ≤ k ∧ Odd m ∧ a < m / 2 ^ k ∧ (m / 2 ^ k : ℚ) < b := by
  obtain ⟨n, hn⟩ := exists_nat_gt (3 / (b - a))
  have hgap : 0 < b - a := sub_pos.mpr h
  have hroom : 3 < (b - a) * 2 ^ (places + n) := by
    have hpow : (n : ℚ) ≤ 2 ^ (places + n) := by
      have hlt : n < 2 ^ n := Nat.lt_two_pow_self
      have hle : 2 ^ n ≤ 2 ^ (places + n) := Nat.pow_le_pow_right (by decide) (by omega)
      exact_mod_cast (hlt.le.trans hle)
    rw [div_lt_iff₀ hgap] at hn
    nlinarith
  have hpos : (0 : ℚ) < 2 ^ (places + n) := by positivity
  have hfloor := Int.floor_le (a * 2 ^ (places + n))
  have hfloor' := Int.lt_floor_add_one (a * 2 ^ (places + n))
  set f := ⌊a * 2 ^ (places + n)⌋ with hf
  -- one of the two integers after `a` is odd
  obtain ⟨m, hodd, hlow, hhigh⟩ : ∃ m : ℤ, Odd m ∧ f + 1 ≤ m ∧ m ≤ f + 2 := by
    rcases Int.even_or_odd f with heven | hodd
    · exact ⟨f + 1, heven.add_one, le_refl _, by omega⟩
    · exact ⟨f + 2, by simpa using hodd.add_even even_two, by omega, le_refl _⟩
  have hlow' : ((f : ℚ) + 1) ≤ m := by exact_mod_cast hlow
  have hhigh' : (m : ℚ) ≤ f + 2 := by exact_mod_cast hhigh
  refine ⟨m, places + n, by omega, hodd, ?_, ?_⟩
  · rw [lt_div_iff₀ hpos]
    linarith
  · rw [div_lt_iff₀ hpos]
    linarith

/-- Between two positive numbers there is a factor that gives another one more than `p`
bits and a fraction. -/
theorem exists_factor {a lo hi : ℚ} (p : ℕ) (ha : 0 < a) (hdyadic : IsDyadic a) (hlo : 0 < lo)
    (h : lo < hi) :
    ∃ u, lo < u ∧ u < hi ∧ IsDyadic u ∧ ¬ Representable p (a * u) ∧ ∀ z : ℤ, a * u ≠ z := by
  obtain ⟨n, j, rfl⟩ := hdyadic
  have hn : 0 < n := by
    have hpos : (0 : ℚ) < 2 ^ j := by positivity
    exact_mod_cast (div_pos_iff_of_pos_right hpos).mp ha
  obtain ⟨places, hplaces⟩ := exists_nat_gt (2 ^ p / lo + n)
  have hpower : (places : ℚ) < 2 ^ places := by exact_mod_cast Nat.lt_two_pow_self
  obtain ⟨m, k, hk, hodd, hlow, hhigh⟩ := exists_odd_between h places
  have hpos : (0 : ℚ) < 2 ^ k := by positivity
  have hgrow : (2 : ℚ) ^ places ≤ 2 ^ k := pow_le_pow_right₀ (by norm_num) hk
  have hshare : 0 < 2 ^ p / lo := by positivity
  have hm : 2 ^ p ≤ |m| := by
    rw [lt_div_iff₀ hpos] at hlow
    have hle : (2 : ℚ) ^ p ≤ lo * 2 ^ k := by
      rw [← div_le_iff₀' hlo]
      have hn' : (0 : ℚ) < n := by exact_mod_cast hn
      linarith
    have hlt : (2 : ℚ) ^ p ≤ m := hle.trans hlow.le
    have hint : (2 : ℤ) ^ p ≤ m := by exact_mod_cast hlt
    exact hint.trans (le_abs_self m)
  have hsmall : n < 2 ^ (j + k) := by
    have hle : (2 : ℚ) ^ k ≤ 2 ^ (j + k) := pow_le_pow_right₀ (by norm_num) (by omega)
    have hlt : (n : ℚ) < 2 ^ (j + k) := by linarith
    exact_mod_cast hlt
  have hproduct : (n / 2 ^ j * (m / 2 ^ k) : ℚ) = ((n * m : ℤ) / 2 ^ (j + k) : ℚ) := by
    push_cast
    rw [pow_add, div_mul_div_comm]
  refine ⟨m / 2 ^ k, hlow, hhigh, ⟨m, k, rfl⟩, ?_, ?_⟩
  · rw [hproduct]
    exact not_representable_of_odd hn.ne' hodd hm
  · intro z
    rw [hproduct]
    exact ne_intCast_of_odd hn hodd hsmall z

end Dyadic

section Share

variable {p : ℕ}

theorem kept_lt_one (p : ℕ) : kept p < 1 := by
  have hpos : (0 : ℚ) < 2 / 2 ^ p := by positivity
  unfold kept
  linarith

theorem kept_mono {q : ℕ} (h : q ≤ p) : kept q ≤ kept p := by
  have hpow : (2 : ℚ) ^ q ≤ 2 ^ p := pow_le_pow_right₀ (by norm_num) h
  have hdiv : (2 : ℚ) / 2 ^ p ≤ 2 / 2 ^ q :=
    div_le_div_of_nonneg_left (by norm_num) (by positivity) hpow
  unfold kept
  linarith

theorem half_le_kept (hp : 2 ≤ p) : 1 / 2 ≤ kept p :=
  calc
    (1 / 2 : ℚ) = kept 2 := by norm_num [kept]
    _ ≤ kept p := kept_mono hp

theorem kept_pos (hp : 2 ≤ p) : 0 < kept p := by
  have hhalf := half_le_kept hp
  linarith

end Share

theorem Truncates.pos {p : ℕ} {x y : ℚ} (h : Truncates p x y) (hp : 2 ≤ p) (hx : 0 < x) : 0 < y :=
  (mul_pos hx (kept_pos hp)).trans h.lt

theorem truncates_self {p : ℕ} {x : ℚ} (hx : 0 < x) (h : IsDyadic x) : Truncates p x x :=
  ⟨mul_lt_of_lt_one_right hx (kept_lt_one p), le_refl x, h, fun _ => rfl⟩

theorem Representable.isDyadic {p : ℕ} {x : ℚ} (h : Representable p x) : IsDyadic x := by
  obtain ⟨m, e, -, rfl⟩ := h
  exact isDyadic_mul_zpow m e

namespace Truncation

variable {p : ℕ}

theorem apply_of_representable (T : Truncation p) {x : ℚ} (hx : 0 < x) (h : Representable p x) :
    T x = x :=
  (T.truncates x hx).exact h

theorem apply_natCast (T : Truncation p) {n : ℕ} (h : n < 2 ^ p) : T n = n := by
  rcases Nat.eq_zero_or_pos n with rfl | hn
  · simpa using T.zero
  · refine T.apply_of_representable (by exact_mod_cast hn) ?_
    have habs : |(n : ℤ)| < 2 ^ p := by
      rw [abs_of_nonneg (by positivity)]
      exact_mod_cast h
    exact_mod_cast representable_intCast habs

/-- The weight of the last of the first `p` bits. -/
def lastBit (p : ℕ) (x : ℚ) : ℚ :=
  2 ^ (Int.log 2 x + 1 - p)

theorem lastBit_pos (p : ℕ) (x : ℚ) : 0 < lastBit p x :=
  zpow_pos (by norm_num) _

/-- The first `p` bits of a number that is not negative. -/
def firstBits (p : ℕ) (x : ℚ) : ℚ :=
  ⌊x / lastBit p x⌋ * lastBit p x

theorem truncates_firstBits (p : ℕ) {x : ℚ} (hx : 0 < x) : Truncates p x (firstBits p x) := by
  have hbit := lastBit_pos p x
  have hfloor := Int.floor_le (x / lastBit p x)
  have hfloor' := Int.lt_floor_add_one (x / lastBit p x)
  rw [le_div_iff₀ hbit] at hfloor
  rw [div_lt_iff₀ hbit] at hfloor'
  refine ⟨?_, hfloor, isDyadic_mul_zpow _ _, ?_⟩
  · have hlog : (2 : ℚ) ^ Int.log 2 x ≤ x := by
      exact_mod_cast Int.zpow_log_le_self (by decide) hx
    have hshare : lastBit p x ≤ x * (2 / 2 ^ p) := by
      have hsplit : lastBit p x = 2 ^ Int.log 2 x * (2 / 2 ^ p) := by
        rw [lastBit, zpow_sub₀ (by norm_num), zpow_add₀ (by norm_num), zpow_one, zpow_natCast]
        ring
      rw [hsplit]
      exact mul_le_mul_of_nonneg_right hlog (by positivity)
    unfold firstBits kept
    linarith
  · rintro ⟨m, e, hm, heq⟩
    have htwo : (2 : ℚ) ≠ 0 := by norm_num
    have hlog : Int.log 2 x < p + e := by
      rw [← Int.lt_zpow_iff_log_lt (by decide) hx, heq]
      push_cast
      rw [zpow_add₀ htwo, zpow_natCast]
      have hlt : (m : ℚ) < 2 ^ p := by exact_mod_cast (le_abs_self m).trans_lt hm
      exact mul_lt_mul_of_pos_right hlt (zpow_pos (by norm_num) _)
    obtain ⟨k, hk⟩ := Int.eq_ofNat_of_zero_le (show 0 ≤ e - (Int.log 2 x + 1 - p) by omega)
    have hwhole : x / lastBit p x = ((m * 2 ^ k : ℤ) : ℚ) := by
      rw [div_eq_iff hbit.ne', lastBit]
      push_cast
      rw [mul_assoc, ← zpow_natCast, ← zpow_add₀ htwo, ← hk, sub_add_cancel]
      exact heq
    rw [firstBits, hwhole, Int.floor_intCast, ← hwhole, div_mul_cancel₀ _ hbit.ne']

def bits (p : ℕ) : Truncation p where
  run x := if 0 ≤ x then firstBits p x else -firstBits p (-x)
  zero := by simp [firstBits]
  neg x := by
    rcases lt_trichotomy x 0 with hx | rfl | hx
    · rw [if_pos (by linarith), if_neg (by linarith), neg_neg]
    · simp [firstBits]
    · rw [if_neg (by linarith), if_pos hx.le, neg_neg]
  truncates x hx := by
    rw [if_pos hx.le]
    exact truncates_firstBits p hx

/-- The truncation with another result at one number and its negation. -/
def update (T : Truncation p) {x y : ℚ} (hx : 0 < x) (h : Truncates p x y) : Truncation p where
  run z := if z = x then y else if z = -x then -y else T z
  zero := by
    rw [if_neg hx.ne, if_neg (by linarith), T.zero]
  neg z := by
    by_cases hz : z = x
    · subst hz
      rw [if_neg (by linarith), if_pos rfl, if_pos rfl]
    · by_cases hz' : z = -x
      · subst hz'
        rw [if_pos (neg_neg x), if_neg (by linarith), if_pos rfl, neg_neg]
      · rw [if_neg (fun h => hz' (by linarith)), if_neg (fun h => hz (by linarith)),
          if_neg hz, if_neg hz', T.neg]
  truncates z hz := by
    by_cases heq : z = x
    · subst heq
      rw [if_pos rfl]
      exact h
    · rw [if_neg heq, if_neg (by linarith)]
      exact T.truncates z hz

section Update

variable {x y z : ℚ}

theorem update_self (T : Truncation p) (hx : 0 < x) (h : Truncates p x y) : T.update hx h x = y :=
  if_pos rfl

theorem update_of_ne (T : Truncation p) (hx : 0 < x) (h : Truncates p x y) (hz : 0 < z)
    (hne : z ≠ x) : T.update hx h z = T z :=
  (if_neg hne).trans (if_neg (by linarith))

end Update

end Truncation

end ScyllaDriver
