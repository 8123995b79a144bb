import Mathlib.Data.Nat.Digits.Lemmas
import Mathlib.Tactic

/-!
# Positional notation, most significant digit first

Mathlib's `Nat.digits` and `Nat.ofDigits` put the least significant digit
first. Text and wire formats are written the other way round, so this module
fixes the reversed reading and the facts a codec needs:

* the value of a digit word splits at every append;
* a word of length `k` over base `b` is below `b ^ k`;
* the digits of a positive number start with a nonzero digit, so the length
  of the word brackets the number between two powers of the base.

Nothing here depends on what the digits are used for.
-/

namespace ScyllaDriver
namespace Positional

/-- Value of a digit word whose first digit is the most significant one. -/
def value (b : Nat) (ds : List Nat) : Nat :=
  Nat.ofDigits b ds.reverse

/-- Digit word of a number, most significant digit first; empty for zero. -/
def digits (b n : Nat) : List Nat :=
  (Nat.digits b n).reverse

@[simp] theorem value_nil (b : Nat) : value b [] = 0 := by
  simp [value]

theorem value_append (b : Nat) (xs ys : List Nat) :
    value b (xs ++ ys) = value b xs * b ^ ys.length + value b ys := by
  simp only [value, List.reverse_append, Nat.ofDigits_append, List.length_reverse]
  ring

@[simp] theorem value_singleton (b d : Nat) : value b [d] = d := by
  simp [value]

theorem value_cons (b d : Nat) (ds : List Nat) :
    value b (d :: ds) = d * b ^ ds.length + value b ds := by
  have h := value_append b [d] ds
  simpa using h

@[simp] theorem value_replicate_zero (b k : Nat) : value b (List.replicate k 0) = 0 := by
  induction k with
  | zero =>
    simp
  | succ k ih =>
    rw [List.replicate_succ, value_cons, ih]
    simp

theorem value_lt {b : Nat} (hb : 1 < b) {ds : List Nat} (hds : ∀ d ∈ ds, d < b) :
    value b ds < b ^ ds.length := by
  have h :=
    Nat.ofDigits_lt_base_pow_length (l := ds.reverse) hb
      (fun x hx => hds x (List.mem_reverse.mp hx))
  simpa [value] using h

@[simp] theorem value_digits (b n : Nat) : value b (digits b n) = n := by
  simp [value, digits, Nat.ofDigits_digits]

theorem digits_lt {b n : Nat} (hb : 1 < b) : ∀ d ∈ digits b n, d < b := by
  intro d hd
  exact Nat.digits_lt_base hb (List.mem_reverse.mp hd)

theorem digits_length_le_iff {b : Nat} (hb : 1 < b) (k n : Nat) :
    (digits b n).length ≤ k ↔ n < b ^ k := by
  simp [digits, Nat.digits_length_le_iff hb]

theorem lt_digits_length_iff {b : Nat} (hb : 1 < b) (k n : Nat) :
    k < (digits b n).length ↔ b ^ k ≤ n := by
  simp [digits, Nat.lt_digits_length_iff hb]

theorem digits_length_eq {b : Nat} (hb : 1 < b) {k n : Nat} (hlow : b ^ k ≤ n)
    (hhigh : n < b ^ (k + 1)) : (digits b n).length = k + 1 := by
  have h₁ := (lt_digits_length_iff hb k n).mpr hlow
  have h₂ := (digits_length_le_iff hb (k + 1) n).mpr hhigh
  omega

theorem digits_eq_cons (b : Nat) {n : Nat} (hn : n ≠ 0) : ∃ d ds, digits b n = d :: ds ∧ d ≠ 0 := by
  have hne : Nat.digits b n ≠ [] := by
    simpa [Nat.digits_eq_nil_iff_eq_zero] using hn
  refine
    ⟨(Nat.digits b n).getLast hne,
      (Nat.digits b n).dropLast.reverse, ?_,
      Nat.getLast_digit_ne_zero b hn⟩
  unfold digits
  conv_lhs =>
    rw [← List.dropLast_append_getLast hne]
  simp

theorem digits_value {b : Nat} (hb : 1 < b) {d : Nat} {ds : List Nat} (hds : ∀ x ∈ d :: ds, x < b)
    (hd : d ≠ 0) : digits b (value b (d :: ds)) = d :: ds := by
  unfold digits value
  rw [Nat.digits_ofDigits b hb]
  · simp
  · intro x hx
    exact hds x (List.mem_reverse.mp hx)
  · intro hne
    simpa using hd

theorem pow_le_value_cons (b : Nat) {d : Nat} (hd : d ≠ 0) (ds : List Nat) :
    b ^ ds.length ≤ value b (d :: ds) := by
  rw [value_cons]
  have h : 1 * b ^ ds.length ≤ d * b ^ ds.length :=
    Nat.mul_le_mul_right _ (Nat.one_le_iff_ne_zero.mpr hd)
  omega

/-- The leading digit reaches `t` exactly when the number reaches `t` times
the weight of that digit. -/
theorem le_head_iff {b : Nat} (hb : 1 < b) {d : Nat} {ds : List Nat} (hds : ∀ x ∈ ds, x < b)
    (t : Nat) : t ≤ d ↔ t * b ^ ds.length ≤ value b (d :: ds) := by
  have hlt := value_lt hb hds
  rw [value_cons]
  constructor
  · intro h
    have := Nat.mul_le_mul_right (b ^ ds.length) h
    omega
  · intro h
    by_contra hlow
    have h₁ : d + 1 ≤ t := by omega
    have h₂ := Nat.mul_le_mul_right (b ^ ds.length) h₁
    rw [Nat.add_mul] at h₂
    omega

end Positional
end ScyllaDriver
