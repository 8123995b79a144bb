import ScyllaDriver.Library.FixedWidth

/-!
# Arithmetic of Tinyint, Smallint and Bigint

A `Tinyint`, a `Smallint` and a `Bigint` hold a word of 8, 16 and 64 bits. The two
narrow classes compute in `int`, store the low bits of the result, and find an
overflow of a sum, a difference or a product by undoing the operation. A Bigint
stores what the machine computes. Quotients are not checked in any of the classes.
-/

namespace ScyllaDriver
namespace Numbers

open FixedWidth

inductive ArithmeticException where
  | range (message : String)
  | divideByZero (message : String)
deriving DecidableEq

/-- What a call comes to. The processor traps a division whose quotient has no
word. -/
inductive Outcome (α : Type) where
  | returned (value : α)
  | thrown (exception : ArithmeticException)
  | trapped
deriving DecidableEq

/-! The methods as the narrow classes have them, for any width. -/

namespace Checked

variable {w : Nat}

def add (self num : BitVec w) : Outcome (BitVec w) :=
  let result := BitVec.ofInt w (self.toInt + num.toInt)
  if result.toInt - num.toInt ≠ self.toInt then
    .thrown (.range "Sum is out of range")
  else
    .returned result

def sub (self num : BitVec w) : Outcome (BitVec w) :=
  let result := BitVec.ofInt w (self.toInt - num.toInt)
  if result.toInt + num.toInt ≠ self.toInt then
    .thrown (.range "Difference is out of range")
  else
    .returned result

def mul (self num : BitVec w) : Outcome (BitVec w) :=
  let result := BitVec.ofInt w (self.toInt * num.toInt)
  if num.toInt ≠ 0 ∧ result.toInt.tdiv num.toInt ≠ self.toInt then
    .thrown (.range "Product is out of range")
  else
    .returned result

def div (self num : BitVec w) : Outcome (BitVec w) :=
  if num.toInt = 0 then
    .thrown (.divideByZero "Cannot divide by zero")
  else
    .returned (BitVec.ofInt w (self.toInt.tdiv num.toInt))

def mod (self num : BitVec w) : Outcome (BitVec w) :=
  if num.toInt = 0 then
    .thrown (.divideByZero "Cannot modulo by zero")
  else
    .returned (BitVec.ofInt w (self.toInt.tmod num.toInt))

def abs (self : BitVec w) : Outcome (BitVec w) :=
  if self.toInt = least w then
    .thrown (.range "Value doesn't exist")
  else
    .returned (if self.toInt < 0 then BitVec.ofInt w (-self.toInt) else self)

def neg (self : BitVec w) : Outcome (BitVec w) :=
  if self.toInt = least w then
    .thrown (.range "Value doesn't exist")
  else
    .returned (BitVec.ofInt w (-self.toInt))

end Checked

namespace Tinyint

def add (self num : BitVec 8) : Outcome (BitVec 8) :=
  Checked.add self num

def sub (self num : BitVec 8) : Outcome (BitVec 8) :=
  Checked.sub self num

def mul (self num : BitVec 8) : Outcome (BitVec 8) :=
  Checked.mul self num

def div (self num : BitVec 8) : Outcome (BitVec 8) :=
  Checked.div self num

def mod (self num : BitVec 8) : Outcome (BitVec 8) :=
  Checked.mod self num

def abs (self : BitVec 8) : Outcome (BitVec 8) :=
  Checked.abs self

def neg (self : BitVec 8) : Outcome (BitVec 8) :=
  Checked.neg self

end Tinyint

namespace Smallint

def add (self num : BitVec 16) : Outcome (BitVec 16) :=
  Checked.add self num

def sub (self num : BitVec 16) : Outcome (BitVec 16) :=
  Checked.sub self num

def mul (self num : BitVec 16) : Outcome (BitVec 16) :=
  Checked.mul self num

def div (self num : BitVec 16) : Outcome (BitVec 16) :=
  Checked.div self num

def mod (self num : BitVec 16) : Outcome (BitVec 16) :=
  Checked.mod self num

def abs (self : BitVec 16) : Outcome (BitVec 16) :=
  Checked.abs self

def neg (self : BitVec 16) : Outcome (BitVec 16) :=
  Checked.neg self

end Smallint

namespace Bigint

def add (self num : BitVec 64) : Outcome (BitVec 64) :=
  .returned (BitVec.ofInt 64 (self.toInt + num.toInt))

def sub (self num : BitVec 64) : Outcome (BitVec 64) :=
  .returned (BitVec.ofInt 64 (self.toInt - num.toInt))

def mul (self num : BitVec 64) : Outcome (BitVec 64) :=
  .returned (BitVec.ofInt 64 (self.toInt * num.toInt))

def div (self num : BitVec 64) : Outcome (BitVec 64) :=
  if num.toInt = 0 then
    .thrown (.divideByZero "Cannot divide by zero")
  else if self.toInt = least 64 ∧ num.toInt = -1 then
    .trapped
  else
    .returned (BitVec.ofInt 64 (self.toInt.tdiv num.toInt))

/-- The machine divides to find the remainder. -/
def mod (self num : BitVec 64) : Outcome (BitVec 64) :=
  if num.toInt = 0 then
    .thrown (.divideByZero "Cannot modulo by zero")
  else if self.toInt = least 64 ∧ num.toInt = -1 then
    .trapped
  else
    .returned (BitVec.ofInt 64 (self.toInt.tmod num.toInt))

def abs (self : BitVec 64) : Outcome (BitVec 64) :=
  Checked.abs self

def neg (self : BitVec 64) : Outcome (BitVec 64) :=
  .returned (BitVec.ofInt 64 (-self.toInt))

end Bigint

inductive IntegerClass where
  | tinyint
  | smallint
  | bigint
deriving DecidableEq

def IntegerClass.width : IntegerClass → Nat
  | .tinyint => 8
  | .smallint => 16
  | .bigint => 64

inductive Operation where
  | add
  | sub
  | mul
  | div
  | mod
  | abs
  | neg
deriving DecidableEq

namespace Operation

/-- The method of a class; `abs` and `neg` take no argument. -/
def run (op : Operation) (c : IntegerClass) : BitVec c.width → BitVec c.width →
    Outcome (BitVec c.width) :=
  match c, op with
  | .tinyint, .add => Tinyint.add
  | .tinyint, .sub => Tinyint.sub
  | .tinyint, .mul => Tinyint.mul
  | .tinyint, .div => Tinyint.div
  | .tinyint, .mod => Tinyint.mod
  | .tinyint, .abs => fun self _ => Tinyint.abs self
  | .tinyint, .neg => fun self _ => Tinyint.neg self
  | .smallint, .add => Smallint.add
  | .smallint, .sub => Smallint.sub
  | .smallint, .mul => Smallint.mul
  | .smallint, .div => Smallint.div
  | .smallint, .mod => Smallint.mod
  | .smallint, .abs => fun self _ => Smallint.abs self
  | .smallint, .neg => fun self _ => Smallint.neg self
  | .bigint, .add => Bigint.add
  | .bigint, .sub => Bigint.sub
  | .bigint, .mul => Bigint.mul
  | .bigint, .div => Bigint.div
  | .bigint, .mod => Bigint.mod
  | .bigint, .abs => fun self _ => Bigint.abs self
  | .bigint, .neg => fun self _ => Bigint.neg self

/-- The result over the integers; there is none for a divisor zero. -/
def exact (op : Operation) (a b : Int) : Option Int :=
  match op with
  | .add => some (a + b)
  | .sub => some (a - b)
  | .mul => some (a * b)
  | .div => if b = 0 then none else some (a.tdiv b)
  | .mod => if b = 0 then none else some (a.tmod b)
  | .abs => some |a|
  | .neg => some (-a)

end Operation

/-- The call returns the exact result, or raises an exception if it has no word. -/
def Outcome.Meets {w : Nat} (outcome : Outcome (BitVec w)) (exact : Option Int) : Prop :=
  ((∃ v, outcome = .returned v) ∨ ∃ e, outcome = .thrown e) ∧
    (∀ v, outcome = .returned v → exact = some v.toInt) ∧
    ((∃ e, outcome = .thrown e) ↔ ∀ x, exact = some x → ¬ Fits w x)

/-- Calls that go wrong: a quotient without a word, and in a Bigint any sum,
difference, product or negation without one. -/
def Operation.Unchecked (op : Operation) (c : IntegerClass) (a b : Int) : Prop :=
  match op, c with
  | .div, _ => a = least c.width ∧ b = -1
  | .mod, .bigint => a = least 64 ∧ b = -1
  | .add, .bigint => ¬ Fits 64 (a + b)
  | .sub, .bigint => ¬ Fits 64 (a - b)
  | .mul, .bigint => ¬ Fits 64 (a * b)
  | .neg, .bigint => a = least 64
  | _, _ => False

section

variable {w : Nat} {a b x : Int}

theorem meets_thrown_iff {e : ArithmeticException} {exact : Option Int} :
    (Outcome.thrown e : Outcome (BitVec w)).Meets exact ↔ ∀ x, exact = some x → ¬ Fits w x := by
  simp [Outcome.Meets]

theorem meets_returned_iff {v : BitVec w} {exact : Option Int} :
    (Outcome.returned v).Meets exact ↔ exact = some v.toInt := by
  have hfits := fits_toInt v
  constructor
  · intro h
    exact h.2.1 v rfl
  · rintro rfl
    simp [Outcome.Meets, hfits]

theorem not_meets_trapped {exact : Option Int} :
    ¬ (Outcome.trapped : Outcome (BitVec w)).Meets exact := by
  simp [Outcome.Meets]

theorem meets_stored_iff (hw : 0 < w) :
    (Outcome.returned (BitVec.ofInt w x)).Meets (some x) ↔ Fits w x := by
  rw [meets_returned_iff, Option.some.injEq, eq_comm, toInt_ofInt_eq_iff hw]

theorem meets_checked {e : ArithmeticException} {P : Prop} [Decidable P] (hw : 0 < w)
    (hcheck : ¬ P ↔ Fits w x) :
    (if P then Outcome.thrown e else .returned (BitVec.ofInt w x)).Meets (some x) := by
  split_ifs with h
  · rw [meets_thrown_iff]
    rintro _ ⟨⟩ hfits
    exact hcheck.mpr hfits h
  · rw [meets_stored_iff hw]
    exact hcheck.mp h

end

section

variable {w : Nat} (self num : BitVec w)

theorem Checked.add_meets (hw : 0 < w) :
    (Checked.add self num).Meets (some (self.toInt + num.toInt)) := by
  refine meets_checked hw ?_
  rw [not_not, ← toInt_ofInt_eq_iff hw]
  omega

theorem Checked.sub_meets (hw : 0 < w) :
    (Checked.sub self num).Meets (some (self.toInt - num.toInt)) := by
  refine meets_checked hw ?_
  rw [not_not, ← toInt_ofInt_eq_iff hw]
  omega

theorem Checked.mul_meets (hw : 0 < w) :
    (Checked.mul self num).Meets (some (self.toInt * num.toInt)) := by
  refine meets_checked hw ?_
  by_cases hzero : num.toInt = 0
  · have hpos : (0 : Int) < 2 ^ (w - 1) := by positivity
    simp [hzero, Fits, hpos, hpos.le]
  · simp only [ne_eq, hzero, not_false_eq_true, true_and, not_not]
    exact tdiv_ofInt_mul_eq_iff hw (fits_toInt num) hzero

theorem Checked.div_meets_iff (hw : 0 < w) :
    (Checked.div self num).Meets (Operation.div.exact self.toInt num.toInt) ↔
      ¬ (self.toInt = least w ∧ num.toInt = -1) := by
  simp only [Checked.div, Operation.exact]
  split_ifs with hzero
  · rw [meets_thrown_iff, hzero]
    simp
  · rw [meets_stored_iff hw, fits_tdiv_iff (fits_toInt self) hzero]

theorem Checked.mod_meets (hw : 0 < w) :
    (Checked.mod self num).Meets (Operation.mod.exact self.toInt num.toInt) := by
  simp only [Checked.mod, Operation.exact]
  split_ifs with hzero
  · rw [meets_thrown_iff]
    simp
  · rw [meets_stored_iff hw]
    exact fits_tmod (fits_toInt self)

theorem fits_neg_iff : Fits w (-self.toInt) ↔ self.toInt ≠ least w := by
  have hself := fits_toInt self
  unfold Fits least at *
  omega

theorem Checked.abs_meets (hw : 0 < w) : (Checked.abs self).Meets (some |self.toInt|) := by
  have hself := fits_toInt self
  have hpos : (0 : Int) < 2 ^ (w - 1) := by positivity
  unfold Checked.abs
  split_ifs with hleast hneg
  · rw [meets_thrown_iff, hleast]
    rintro _ ⟨⟩ hfits
    rw [least, abs_neg, abs_of_pos hpos] at hfits
    exact lt_irrefl _ hfits.2
  · rw [abs_of_neg hneg, meets_stored_iff hw]
    exact (fits_neg_iff self).mpr hleast
  · rw [meets_returned_iff, abs_of_nonneg (Int.not_lt.mp hneg)]

theorem Checked.neg_meets (hw : 0 < w) : (Checked.neg self).Meets (some (-self.toInt)) := by
  refine meets_checked hw ?_
  rw [fits_neg_iff]

end

/-- The checked method of an operation. -/
def Operation.runChecked {w : Nat} (op : Operation) (self num : BitVec w) : Outcome (BitVec w) :=
  match op with
  | .add => Checked.add self num
  | .sub => Checked.sub self num
  | .mul => Checked.mul self num
  | .div => Checked.div self num
  | .mod => Checked.mod self num
  | .abs => Checked.abs self
  | .neg => Checked.neg self

/-- The checks miss the one quotient without a word, and nothing else. -/
theorem runChecked_meets_iff {w : Nat} (op : Operation) (self num : BitVec w) (hw : 0 < w) :
    (op.runChecked self num).Meets (op.exact self.toInt num.toInt) ↔
      ¬ (op = .div ∧ self.toInt = least w ∧ num.toInt = -1) := by
  cases op with
  | add => exact iff_of_true (Checked.add_meets self num hw) (by simp)
  | sub => exact iff_of_true (Checked.sub_meets self num hw) (by simp)
  | mul => exact iff_of_true (Checked.mul_meets self num hw) (by simp)
  | div =>
    rw [and_iff_right rfl]
    exact Checked.div_meets_iff self num hw
  | mod => exact iff_of_true (Checked.mod_meets self num hw) (by simp)
  | abs => exact iff_of_true (Checked.abs_meets self hw) (by simp)
  | neg => exact iff_of_true (Checked.neg_meets self hw) (by simp)

theorem run_eq_runChecked (op : Operation) {c : IntegerClass} (hc : c ≠ .bigint)
    (self num : BitVec c.width) : op.run c self num = op.runChecked self num := by
  cases c with
  | tinyint | smallint => cases op <;> rfl
  | bigint => exact absurd rfl hc

section

variable (self num : BitVec 64)

theorem Bigint.div_meets_iff :
    (Bigint.div self num).Meets (Operation.div.exact self.toInt num.toInt) ↔
      ¬ (self.toInt = least 64 ∧ num.toInt = -1) := by
  rw [← Checked.div_meets_iff self num (by decide)]
  unfold Bigint.div Checked.div
  split_ifs with hzero hleast
  · exact Iff.rfl
  · refine iff_of_false not_meets_trapped ?_
    rw [Operation.exact, if_neg hzero, meets_stored_iff (by decide),
      fits_tdiv_iff (fits_toInt self) hzero]
    exact not_not.mpr hleast
  · exact Iff.rfl

theorem Bigint.mod_meets_iff :
    (Bigint.mod self num).Meets (Operation.mod.exact self.toInt num.toInt) ↔
      ¬ (self.toInt = least 64 ∧ num.toInt = -1) := by
  have hmod := Checked.mod_meets self num (by decide)
  unfold Checked.mod at hmod
  unfold Bigint.mod
  split_ifs at hmod ⊢ with hzero hleast
  · refine iff_of_true hmod ?_
    omega
  · exact iff_of_false not_meets_trapped (not_not.mpr hleast)
  · exact iff_of_true hmod hleast

end

theorem run_bigint_meets_iff (op : Operation) (self num : BitVec 64) :
    (op.run .bigint self num).Meets (op.exact self.toInt num.toInt) ↔
      ¬ op.Unchecked .bigint self.toInt num.toInt := by
  cases op with
  | add | sub | mul => exact (meets_stored_iff (by decide)).trans not_not.symm
  | div => exact Bigint.div_meets_iff self num
  | mod => exact Bigint.mod_meets_iff self num
  | abs => exact iff_of_true (Checked.abs_meets self (by decide)) (by simp [Operation.Unchecked])
  | neg => exact (meets_stored_iff (by decide)).trans (fits_neg_iff self)

/--
Where the arithmetic of the fixed-width classes is right.

A call returns the exact result, or raises an exception exactly if the result has no
word or the divisor is zero, unless it is one of the unchecked calls.
-/
theorem arithmetic_meets_iff
    (op : Operation)
    (c : IntegerClass)
    (self num : BitVec c.width) :
    (op.run c self num).Meets (op.exact self.toInt num.toInt) ↔
      ¬ op.Unchecked c self.toInt num.toInt := by
  by_cases hc : c = .bigint
  · subst hc
    exact run_bigint_meets_iff op self num
  · have hw : 0 < c.width := by cases c <;> decide
    have hflaw : op.Unchecked c self.toInt num.toInt ↔
        op = .div ∧ self.toInt = least c.width ∧ num.toInt = -1 := by
      cases c <;> cases op <;> simp_all [Operation.Unchecked]
    rw [run_eq_runChecked op hc, runChecked_meets_iff op self num hw, hflaw]

/-- `-128 / -1` is -128 in a Tinyint, and the largest Bigint plus one is the
smallest. -/
theorem quotient_and_sum_wrap :
    Tinyint.div (BitVec.ofInt 8 (-128)) (BitVec.ofInt 8 (-1)) =
        .returned (BitVec.ofInt 8 (-128)) ∧
      ¬ (Tinyint.div (BitVec.ofInt 8 (-128)) (BitVec.ofInt 8 (-1))).Meets
        (Operation.div.exact (-128) (-1)) ∧
      Bigint.add (BitVec.ofInt 64 (2 ^ 63 - 1)) (BitVec.ofInt 64 1) =
        .returned (BitVec.ofInt 64 (-2 ^ 63)) ∧
      ¬ (Bigint.add (BitVec.ofInt 64 (2 ^ 63 - 1)) (BitVec.ofInt 64 1)).Meets
        (Operation.add.exact (2 ^ 63 - 1) 1) := by
  have hquotient : Tinyint.div (BitVec.ofInt 8 (-128)) (BitVec.ofInt 8 (-1)) =
      .returned (BitVec.ofInt 8 (-128)) := by decide
  have hsum : Bigint.add (BitVec.ofInt 64 (2 ^ 63 - 1)) (BitVec.ofInt 64 1) =
      .returned (BitVec.ofInt 64 (-2 ^ 63)) := by decide
  refine ⟨hquotient, ?_, hsum, ?_⟩
  · rw [hquotient, meets_returned_iff]
    decide
  · rw [hsum, meets_returned_iff]
    decide

end Numbers
end ScyllaDriver
