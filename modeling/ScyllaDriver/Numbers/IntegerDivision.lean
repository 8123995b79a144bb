import ScyllaDriver.Numbers.IntegerArithmetic

/-!
# Quotient and remainder in the integer classes

The fixed-width classes divide as C does, towards zero, and their remainder has the
sign of the dividend. A Varint divides with `mpz_div`, which rounds down, and its
remainder comes from `mpz_mod`, which is never negative. The two functions of GMP
belong together only for a positive divisor.
-/

namespace ScyllaDriver
namespace Numbers

open FixedWidth

namespace Varint

def div (self num : Int) : Outcome Int :=
  if num = 0 then
    .thrown (.divideByZero "Cannot divide by zero")
  else
    -- `mpz_div` is `mpz_fdiv_q`
    .returned (self.fdiv num)

def mod (self num : Int) : Outcome Int :=
  if num = 0 then
    .thrown (.divideByZero "Cannot modulo by zero")
  else
    .returned (self % num)

end Varint

inductive NumericClass where
  | fixed (c : IntegerClass)
  | varint
deriving DecidableEq

def Outcome.map {α β : Type} (f : α → β) : Outcome α → Outcome β
  | .returned value => .returned (f value)
  | .thrown exception => .thrown exception
  | .trapped => .trapped

namespace NumericClass

/-- An object of the class can hold the integer. -/
def Holds : NumericClass → Int → Prop
  | .fixed c, x => Fits c.width x
  | .varint, _ => True

instance : (c : NumericClass) → (x : Int) → Decidable (c.Holds x)
  | .fixed c, x => inferInstanceAs (Decidable (Fits c.width x))
  | .varint, _ => inferInstanceAs (Decidable True)

/-- `div` on objects that hold the integers. -/
def div : NumericClass → Int → Int → Outcome Int
  | .fixed c, a, b =>
    (Operation.div.run c (BitVec.ofInt c.width a) (BitVec.ofInt c.width b)).map BitVec.toInt
  | .varint, a, b => Varint.div a b

/-- `mod` on objects that hold the integers. -/
def mod : NumericClass → Int → Int → Outcome Int
  | .fixed c, a, b =>
    (Operation.mod.run c (BitVec.ofInt c.width a) (BitVec.ofInt c.width b)).map BitVec.toInt
  | .varint, a, b => Varint.mod a b

/-- The class holds the operands and the quotient. -/
def Suits (c : NumericClass) (a b : Int) : Prop :=
  c.Holds a ∧ c.Holds b ∧ c.Holds (a.tdiv b)

end NumericClass

/-- Quotient and remainder belong together in every class that suits, and are the
same in all of them. -/
def DivisionAgrees (a b : Int) : Prop :=
  (∀ c : NumericClass, c.Suits a b →
    ∃ q r, c.div a b = .returned q ∧ c.mod a b = .returned r ∧ a = q * b + r ∧ |r| < |b|) ∧
  ∀ c c' : NumericClass, c.Suits a b → c'.Suits a b →
    c.div a b = c'.div a b ∧ c.mod a b = c'.mod a b

section

variable {a b : Int}

theorem width_pos (c : IntegerClass) : 0 < c.width := by
  cases c <;> decide

theorem run_division {c : IntegerClass} (self num : BitVec c.width) (hzero : num.toInt ≠ 0)
    (hleast : ¬ (self.toInt = least c.width ∧ num.toInt = -1)) :
    Operation.div.run c self num = .returned (BitVec.ofInt c.width (self.toInt.tdiv num.toInt)) ∧
      Operation.mod.run c self num =
        .returned (BitVec.ofInt c.width (self.toInt.tmod num.toInt)) := by
  cases c with
  | tinyint | smallint => exact ⟨if_neg hzero, if_neg hzero⟩
  | bigint =>
    refine ⟨?_, ?_⟩
    · exact (if_neg hzero).trans (if_neg hleast)
    · exact (if_neg hzero).trans (if_neg hleast)

theorem fixed_division {c : IntegerClass} (h : (NumericClass.fixed c).Suits a b) (hb : b ≠ 0) :
    (NumericClass.fixed c).div a b = .returned (a.tdiv b) ∧
      (NumericClass.fixed c).mod a b = .returned (a.tmod b) := by
  obtain ⟨ha, hb', hquotient⟩ := h
  have hw := width_pos c
  have htoA := toInt_ofInt_of_fits hw ha
  have htoB := toInt_ofInt_of_fits hw hb'
  have hleast := (fits_tdiv_iff ha hb).mp hquotient
  obtain ⟨hdiv, hmod⟩ := run_division (BitVec.ofInt c.width a)
    (BitVec.ofInt c.width b) (by rw [htoB]; exact hb) (by rw [htoA, htoB]; exact hleast)
  rw [htoA, htoB] at hdiv hmod
  constructor
  · rw [NumericClass.div, hdiv, Outcome.map, toInt_ofInt_of_fits hw hquotient]
  · rw [NumericClass.mod, hmod, Outcome.map, toInt_ofInt_of_fits hw (fits_tmod ha)]

theorem varint_division (hb : b ≠ 0) :
    NumericClass.varint.div a b = .returned (a.fdiv b) ∧
      NumericClass.varint.mod a b = .returned (a % b) := by
  simp [NumericClass.div, NumericClass.mod, Varint.div, Varint.mod, hb]

theorem bigint_suits {c : IntegerClass} (h : (NumericClass.fixed c).Suits a b) :
    (NumericClass.fixed .bigint).Suits a b := by
  have hwider : ∀ x, Fits c.width x → Fits 64 x := by
    intro x hx
    unfold Fits at hx ⊢
    cases c <;> simp only [IntegerClass.width] at hx ⊢ <;> omega
  exact ⟨hwider _ h.1, hwider _ h.2.1, hwider _ h.2.2⟩

/-- The quotient rounded down and the remainder that is not negative belong together
for a positive divisor, or if the division has no remainder. -/
theorem varint_identity_iff (hb : b ≠ 0) :
    (a = a.fdiv b * b + a % b ∧ |a % b| < |b|) ↔ b ∣ a ∨ 0 < b := by
  have hsum := Int.mul_fdiv_add_fmod a b
  have hrest := Int.fmod_eq_emod (a := a) (b := b)
  have hsmall : |a % b| < |b| := by
    rw [abs_of_nonneg (Int.emod_nonneg a hb)]
    exact Int.emod_lt_abs a hb
  rw [and_iff_left hsmall, mul_comm]
  split_ifs at hrest with h
  · have hfine : b ∣ a ∨ 0 < b := by
      rcases h with h | h
      · exact .inr (by omega)
      · exact .inl h
    exact iff_of_true (by omega) hfine
  · refine iff_of_false (by omega) ?_
    rintro (hdvd | hpos)
    · exact h (.inr hdvd)
    · exact h (.inl hpos.le)

/-- Both divisions give the same quotient and remainder if there is no remainder or
neither operand is negative. -/
theorem trunc_eq_floor_iff (hb : b ≠ 0) :
    (a.tdiv b = a.fdiv b ∧ a.tmod b = a % b) ↔ b ∣ a ∨ (0 ≤ a ∧ 0 < b) := by
  rw [Int.tdiv_eq_fdiv, Int.tmod_eq_emod]
  by_cases hdvd : b ∣ a
  · simp [hdvd]
  · rcases lt_or_gt_of_ne hb with hneg | hpos
    · -- one of the two differs, depending on the sign of the dividend
      have hsign : b.sign = -1 := Int.sign_eq_neg_one_of_neg hneg
      simp only [hdvd, if_false, hsign, or_false, false_or]
      split_ifs <;> omega
    · have hsign : b.sign = 1 := Int.sign_eq_one_of_pos hpos
      simp only [hdvd, if_false, hsign, or_false, false_or]
      split_ifs <;> omega

end

/--
Where division agrees in all classes: there is no remainder, or the divisor is
positive and the dividend is not negative. For integers that only a Varint holds, the
sign of the dividend does not matter.
-/
theorem divisionAgrees_iff
    (a b : Int)
    (hb : b ≠ 0) :
    DivisionAgrees a b ↔
      b ∣ a ∨ (0 < b ∧ (0 ≤ a ∨ ¬ (Fits 64 a ∧ Fits 64 b))) := by
  obtain ⟨hdiv, hmod⟩ := varint_division (a := a) hb
  have hvarint : NumericClass.varint.Suits a b := ⟨trivial, trivial, trivial⟩
  constructor
  · rintro ⟨hidentity, hsame⟩
    obtain ⟨q, r, hq, hr, heq⟩ := hidentity .varint hvarint
    obtain rfl := Outcome.returned.inj (hdiv.symm.trans hq)
    obtain rfl := Outcome.returned.inj (hmod.symm.trans hr)
    rcases (varint_identity_iff hb).mp heq with hdvd | hpos
    · exact .inl hdvd
    · by_cases hfits : Fits 64 a ∧ Fits 64 b
      · -- a Bigint holds them too, and its quotient
        have hquotient : Fits 64 (a.tdiv b) := (fits_tdiv_iff hfits.1 hb).mpr (by omega)
        have hbigint : (NumericClass.fixed .bigint).Suits a b := ⟨hfits.1, hfits.2, hquotient⟩
        obtain ⟨hdivF, hmodF⟩ := fixed_division hbigint hb
        obtain ⟨hsameDiv, hsameMod⟩ := hsame _ _ hbigint hvarint
        rw [hdivF, hdiv] at hsameDiv
        rw [hmodF, hmod] at hsameMod
        rcases (trunc_eq_floor_iff hb).mp
          ⟨Outcome.returned.inj hsameDiv, Outcome.returned.inj hsameMod⟩ with hdvd | hsign
        · exact .inl hdvd
        · exact .inr ⟨hpos, .inl hsign.1⟩
      · exact .inr ⟨hpos, .inr hfits⟩
  · intro h
    have hfloor : a = a.fdiv b * b + a % b ∧ |a % b| < |b| :=
      (varint_identity_iff hb).mpr (h.imp_right And.left)
    -- a class of fixed width returns what a Varint returns
    have hfixed : ∀ c : NumericClass, c.Suits a b →
        c.div a b = .returned (a.fdiv b) ∧ c.mod a b = .returned (a % b) := by
      intro c hc
      cases c with
      | varint => exact ⟨hdiv, hmod⟩
      | fixed c =>
        have hbigint := bigint_suits hc
        have hsign : b ∣ a ∨ (0 ≤ a ∧ 0 < b) := by
          rcases h with hdvd | ⟨hpos, hnonneg | hlarge⟩
          · exact .inl hdvd
          · exact .inr ⟨hnonneg, hpos⟩
          · exact absurd ⟨hbigint.1, hbigint.2.1⟩ hlarge
        obtain ⟨hquotient, hrest⟩ := (trunc_eq_floor_iff hb).mpr hsign
        rw [← hquotient, ← hrest]
        exact fixed_division hc hb
    refine ⟨fun c hc => ?_, fun c c' hc hc' => ?_⟩
    · exact ⟨_, _, (hfixed c hc).1, (hfixed c hc).2, hfloor⟩
    · rw [(hfixed c hc).1, (hfixed c hc).2, (hfixed c' hc').1, (hfixed c' hc').2]
      exact ⟨rfl, rfl⟩

theorem divisionAgrees_seven_two :
    (2 : Int) ≠ 0 ∧ DivisionAgrees 7 2 :=
  ⟨by decide, (divisionAgrees_iff 7 2 (by decide)).mpr (by decide)⟩

/-- -7 divided by 2 is -3 with remainder -1 in a Bigint and -4 with remainder 1 in a
Varint; and -7 divided by -2 is 3 with remainder 1 in a Varint, which makes -5. -/
theorem division_of_negative_disagrees :
    NumericClass.div (.fixed .bigint) (-7) 2 = .returned (-3) ∧
      NumericClass.div .varint (-7) 2 = .returned (-4) ∧
      NumericClass.div .varint (-7) (-2) = .returned 3 ∧
      NumericClass.mod .varint (-7) (-2) = .returned 1 ∧
      ¬ DivisionAgrees (-7) 2 ∧ ¬ DivisionAgrees (-7) (-2) := by
  refine ⟨by decide, by decide, by decide, by decide, ?_, ?_⟩
  · rintro ⟨-, hsame⟩
    have h := (hsame (.fixed .bigint) .varint ⟨by decide, by decide, by decide⟩
      ⟨trivial, trivial, trivial⟩).1
    exact absurd h (by decide)
  · rintro ⟨hidentity, -⟩
    obtain ⟨q, r, hq, hr, heq, -⟩ := hidentity .varint ⟨trivial, trivial, trivial⟩
    obtain rfl : 3 = q := Outcome.returned.inj hq
    obtain rfl : 1 = r := Outcome.returned.inj hr
    exact absurd heq (by decide)

end Numbers
end ScyllaDriver
