import ScyllaDriver.Library.FixedWidth

/-!
# Arithmetic with an overflow flag

A computation on words in which every operation reports whether its result fits, and all
reports are gathered in one flag. If the flag stays down, the word is the integer that
exact arithmetic gives; it stays down exactly if every intermediate integer fits.
-/

namespace ScyllaDriver
namespace FixedWidth

/-- A word, and whether an operation on the way to it overflowed. -/
structure Checked (w : Nat) where
  overflow : Bool
  value : BitVec w
  deriving DecidableEq

namespace Checked

variable {w : Nat}

def start (value : BitVec w) : Checked w :=
  ⟨false, value⟩

/-- `__builtin_mul_overflow` by a constant. -/
def mul (c : Checked w) (k : Int) : Checked w :=
  ⟨c.overflow || !decide (Fits w (c.value.toInt * k)), BitVec.ofInt w (c.value.toInt * k)⟩

/-- `__builtin_add_overflow`. -/
def add (c d : Checked w) : Checked w :=
  ⟨c.overflow || d.overflow || !decide (Fits w (c.value.toInt + d.value.toInt)),
    BitVec.ofInt w (c.value.toInt + d.value.toInt)⟩

/-- The computation stands for an integer, as long as a condition holds. -/
structure Computes (c : Checked w) (x : Int) (fits : Prop) : Prop where
  overflow_iff : c.overflow = false ↔ fits
  exact : fits → c.value.toInt = x

theorem Computes.of_iff {c : Checked w} {x : Int} {fits fits' : Prop} (h : Computes c x fits)
    (hiff : fits ↔ fits') : Computes c x fits' :=
  ⟨h.overflow_iff.trans hiff, fun hfits => h.exact (hiff.mpr hfits)⟩

theorem computes_start (value : BitVec w) : Computes (start value) value.toInt True :=
  ⟨by simp [start], fun _ => rfl⟩

theorem computes_of_step {overflow : Bool} {result x : Int} {fits : Prop} (hw : 0 < w)
    (hbefore : overflow = false ↔ fits) (hresult : fits → result = x) :
    Computes (⟨overflow || !decide (Fits w result), BitVec.ofInt w result⟩ : Checked w) x
      (fits ∧ Fits w x) := by
  constructor
  · simp only [Bool.or_eq_false_iff, Bool.not_eq_false', decide_eq_true_eq, hbefore]
    constructor
    · rintro ⟨hfits, hstep⟩
      exact ⟨hfits, hresult hfits ▸ hstep⟩
    · rintro ⟨hfits, hstep⟩
      exact ⟨hfits, (hresult hfits).symm ▸ hstep⟩
  · rintro ⟨hfits, hstep⟩
    rw [hresult hfits]
    exact toInt_ofInt_of_fits hw hstep

theorem Computes.mul {c : Checked w} {x : Int} {fits : Prop} (hw : 0 < w) (h : Computes c x fits)
    (k : Int) : Computes (c.mul k) (x * k) (fits ∧ Fits w (x * k)) :=
  computes_of_step hw h.overflow_iff fun hfits => by rw [h.exact hfits]

theorem Computes.add {c d : Checked w} {x y : Int} {fits fits' : Prop} (hw : 0 < w)
    (h : Computes c x fits) (h' : Computes d y fits') :
    Computes (c.add d) (x + y) ((fits ∧ fits') ∧ Fits w (x + y)) := by
  refine computes_of_step hw ?_ fun hfits => by rw [h.exact hfits.1, h'.exact hfits.2]
  rw [Bool.or_eq_false_iff, h.overflow_iff, h'.overflow_iff]

end Checked

end FixedWidth
end ScyllaDriver
