import ScyllaDriver.Library.FixedWidth
import ScyllaDriver.Numbers.BigintText

/-!
# The constructors of Tinyint and Smallint

Both constructors check the range on a number of 32 bits. An integer of PHP is cut to
32 bits before, and so is the number that `strtoul` reads from a string: an integer
far out of range can come back into it.
-/

namespace ScyllaDriver
namespace Numbers

open Positional CString FixedWidth

inductive InitArgument (w : Nat) where
  /-- an object of the same class -/
  | object (value : BitVec w)
  | long (value : BitVec 64)
  | double (bits : BitVec 64)
  | string (s : Bytes)
  | otherObject
  | other

def InitArgument.given {w : Nat} : InitArgument w → String
  | .object _ => "an instance of %.*s"
  | .long _ => "%ld"
  | .double _ => "%g"
  | .string _ => "%s"
  | .otherObject => "an instance of %.*s"
  | .other => "%Z"

def betweenText (bounds given : String) : String :=
  "value must be between " ++ bounds ++ ", " ++ given ++ " given"

def initExpected (className given : String) : String :=
  "value must be a long, a double, a numeric string or a " ++ className ++ ", " ++ given ++ " given"

section

-- the conversion of a double to 32 bits, which C leaves open outside their range
variable (castDouble : BitVec 64 → BitVec 32)

/-- The last part of the constructor: check the range, keep the low bits. -/
def storeNarrow (w : Nat) (message : String) (number : Int) : Except Thrown (BitVec w) :=
  if ¬ Fits w number then .error (.range message) else .ok (BitVec.ofInt w number)

/-- The branch for a string, after `php_scylladb_parse_int`. -/
def storeParsed (w : Nat) (message : String) : ParsedInt → Except Thrown (BitVec w)
  | .erange => .error (.range message)
  | .thrown e => .error e
  | .number n => storeNarrow w message n

/-- The constructor as both classes have it. -/
def narrowInit (w : Nat) (className bounds : String) (argument : InitArgument w) :
    Except Thrown (BitVec w) :=
  match argument with
  | .object value => .ok value
  | .long value =>
    storeNarrow w (betweenText bounds argument.given) (BitVec.ofInt 32 value.toInt).toInt
  | .double bits => storeNarrow w (betweenText bounds argument.given) (castDouble bits).toInt
  | .string s => storeParsed w (betweenText bounds argument.given) (parseInt s)
  | _ => .error (.invalidArgument (initExpected className argument.given))

/-- `php_scylladb_tinyint_init`. -/
def Tinyint.init : InitArgument 8 → Except Thrown (BitVec 8) :=
  narrowInit castDouble 8 "Cassandra\\Tinyint" "-128 and 127"

/-- `php_scylladb_smallint_init`. -/
def Smallint.init : InitArgument 16 → Except Thrown (BitVec 16) :=
  narrowInit castDouble 16 "Cassandra\\Smallint" "-32768 and 32767"

end

/-- The object holds the integer, or a range exception says that it has no word. -/
def Constructed {w : Nat} (outcome : Except Thrown (BitVec w)) (z : Int) : Prop :=
  if Fits w z then outcome = .ok (BitVec.ofInt w z)
  else ∃ message, outcome = .error (.range message)

/-- The integer is out of range but comes back into it when it is cut to 32 bits. -/
def Returns (w : Nat) (z cut : Int) : Prop :=
  ¬ Fits w z ∧ Fits w cut

section

variable {w : Nat} {z x : Int} {s : Bytes}

theorem constructed_store_iff {message : String} (hsame : Fits w z → x = z) :
    Constructed (storeNarrow w message x) z ↔ ¬ Returns w z x := by
  unfold Constructed storeNarrow Returns
  by_cases hz : Fits w z
  · rw [hsame hz]
    simp [hz]
  · by_cases hx : Fits w x <;> simp [hz, hx]

theorem fits_32 (hw : w ≤ 32) (h : Fits w z) : Fits 32 z := by
  have hpow : (2 : Int) ^ (w - 1) ≤ 2 ^ (32 - 1) := pow_le_pow_right₀ (by norm_num) (by omega)
  exact ⟨by linarith [h.1], by linarith [h.2]⟩

theorem constructed_long_iff {message : String} {n : BitVec 64} (hnarrow : w ≤ 32) :
    Constructed (storeNarrow w message (BitVec.ofInt 32 n.toInt).toInt) n.toInt ↔
      ¬ Returns w n.toInt (n.toInt.bmod (2 ^ 32)) := by
  rw [BitVec.toInt_ofInt]
  refine constructed_store_iff fun h => ?_
  rw [← BitVec.toInt_ofInt]
  exact toInt_ofInt_of_fits (by decide) (fits_32 hnarrow h)

theorem intOf_of_fits {negative : Bool} {temp : Nat} (h : Fits 32 (signed negative temp)) :
    intOf negative temp = (signed negative temp, false) := by
  obtain ⟨hlow, hhigh⟩ := h
  cases negative with
  | true =>
    simp only [signed, if_true] at hlow hhigh ⊢
    simp only [intOf, if_true]
    split_ifs with habove hlast
    · omega
    · rw [hlast]
      rfl
    · rfl
  | false =>
    simp only [signed, Bool.false_eq_true, if_false] at hlow hhigh ⊢
    simp only [intOf, Bool.false_eq_true, if_false]
    split_ifs with habove
    · omega
    · rfl

theorem intOf_of_not_fits {negative : Bool} {temp : Nat} (h : ¬ Fits 32 (signed negative temp)) :
    (intOf negative temp).2 = true := by
  unfold Fits at h
  cases negative with
  | true =>
    simp only [signed, if_true] at h
    simp only [intOf, if_true]
    rw [if_pos (by omega)]
  | false =>
    simp only [signed, Bool.false_eq_true, if_false] at h
    simp only [intOf, Bool.false_eq_true, if_false]
    rw [if_pos (by omega)]

theorem signed_mod (negative : Bool) (n : Nat) :
    signed negative (n % 2 ^ 32) = (signed negative n).tmod (2 ^ 32) := by
  have hcast : ((n % 2 ^ 32 : Nat) : Int) = (n : Int).tmod (2 ^ 32) := by
    rw [Int.tmod_eq_emod_of_nonneg (by omega)]
    push_cast
    rfl
  cases negative with
  | true => rw [signed, signed, if_pos rfl, if_pos rfl, Int.neg_tmod, hcast]
  | false => exact hcast

theorem tmod_of_fits (h : Fits 32 z) : z.tmod (2 ^ 32) = z := by
  obtain ⟨hlow, hhigh⟩ := h
  rcases Int.le_total 0 z with hsign | hsign
  · exact Int.tmod_eq_of_lt hsign (by omega)
  · have hneg : (-z).tmod (2 ^ 32) = -z := Int.tmod_eq_of_lt (by omega) (by omega)
    rw [Int.neg_tmod] at hneg
    omega

/-- What `php_scylladb_parse_int` makes of a literal: the magnitude is cut to 32 bits,
unless `strtoul` has no word for it. -/
theorem parseInt_literal (hshort : s.length < 2 ^ 31) (h : Written Accepted s z) :
    parseInt s =
      if z.natAbs < 2 ^ 64 ∧ Fits 32 (z.tmod (2 ^ 32)) then .number (z.tmod (2 ^ 32))
      else .erange := by
  have hin : inLen s = s.length := toInt32_of_lt hshort
  have hwhole : seen s = s := h.seen_eq
  have hprepared := exists_prepared (by rw [strlen_eq, hwhole, hin]) (hwhole.symm ▸ h)
  rw [hwhole] at hprepared
  obtain ⟨pos, negative, base, n, hprepared, hpos, hdigit, hread, rfl⟩ := hprepared
  have hseen : seen (s.drop pos) = s.drop pos := by
    rw [seen_drop s (by rw [hwhole]; exact hpos), hwhole]
  have hlength : (s.drop pos).length = s.length - pos := List.length_drop
  have hne : (s.drop pos).length ≠ 0 := by
    intro hzero
    rw [List.length_eq_zero_iff.mp hzero] at hdigit
    exact absurd hdigit (by decide)
  have habs : (signed negative n).natAbs = n := by
    cases negative <;> simp [signed]
  rw [parseInt, hprepared, thenConvertInt, habs, ← signed_mod]
  unfold convertInt
  rw [strtoull_of_digit hseen hdigit, hread]
  dsimp only
  rw [if_neg hne, hin]
  by_cases hmax : n < 2 ^ 64
  · have hle : ¬ ullongMax < n := by
      unfold ullongMax
      omega
    simp only [if_neg hle]
    by_cases hfits : Fits 32 (signed negative (n % 2 ^ 32))
    · rw [intOf_of_fits hfits, if_neg (by simp), if_neg hne, if_neg (by omega),
        if_pos ⟨hmax, hfits⟩]
    · rw [if_pos (.inr (intOf_of_not_fits hfits)), if_neg fun h => hfits h.2]
  · have hlt : ullongMax < n := by
      unfold ullongMax
      omega
    simp only [if_pos hlt]
    rw [if_pos (.inl trivial), if_neg fun h => hmax h.1]

/-- A string of `2 ^ 31` bytes or more is refused as if it had a NUL in it. -/
theorem parseInt_long (hlong : 2 ^ 31 ≤ s.length) (h : Written Accepted s z) :
    parseInt s =
      .thrown (.invalidArgument "Value of %d bytes contains a NUL byte at offset %zu") := by
  have hconverted : inLen s < 2 ^ 31 := (toInt32_ne hlong).1
  have hne : inLen s ≠ strlen s := by
    rw [strlen_eq, h.seen_eq]
    omega
  rw [parseInt, prepareStringConversion, if_pos (.inr hne), thenConvertInt]

end

inductive NarrowClass where
  | tinyint
  | smallint
deriving DecidableEq

namespace NarrowClass

def width : NarrowClass → Nat
  | .tinyint => 8
  | .smallint => 16

def init (castDouble : BitVec 64 → BitVec 32) :
    (c : NarrowClass) → InitArgument c.width → Except Thrown (BitVec c.width)
  | .tinyint => Tinyint.init castDouble
  | .smallint => Smallint.init castDouble

end NarrowClass

section

variable {w : Nat} (castDouble : BitVec 64 → BitVec 32) (className bounds : String)

theorem narrowInit_long_iff (hnarrow : w ≤ 32) (n : BitVec 64) :
    Constructed (narrowInit castDouble w className bounds (.long n)) n.toInt ↔
      ¬ Returns w n.toInt (n.toInt.bmod (2 ^ 32)) := by
  rw [narrowInit]
  exact constructed_long_iff hnarrow

theorem narrowInit_string_iff (hnarrow : w ≤ 32) {s : Bytes} {z : Int} (h : Written Literal s z) :
    Constructed (narrowInit castDouble w className bounds (.string s)) z ↔
      s.length < 2 ^ 31 ∧ ¬ (z.natAbs < 2 ^ 64 ∧ Returns w z (z.tmod (2 ^ 32))) := by
  have hwritten : Written Accepted s z := h.mono fun _ _ => .inl
  have hsmall : Fits w z → z.natAbs < 2 ^ 64 ∧ z.tmod (2 ^ 32) = z := by
    intro hz
    obtain ⟨hlow, hhigh⟩ := fits_32 hnarrow hz
    exact ⟨by omega, tmod_of_fits ⟨hlow, hhigh⟩⟩
  rw [narrowInit]
  by_cases hshort : s.length < 2 ^ 31
  · rw [and_iff_right hshort, parseInt_literal hshort hwritten]
    split_ifs with hread
    · rw [storeParsed, constructed_store_iff fun hz => (hsmall hz).2, and_iff_right hread.1]
    · -- no word of 32 bits, so none of the class
      have hz : ¬ Fits w z := fun hz => hread
        ⟨(hsmall hz).1, (hsmall hz).2.symm ▸ fits_32 hnarrow hz⟩
      refine iff_of_true ?_ fun hreturns => hread ⟨hreturns.1, fits_32 hnarrow hreturns.2.2⟩
      rw [storeParsed, Constructed, if_neg hz]
      exact ⟨_, rfl⟩
  · rw [parseInt_long (Nat.le_of_not_lt hshort) hwritten, storeParsed]
    refine iff_of_false ?_ fun h => hshort h.1
    unfold Constructed
    split_ifs <;> simp

end

/--
Where the constructors of Tinyint and Smallint are right.

For an integer of PHP: unless it is out of range and its low 32 bits are not. For a
string that writes an integer: below `2 ^ 31` bytes, unless the integer is out of
range, is below `2 ^ 64` in magnitude and the low 32 bits of the magnitude are in
range.
-/
theorem narrow_init_right_iff
    (castDouble : BitVec 64 → BitVec 32)
    (c : NarrowClass) :
    (∀ n : BitVec 64, Constructed (c.init castDouble (.long n)) n.toInt ↔
        ¬ Returns c.width n.toInt (n.toInt.bmod (2 ^ 32))) ∧
      ∀ (s : Bytes) (z : Int), Written Literal s z →
        (Constructed (c.init castDouble (.string s)) z ↔
          s.length < 2 ^ 31 ∧
            ¬ (z.natAbs < 2 ^ 64 ∧ Returns c.width z (z.tmod (2 ^ 32)))) := by
  cases c with
  | tinyint =>
    rw [NarrowClass.init, Tinyint.init]
    exact ⟨narrowInit_long_iff _ _ _ (by decide),
      fun _ _ => narrowInit_string_iff _ _ _ (by decide)⟩
  | smallint =>
    rw [NarrowClass.init, Smallint.init]
    exact ⟨narrowInit_long_iff _ _ _ (by decide),
      fun _ _ => narrowInit_string_iff _ _ _ (by decide)⟩

theorem written_decimalText {n : Nat} (hn : n ≠ 0) : Written Literal (decimalText n) n := by
  have hdigits : ∀ c ∈ decimalText n, digitValue c < 10 := fun _ hc =>
    (isdigit_digitValue (isdigit_of_mem_decimalText hc)).2
  obtain ⟨c, cs, hcs, hc⟩ := decimalText_head_ne_zero hn
  have hliteral := Literal.decimal hc (hcs ▸ hdigits)
  rw [← hcs, value_decimalText] at hliteral
  exact ⟨[], [], decimalText n, false, n, rfl, by simp, .plain, hliteral, rfl⟩

/-- `2 ^ 32` makes a Tinyint 0, as an integer and as a string. -/
theorem two_pow_32_accepted :
    Written Literal (decimalText (2 ^ 32)) (2 ^ 32) ∧ ¬ Fits 8 (2 ^ 32) ∧
      Tinyint.init (fun _ => 0) (.long (BitVec.ofInt 64 (2 ^ 32))) = .ok 0 ∧
      Tinyint.init (fun _ => 0) (.string (decimalText (2 ^ 32))) = .ok 0 ∧
      ¬ Constructed (Tinyint.init (fun _ => 0) (.string (decimalText (2 ^ 32)))) (2 ^ 32) := by
  have hwritten : Written Literal (decimalText (2 ^ 32)) (2 ^ 32) := written_decimalText (by decide)
  have hlength : (decimalText (2 ^ 32)).length ≤ 10 := decimalText_length_le (by decide) (by decide)
  have hfits : ¬ Fits 8 (2 ^ 32) := by decide
  have hlong : Tinyint.init (fun _ => 0) (.long (BitVec.ofInt 64 (2 ^ 32))) = .ok 0 := by
    rw [Tinyint.init, narrowInit, storeNarrow, if_neg (by decide)]
    rfl
  have hstring : Tinyint.init (fun _ => 0) (.string (decimalText (2 ^ 32))) = .ok 0 := by
    rw [Tinyint.init, narrowInit,
      parseInt_literal (by omega) (hwritten.mono fun _ _ => .inl), if_pos (by decide),
      storeParsed, storeNarrow, if_neg (by decide)]
    rfl
  refine ⟨hwritten, hfits, hlong, hstring, ?_⟩
  rw [hstring, Constructed, if_neg hfits]
  simp

end Numbers
end ScyllaDriver
