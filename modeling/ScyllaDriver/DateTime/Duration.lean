import ScyllaDriver.Library.CheckedArithmetic
import ScyllaDriver.Library.FloatFormat
import ScyllaDriver.Numbers.NumberParser

/-!
# Durations and how they are built

A `Cassandra\Duration` has months and days in 32 bits and nanoseconds in 64. The
constructor takes three numbers, and refuses them unless they have one sign, or a
DateInterval; `fromDateInterval()` takes a DateInterval only.

The totals of a DateInterval are computed in 64 bits with overflow checks, checked against
the ranges of the duration, negated if the interval is inverted, and then cut to their
widths. Their signs are not compared.
-/

namespace ScyllaDriver
namespace Durations

open CString FixedWidth

structure Duration where
  months : Int32
  days : Int32
  nanos : Int64
  deriving DecidableEq

/-- The fields of a `timelib_rel_time`. -/
structure DateInterval where
  y : Int64
  m : Int64
  d : Int64
  h : Int64
  i : Int64
  s : Int64
  us : Int64
  invert : Bool
  deriving DecidableEq

/-- A zval handed to the constructor. A DateInterval need not be initialized. -/
inductive Argument where
  | long (value : Int64)
  | double (bits : UInt64)
  | string (s : Bytes)
  | bigint (value : Int64)
  | dateInterval (interval : Option DateInterval)
  | other

inductive Thrown where
  | invalidArgument (format : String)
  | badFunctionCall (message : String)
  | argumentCount
  | number (e : Numbers.Thrown)
  deriving DecidableEq

/-- The exception of `get_param` for a number out of range. -/
def outOfRange (paramName given : String) : Thrown :=
  .invalidArgument (paramName ++ " must be between %ld and %ld, " ++ given ++ " given")

/-- The range check of `get_param` for an integer. -/
def integerParam (paramName : String) (min max : Int) (value : Int64) : Except Thrown Int64 :=
  if max < value.toInt ∨ value.toInt < min then
    .error (outOfRange paramName "%ld")
  else
    .ok value

/-- The conversion of a double to an integer rounds towards zero. -/
def truncate (x : ℚ) : Int :=
  x.num.tdiv x.den

/-- `get_param`. What is not a number passes the comparisons, and its conversion is a
parameter: C leaves it undefined. -/
def getParam (nan : Int64) (paramName : String) (min max : Int) : Argument → Except Thrown Int64
  | .long value => integerParam paramName min max value
  | .double bits =>
    if FloatFormat.binary64.isNan bits.toNat then
      .ok nan
    else
      let value := FloatFormat.double bits.toNat
      if 9223372036854775808 ≤ value ∨ (max : ℚ) < value ∨ value < min then
        .error (outOfRange paramName "%g")
      else
        .ok (Int64.ofInt (truncate value))
  | .string s =>
    match Numbers.parseBigint s with
    | .error e => .error (.number e)
    | .ok parsed => integerParam paramName min max (Int64.ofInt parsed)
  | .bigint value => integerParam paramName min max value
  | .dateInterval _ | .other =>
    -- `throw_invalid_argument` adds what was given
    .error (.invalidArgument (paramName ++
      " must be a long, a double, a numeric string or a Cassandra\\Bigint"))

def int32Min : Int := -2 ^ 31
def int32Max : Int := 2 ^ 31 - 1

/-- No two numbers have different signs. -/
def OneSign (months days nanos : Int) : Prop :=
  (months ≤ 0 ∧ days ≤ 0 ∧ nanos ≤ 0) ∨ (0 ≤ months ∧ 0 ≤ days ∧ 0 ≤ nanos)

instance (months days nanos : Int) : Decidable (OneSign months days nanos) :=
  inferInstanceAs (Decidable (_ ∨ _))

def Duration.OneSign (d : Duration) : Prop :=
  Durations.OneSign d.months.toInt d.days.toInt d.nanos.toInt

instance (d : Duration) : Decidable d.OneSign :=
  inferInstanceAs (Decidable (Durations.OneSign _ _ _))

/-- The second half of `php_scylladb_duration_init`. -/
def fromComponents (nan : Int64) (months days nanos : Argument) : Except Thrown Duration := do
  let months ← getParam nan "months" int32Min int32Max months
  let days ← getParam nan "days" int32Min int32Max days
  let nanos ← getParam nan "nanos" longMin longMax nanos
  let self : Duration := ⟨months.toInt32, days.toInt32, nanos⟩
  if self.OneSign then
    return self
  else
    .error (.badFunctionCall "A duration must have all non-negative or non-positive attributes")

/-- `TIMELIB_UNSET`, as it is since PHP 8.1. -/
def timelibUnset : Int64 := -9999999

/-- `rel_time_field`. -/
def relTimeField (value : Int64) : Int64 :=
  if value = timelibUnset then 0 else value

/-- A field at the start of a checked computation. -/
def field (value : Int64) : Checked 64 :=
  .start (relTimeField value).toBitVec

def checkedMonths (rel : DateInterval) : Checked 64 :=
  ((field rel.y).mul 12).add (field rel.m)

def checkedSeconds (rel : DateInterval) : Checked 64 :=
  (((field rel.h).mul 3600).add ((field rel.i).mul 60)).add (field rel.s)

def checkedNanos (rel : DateInterval) : Checked 64 :=
  ((checkedSeconds rel).mul 1000000000).add ((field rel.us).mul 1000)

/-- The negation of an inverted interval, in 64 bits. -/
def negateIf (invert : Bool) (x : BitVec 64) : BitVec 64 :=
  if invert then -x else x

/-- `duration_from_date_interval`. -/
def durationFromDateInterval : Option DateInterval → Except Thrown Duration
  | none => .error (.invalidArgument "The DateInterval is not initialized")
  | some rel =>
    let months := checkedMonths rel
    let days := (relTimeField rel.d).toBitVec
    let nanos := checkedNanos rel
    if months.overflow = true ∨ nanos.overflow = true ∨
        int32Max < months.value.toInt ∨ months.value.toInt < int32Min ∨
        int32Max < days.toInt ∨ days.toInt < int32Min ∨ nanos.value.toInt = longMin then
      .error (.invalidArgument "The DateInterval is too large for a duration")
    else
      .ok ⟨Int32.ofInt (negateIf rel.invert months.value).toInt,
        Int32.ofInt (negateIf rel.invert days).toInt,
        Int64.ofInt (negateIf rel.invert nanos.value).toInt⟩

/-- `php_scylladb_duration_init`. An object whose construction fails is not returned. -/
def durationInit (nan : Int64) : List Argument → Except Thrown Duration
  | [.dateInterval interval] => durationFromDateInterval interval
  | [.dateInterval _, _] | [.dateInterval _, _, _] =>
    .error (.invalidArgument "A DateInterval must be the only argument")
  | [months, days, nanos] => fromComponents nan months days nanos
  | _ => .error .argumentCount

inductive Path where
  | construct (args : List Argument)
  | fromDateInterval (interval : Option DateInterval)

def build (nan : Int64) : Path → Except Thrown Duration
  | .construct args => durationInit nan args
  | .fromDateInterval interval => durationFromDateInterval interval

namespace DateInterval

def months (rel : DateInterval) : Int :=
  rel.y.toInt * 12 + rel.m.toInt

def days (rel : DateInterval) : Int :=
  rel.d.toInt

def seconds (rel : DateInterval) : Int :=
  rel.h.toInt * 3600 + rel.i.toInt * 60 + rel.s.toInt

def nanos (rel : DateInterval) : Int :=
  rel.seconds * 1000000000 + rel.us.toInt * 1000

/-- The interval with zero for every field that holds the mark for an unset one. -/
def read (rel : DateInterval) : DateInterval where
  y := relTimeField rel.y
  m := relTimeField rel.m
  d := relTimeField rel.d
  h := relTimeField rel.h
  i := relTimeField rel.i
  s := relTimeField rel.s
  us := relTimeField rel.us
  invert := rel.invert

def MonthsFit (rel : DateInterval) : Prop :=
  Fits 64 (rel.y.toInt * 12) ∧ Fits 64 rel.months

def SecondsFit (rel : DateInterval) : Prop :=
  Fits 64 (rel.h.toInt * 3600) ∧ Fits 64 (rel.i.toInt * 60) ∧
    Fits 64 (rel.h.toInt * 3600 + rel.i.toInt * 60) ∧ Fits 64 rel.seconds

def NanosFit (rel : DateInterval) : Prop :=
  rel.SecondsFit ∧ Fits 64 (rel.seconds * 1000000000) ∧ Fits 64 (rel.us.toInt * 1000) ∧
    Fits 64 rel.nanos

/-- The interval is not too large. -/
def Accepted (rel : DateInterval) : Prop :=
  rel.MonthsFit ∧ rel.NanosFit ∧ Fits 32 rel.months ∧ Fits 32 rel.days ∧ rel.nanos ≠ longMin

end DateInterval

/-- The sign that an inverted interval turns around. -/
def signed (invert : Bool) (x : Int) : Int :=
  if invert then -x else x

theorem computes_field (value : Int64) : (field value).Computes (relTimeField value).toInt True :=
  Checked.computes_start _

variable (rel : DateInterval)

theorem computes_months :
    (checkedMonths rel).Computes rel.read.months rel.read.MonthsFit := by
  have h := ((computes_field rel.y).mul (by decide) 12).add (by decide) (computes_field rel.m)
  exact h.of_iff (by simp only [true_and, and_true]; rfl)

theorem computes_seconds :
    (checkedSeconds rel).Computes rel.read.seconds rel.read.SecondsFit := by
  have hminutes := ((computes_field rel.h).mul (by decide) 3600).add (by decide)
    ((computes_field rel.i).mul (by decide) 60)
  have h := hminutes.add (by decide) (computes_field rel.s)
  exact h.of_iff (by simp only [true_and, and_true, and_assoc]; rfl)

theorem computes_nanos :
    (checkedNanos rel).Computes rel.read.nanos rel.read.NanosFit := by
  have h := ((computes_seconds rel).mul (by decide) 1000000000).add (by decide)
    ((computes_field rel.us).mul (by decide) 1000)
  exact h.of_iff (by simp only [true_and, and_assoc]; rfl)

variable {invert : Bool}

/-- In 64 bits only the least number has no negation. -/
theorem toInt_negateIf {x : BitVec 64} (hx : x.toInt ≠ longMin) :
    (negateIf invert x).toInt = signed invert x.toInt := by
  cases invert with
  | false => rfl
  | true =>
    have hlow := x.le_toInt
    have hhigh := x.toInt_lt
    unfold longMin at hx
    simp only [negateIf, signed, if_true]
    rw [BitVec.toInt_neg]
    exact Int.bmod_eq_of_le (by omega) (by omega)

theorem not_tooLarge_iff :
    ¬ ((checkedMonths rel).overflow = true ∨ (checkedNanos rel).overflow = true ∨
        int32Max < (checkedMonths rel).value.toInt ∨
        (checkedMonths rel).value.toInt < int32Min ∨
        int32Max < (relTimeField rel.d).toBitVec.toInt ∨
        (relTimeField rel.d).toBitVec.toInt < int32Min ∨
        (checkedNanos rel).value.toInt = longMin) ↔
      rel.read.Accepted := by
  have hmonths := computes_months rel
  have hnanos := computes_nanos rel
  have hdays : (relTimeField rel.d).toBitVec.toInt = rel.read.days := rfl
  simp only [not_or, Bool.not_eq_true, hmonths.overflow_iff, hnanos.overflow_iff, hdays]
  unfold DateInterval.Accepted
  refine and_congr_right fun hm => and_congr_right fun hn => ?_
  rw [hmonths.exact hm, hnanos.exact hn]
  unfold Fits int32Max int32Min
  omega

/-- What is stored for an interval that is not too large. -/
theorem durationFromDateInterval_eq_ok_iff (d : Duration) :
    durationFromDateInterval (some rel) = .ok d ↔ rel.read.Accepted ∧
      d = ⟨Int32.ofInt (signed rel.invert rel.read.months),
        Int32.ofInt (signed rel.invert rel.read.days),
        Int64.ofInt (signed rel.invert rel.read.nanos)⟩ := by
  rw [← not_tooLarge_iff]
  simp only [durationFromDateInterval]
  split
  · rename_i hlarge
    simp only [reduceCtorEq, false_iff, not_and]
    exact fun hfits => absurd hlarge hfits
  · rename_i hfits
    obtain ⟨hm, hn, hmonths, hdays, hnanos⟩ := (not_tooLarge_iff rel).mp hfits
    have hread : (relTimeField rel.d).toBitVec.toInt = rel.read.days := rfl
    simp only [hfits, not_false_eq_true, true_and, Except.ok.injEq]
    rw [toInt_negateIf, toInt_negateIf, toInt_negateIf, (computes_months rel).exact hm,
      (computes_nanos rel).exact hn, hread]
    · exact eq_comm
    · rwa [(computes_nanos rel).exact hn]
    · rw [hread]
      unfold Fits at hdays
      unfold longMin
      omega
    · rw [(computes_months rel).exact hm]
      unfold Fits at hmonths
      unfold longMin
      omega

/-- The duration has the totals of the interval. -/
def Duration.Holds (d : Duration) (rel : DateInterval) : Prop :=
  d.months.toInt = signed rel.invert rel.months ∧
    d.days.toInt = signed rel.invert rel.days ∧ d.nanos.toInt = signed rel.invert rel.nanos

instance (d : Duration) (rel : DateInterval) : Decidable (d.Holds rel) :=
  inferInstanceAs (Decidable (_ ∧ _ ∧ _))

/-- No field holds the mark for an unset one, no two totals have different signs, and an
inverted interval has no total whose negation needs more than 32 bits. -/
def DateInterval.Regular (rel : DateInterval) : Prop :=
  rel.read = rel ∧ OneSign rel.months rel.days rel.nanos ∧
    (rel.invert = true → rel.months ≠ int32Min ∧ rel.days ≠ int32Min)

theorem signed_inj {x y : Int} : signed invert x = signed invert y ↔ x = y := by
  cases invert <;> simp [signed]

theorem oneSign_signed (invert : Bool) (months days nanos : Int) :
    OneSign (signed invert months) (signed invert days) (signed invert nanos) ↔
      OneSign months days nanos := by
  cases invert with
  | false => rfl
  | true =>
    simp only [OneSign, signed, if_true]
    omega

/-- Cutting to 32 bits changes only the negation of the least number. -/
theorem toInt_ofInt_signed (invert : Bool) {x : Int} (hx : Fits 32 x) :
    (Int32.ofInt (signed invert x)).toInt =
      if invert = true ∧ x = int32Min then int32Min else signed invert x := by
  split
  · rename_i hleast
    obtain ⟨rfl, rfl⟩ := hleast
    decide
  · rename_i hleast
    refine toInt_ofInt_of_fits (by decide) ?_
    unfold Fits int32Min at *
    cases invert with
    | false => exact hx
    | true =>
      simp only [true_and, signed, if_true] at hleast ⊢
      omega

theorem stored_eq_iff {x y : Int} (hread : x ≤ y) (hy : Fits 32 y) :
    (Int32.ofInt (signed invert y)).toInt = signed invert x ↔
      y = x ∧ ¬ (invert = true ∧ x = int32Min) := by
  rw [toInt_ofInt_signed invert hy]
  split
  · rename_i hleast
    obtain ⟨rfl, rfl⟩ := hleast
    simp only [signed, if_true, true_and]
    unfold int32Min at *
    omega
  · rename_i hleast
    rw [signed_inj]
    exact ⟨fun heq => ⟨heq, heq ▸ hleast⟩, fun h => h.1⟩

theorem le_relTimeField (value : Int64) : value.toInt ≤ (relTimeField value).toInt := by
  unfold relTimeField
  split
  · rename_i hmark
    subst hmark
    decide
  · exact le_rfl

theorem relTimeField_eq_of_le {value : Int64} (h : (relTimeField value).toInt ≤ value.toInt) :
    relTimeField value = value := by
  unfold relTimeField at *
  split
  · rename_i hmark
    subst hmark
    exact absurd h (by decide)
  · rfl

namespace DateInterval

theorem months_le_read : rel.months ≤ rel.read.months := by
  have hy := le_relTimeField rel.y
  have hm := le_relTimeField rel.m
  simp only [months, read]
  omega

theorem days_le_read : rel.days ≤ rel.read.days :=
  le_relTimeField rel.d

theorem read_eq_iff :
    rel.read = rel ↔
      rel.read.months = rel.months ∧ rel.read.days = rel.days ∧ rel.read.nanos = rel.nanos := by
  constructor
  · intro h
    rw [h]
    exact ⟨rfl, rfl, rfl⟩
  · rintro ⟨hmonths, hdays, hnanos⟩
    have hy := le_relTimeField rel.y
    have hm := le_relTimeField rel.m
    have hh := le_relTimeField rel.h
    have hi := le_relTimeField rel.i
    have hs := le_relTimeField rel.s
    have hus := le_relTimeField rel.us
    simp only [months, days, nanos, seconds, read] at hmonths hdays hnanos
    have hy' : relTimeField rel.y = rel.y := relTimeField_eq_of_le (by omega)
    have hm' : relTimeField rel.m = rel.m := relTimeField_eq_of_le (by omega)
    have hd' : relTimeField rel.d = rel.d := relTimeField_eq_of_le (by omega)
    have hh' : relTimeField rel.h = rel.h := relTimeField_eq_of_le (by omega)
    have hi' : relTimeField rel.i = rel.i := relTimeField_eq_of_le (by omega)
    have hs' : relTimeField rel.s = rel.s := relTimeField_eq_of_le (by omega)
    have hus' : relTimeField rel.us = rel.us := relTimeField_eq_of_le (by omega)
    rw [read, hy', hm', hd', hh', hi', hs', hus']

end DateInterval

theorem storedNanos_eq {nanos : Int} (hfits : Fits 64 nanos) (hleast : nanos ≠ longMin) :
    (Int64.ofInt (signed invert nanos)).toInt = signed invert nanos := by
  refine toInt_ofInt_of_fits (by decide) ?_
  unfold Fits longMin at *
  cases invert with
  | false => exact hfits
  | true =>
    simp only [signed, if_true]
    omega

variable {d : Duration} {rel : DateInterval}

/-- The duration of an interval has its totals if all fields were read as they are and
nothing was cut off. -/
theorem holds_iff (h : durationFromDateInterval (some rel) = .ok d) :
    d.Holds rel ↔ rel.read = rel ∧
      (rel.invert = true → rel.months ≠ int32Min ∧ rel.days ≠ int32Min) := by
  obtain ⟨⟨-, ⟨-, -, -, hfits⟩, hmonths, hdays, hleast⟩, rfl⟩ :=
    (durationFromDateInterval_eq_ok_iff rel d).mp h
  unfold Duration.Holds
  rw [stored_eq_iff rel.months_le_read hmonths, stored_eq_iff rel.days_le_read hdays,
    storedNanos_eq hfits hleast, signed_inj, rel.read_eq_iff]
  tauto

theorem oneSign_of_holds (h : d.Holds rel) :
    d.OneSign ↔ OneSign rel.months rel.days rel.nanos := by
  obtain ⟨hmonths, hdays, hnanos⟩ := h
  rw [Duration.OneSign, hmonths, hdays, hnanos, oneSign_signed]

theorem oneSign_fromComponents {nan : Int64} {months days nanos : Argument}
    (h : fromComponents nan months days nanos = .ok d) : d.OneSign := by
  simp only [fromComponents, bind, Except.bind, pure, Except.pure] at h
  split at h
  · cases h
  · split at h
    · cases h
    · split at h
      · cases h
      · split at h
        · rename_i hsign
          cases h
          exact hsign
        · cases h

/-- The interval that a path takes its totals from. -/
def Path.interval? : Path → Option DateInterval
  | .construct [.dateInterval interval] => interval
  | .construct _ => none
  | .fromDateInterval interval => interval

/-- A duration of one sign, and with the totals of the interval if it comes from one. -/
def BuiltRight (nan : Int64) (path : Path) : Prop :=
  ∀ d, build nan path = .ok d → d.OneSign ∧ ∀ rel ∈ path.interval?, d.Holds rel

theorem build_of_interval (nan : Int64) {path : Path} (h : path.interval? = some rel) :
    build nan path = durationFromDateInterval (some rel) := by
  cases path with
  | fromDateInterval interval => exact congrArg durationFromDateInterval h
  | construct args =>
    unfold Path.interval? at h
    split at h
    · rename_i heq
      cases heq
      exact congrArg durationFromDateInterval h
    · cases h
    · rename_i heq
      cases heq

theorem oneSign_of_no_interval {nan : Int64} {path : Path} (hnone : path.interval? = none)
    (h : build nan path = .ok d) : d.OneSign := by
  cases path with
  | fromDateInterval interval =>
    obtain rfl : interval = none := hnone
    cases h
  | construct args =>
    simp only [build, durationInit] at h
    split at h
    · rename_i interval
      obtain rfl : interval = none := hnone
      cases h
    · cases h
    · cases h
    · exact oneSign_fromComponents h
    · cases h

/-- Durations are right but for intervals that pass the range checks although their totals
have different signs, or a field holds the mark of an unset one, or a total has no
negation. -/
theorem built_right_iff
    (nan : Int64)
    (path : Path) :
    BuiltRight nan path ↔
      ∀ rel ∈ path.interval?, rel.read.Accepted → rel.Regular := by
  cases hinterval : path.interval? with
  | none =>
    simp only [Option.not_mem_none, false_implies, implies_true, iff_true]
    intro d hd
    exact ⟨oneSign_of_no_interval hinterval hd, by simp [hinterval]⟩
  | some rel =>
    simp only [BuiltRight, hinterval, Option.mem_some_iff, forall_eq',
      build_of_interval nan hinterval]
    constructor
    · intro hright haccepted
      obtain ⟨hsign, hholds⟩ := hright _
        ((durationFromDateInterval_eq_ok_iff rel _).mpr ⟨haccepted, rfl⟩)
      have hregular := (holds_iff ((durationFromDateInterval_eq_ok_iff rel _).mpr
        ⟨haccepted, rfl⟩)).mp hholds
      exact ⟨hregular.1, (oneSign_of_holds hholds).mp hsign, hregular.2⟩
    · intro hregular d hd
      obtain ⟨hread, hsign, hleast⟩ := hregular ((durationFromDateInterval_eq_ok_iff rel d).mp hd).1
      have hholds := (holds_iff hd).mpr ⟨hread, hleast⟩
      exact ⟨(oneSign_of_holds hholds).mpr hsign, hholds⟩

/-- One month less one day; and, inverted, so many negative months that their number has no
32 bits. -/
theorem built_with_two_signs :
    build 0 (.fromDateInterval (some ⟨0, 1, -1, 0, 0, 0, 0, false⟩)) = .ok ⟨1, -1, 0⟩ ∧
      ¬ Duration.OneSign ⟨1, -1, 0⟩ ∧
        build 0 (.construct [.dateInterval (some ⟨0, -2147483648, 0, 0, 0, 0, 0, true⟩)]) =
            .ok ⟨-2147483648, 0, 0⟩ ∧
          ¬ Duration.Holds ⟨-2147483648, 0, 0⟩ ⟨0, -2147483648, 0, 0, 0, 0, 0, true⟩ :=
  ⟨rfl, by decide, rfl, by decide⟩

end Durations
end ScyllaDriver
