import ScyllaDriver.DateTime.Timestamp
import ScyllaDriver.Numbers.NumberParser

/-!
# Dates and times of a Unix second

A `Cassandra\Date` holds the driver's day number, which has 1970-01-01 at `2 ^ 31`, and a
`Cassandra\Time` the nanoseconds since midnight. `Date::fromDateTime` and
`Time::fromDateTime` take day and time of a Unix second apart, the first one in the driver,
the second one here; `Date::toDateTime` puts a date and a time together again.

The driver's `cass_date_from_epoch` truncates towards zero, and `cass_date_time_to_epoch` is
exact.
-/

namespace ScyllaDriver
namespace Dates

open CString Timestamps

def secondsPerDay : Int := 86400

/-- `NUM_NANOSECONDS_PER_DAY`, the last nanosecond of a day. -/
def numNanosecondsPerDay : Int := 86399999999999

/-- `cass_date_from_epoch`. -/
def cassDateFromEpoch (epochSecs : Int64) : UInt32 :=
  UInt32.ofInt (epochSecs.toInt.tdiv secondsPerDay + 2 ^ 31)

/-- The day of a date, counted from 1970-01-01. -/
def day (date : UInt32) : Int :=
  date.toNat - 2 ^ 31

/-- `cass_date_time_to_epoch`. -/
def cassDateTimeToEpoch (date : UInt32) (time : Int64) : Int :=
  day date * secondsPerDay + time.toInt.tdiv 1000000000

/-- `Date::fromDateTime`, for a DateTime with the timestamp. -/
def dateFromDateTime (unixSec : Int64) : UInt32 :=
  cassDateFromEpoch unixSec

/-- PHP's reading of the format `U`. -/
def readU (s : Bytes) : Option Int64 :=
  let sign := if s.headD 0 = chr '-' then s.take 1 else []
  let digits := s.drop sign.length
  if digits ≠ [] ∧ digits.all isdigit ∧ (strtol10 s).erange = false then
    some (Int64.ofInt (strtol10 s).value)
  else
    none

/-- `Date::toDateTime`, with a Time or without; the result has the timestamp. -/
def toDateTime (date : UInt32) (time : Option Int64) : Option Int64 :=
  readU (signedText (cassDateTimeToEpoch date (time.getD 0)))

/-- `Time::fromDateTime`, for a DateTime with the timestamp. -/
def timeFromDateTime (unixSec : Int64) : Int64 :=
  (unixSec % 86400) * 1000000000

/-- The clock of `php_scylladb_time_now_ns`, after 1970. -/
structure Clock where
  seconds : Nat
  nanoseconds : Fin 1000000000

/-- `php_scylladb_time_now_ns`; `cass_time_from_epoch` is the time of the day. -/
def timeNowNs (clock : Clock) : Int64 :=
  Int64.ofNat (clock.seconds % 86400 * 1000000000 + clock.nanoseconds)

inductive TimeArgument where
  | absent
  | string (s : Bytes)
  | long (n : Int64)

inductive Thrown where
  | invalidArgument (format : String)
  deriving DecidableEq

/-- The range check, with the format for what was given. -/
def sinceMidnight (given : String) (value : Int64) : Except Thrown Int64 :=
  if value.toInt < 0 ∨ numNanosecondsPerDay < value.toInt then
    .error (.invalidArgument ("nanoseconds must be nanoseconds since midnight, " ++ given ++
      " given"))
  else
    .ok value

/-- The string argument after the number parser. Its exception is followed by one that names
the parameter. -/
def fromParsed : Except Numbers.Thrown Int → Except Thrown Int64
  | .error _ => .error (.invalidArgument
      "nanoseconds must be invalid string representation of a number of nanoseconds")
  | .ok value => sinceMidnight "'%.*s'" (Int64.ofInt value)

/-- `php_scylladb_time_initialize`. -/
def timeInitialize (clock : Clock) : TimeArgument → Except Thrown Int64
  | .absent => .ok (timeNowNs clock)
  | .string s => fromParsed (Numbers.parseBigint s)
  | .long n => sinceMidnight "%ld" n

def IsTimeOfDay (time : Int64) : Prop :=
  0 ≤ time.toInt ∧ time.toInt ≤ numNanosecondsPerDay

instance (time : Int64) : Decidable (IsTimeOfDay time) :=
  inferInstanceAs (Decidable (_ ∧ _))

theorem isTimeOfDay_of_sinceMidnight {given : String} {value time : Int64}
    (h : sinceMidnight given value = .ok time) : IsTimeOfDay time := by
  unfold sinceMidnight at h
  split at h
  · cases h
  · rename_i hrange
    cases h
    exact ⟨by omega, by omega⟩

theorem isTimeOfDay_timeInitialize {clock : Clock} {argument : TimeArgument} {time : Int64}
    (h : timeInitialize clock argument = .ok time) : IsTimeOfDay time := by
  cases argument with
  | absent =>
    obtain rfl : timeNowNs clock = time := Except.ok.inj h
    have hnanoseconds := clock.nanoseconds.isLt
    unfold IsTimeOfDay timeNowNs numNanosecondsPerDay
    rw [Int64.toInt_ofNat_of_lt (by omega)]
    omega
  | string s =>
    rw [timeInitialize] at h
    generalize Numbers.parseBigint s = parsed at h
    cases parsed with
    | error e => cases h
    | ok value => exact isTimeOfDay_of_sinceMidnight h
  | long n => exact isTimeOfDay_of_sinceMidnight h

def DayFits (unixSec : Int64) : Prop :=
  -2 ^ 31 ≤ unixSec.toInt / secondsPerDay ∧ unixSec.toInt / secondsPerDay < 2 ^ 31

instance (unixSec : Int64) : Decidable (DayFits unixSec) :=
  inferInstanceAs (Decidable (_ ∧ _))

/-- The second is not before 1970, or it starts a day. -/
def Regular (unixSec : Int64) : Prop :=
  0 ≤ unixSec.toInt ∨ unixSec.toInt % 86400 = 0

instance (unixSec : Int64) : Decidable (Regular unixSec) :=
  inferInstanceAs (Decidable (_ ∨ _))

/-- The truncated day is rounded down, or up for a second before 1970 that does not start a
day; the remainder goes with it. -/
theorem day_cases (unixSec : Int64) :
    (Regular unixSec ∧ unixSec.toInt.tdiv 86400 = unixSec.toInt / 86400) ∨
      (¬ Regular unixSec ∧ unixSec.toInt.tdiv 86400 = unixSec.toInt / 86400 + 1) := by
  unfold Regular
  rcases lt_or_ge unixSec.toInt 0 with hneg | hpos
  · have hdiv := Int.tdiv_eq_ediv_of_nonneg (a := -unixSec.toInt) (b := 86400) (by omega)
    rw [Int.neg_tdiv] at hdiv
    omega
  · have hdiv := Int.tdiv_eq_ediv_of_nonneg (b := 86400) hpos
    omega

theorem day_dateFromDateTime {unixSec : Int64} (hfits : DayFits unixSec) :
    day (dateFromDateTime unixSec) = unixSec.toInt.tdiv 86400 := by
  obtain ⟨hlow, hhigh⟩ := hfits
  unfold secondsPerDay at hlow hhigh
  have hrange : 0 ≤ unixSec.toInt.tdiv 86400 + 2 ^ 31 ∧
      unixSec.toInt.tdiv 86400 + 2 ^ 31 < 2 ^ 32 := by
    rcases day_cases unixSec with ⟨-, hday⟩ | ⟨hregular, hday⟩
    · omega
    · unfold Regular at hregular
      omega
  have htoNat : ((dateFromDateTime unixSec).toNat : Int) = unixSec.toInt.tdiv 86400 + 2 ^ 31 := by
    have hmod := Int.emod_eq_of_lt hrange.1 hrange.2
    rw [dateFromDateTime, cassDateFromEpoch, secondsPerDay, UInt32.ofInt, hmod,
      UInt32.toNat_ofNat_of_lt' ((Int.toNat_lt hrange.1).mpr hrange.2)]
    exact Int.toNat_of_nonneg hrange.1
  rw [day, htoNat]
  omega

theorem toInt_timeFromDateTime (unixSec : Int64) :
    (timeFromDateTime unixSec).toInt = unixSec.toInt.tmod 86400 * 1000000000 := by
  have hlow := Int.lt_tmod_of_pos unixSec.toInt (by decide : (0 : Int) < 86400)
  have hhigh := Int.tmod_lt_of_pos unixSec.toInt (by decide : (0 : Int) < 86400)
  have hday : (86400 : Int64).toInt = 86400 := rfl
  have hbillion : (1000000000 : Int64).toInt = 1000000000 := rfl
  rw [timeFromDateTime, Int64.toInt_mul, Int64.toInt_mod, hday, hbillion]
  exact Int.bmod_eq_of_le (by omega) (by omega)

theorem readU_signedText {x : Int} (hlow : longMin ≤ x) (hhigh : x ≤ longMax) :
    readU (signedText x) = some (Int64.ofInt x) := by
  have hsign := sign_signedText x []
  have hdigits := drop_sign_signedText x []
  simp only [List.append_nil] at hsign hdigits
  have hall : (decimalText x.natAbs).all isdigit = true :=
    List.all_eq_true.mpr fun c => isdigit_of_mem_decimalText
  simp only [readU, hsign, hdigits, strtol10_signedText hlow hhigh, hall, ne_eq,
    decimalText_ne_nil, not_false_eq_true, and_self, if_true]

theorem toDateTime_fromDateTime {unixSec : Int64} (hfits : DayFits unixSec) :
    toDateTime (dateFromDateTime unixSec) (some (timeFromDateTime unixSec)) = some unixSec := by
  have hlow := unixSec.le_toInt
  have hhigh := unixSec.toInt_lt
  have hepoch : cassDateTimeToEpoch (dateFromDateTime unixSec) (timeFromDateTime unixSec) =
      unixSec.toInt := by
    rw [cassDateTimeToEpoch, day_dateFromDateTime hfits, toInt_timeFromDateTime,
      Int.mul_tdiv_cancel _ (by decide), secondsPerDay, mul_comm]
    exact Int.mul_tdiv_add_tmod _ _
  rw [toDateTime, Option.getD_some, hepoch,
    readU_signedText (by unfold longMin; omega) (by unfold longMax; omega), Int64.ofInt_toInt]

theorem isTimeOfDay_timeFromDateTime_iff (unixSec : Int64) :
    IsTimeOfDay (timeFromDateTime unixSec) ↔ Regular unixSec := by
  have hparts := Int.mul_tdiv_add_tmod unixSec.toInt 86400
  unfold IsTimeOfDay numNanosecondsPerDay
  rw [toInt_timeFromDateTime]
  rcases day_cases unixSec with ⟨hregular, hday⟩ | ⟨hregular, hday⟩
  · simp only [hregular, iff_true]
    omega
  · simp only [hregular, iff_false]
    unfold Regular at hregular
    omega

/-- The day is rounded down, the time is one of a day as those of the constructor are, and
both together are the second. -/
def TakenApart (unixSec : Int64) : Prop :=
  day (dateFromDateTime unixSec) = unixSec.toInt / secondsPerDay ∧
    (IsTimeOfDay (timeFromDateTime unixSec) ∧
      ∀ clock argument time, timeInitialize clock argument = .ok time → IsTimeOfDay time) ∧
    toDateTime (dateFromDateTime unixSec) (some (timeFromDateTime unixSec)) = some unixSec

/-- A second is taken apart rightly unless it is before 1970 and does not start a day. -/
theorem taken_apart_iff
    {unixSec : Int64}
    (hfits : DayFits unixSec) :
    TakenApart unixSec ↔ 0 ≤ unixSec.toInt ∨ unixSec.toInt % 86400 = 0 := by
  constructor
  · rintro ⟨-, ⟨htime, -⟩, -⟩
    exact (isTimeOfDay_timeFromDateTime_iff unixSec).mp htime
  · intro hregular
    refine ⟨?_, ⟨(isTimeOfDay_timeFromDateTime_iff unixSec).mpr hregular, fun _ _ _ =>
      isTimeOfDay_timeInitialize⟩, toDateTime_fromDateTime hfits⟩
    rw [day_dateFromDateTime hfits]
    rcases day_cases unixSec with ⟨-, hday⟩ | ⟨hnot, -⟩
    · exact hday
    · exact absurd hregular hnot

/-- The first second of 1970-01-02. -/
theorem second_of_next_day_taken_apart :
    DayFits 86400 ∧ TakenApart 86400 :=
  ⟨by decide, (taken_apart_iff (by decide)).mpr (by decide)⟩

/-- The last second of 1969 gets the first day of 1970 and a negative time. -/
theorem second_before_1970_not_taken_apart :
    DayFits (-1) ∧ day (dateFromDateTime (-1)) = 0 ∧
      ¬ IsTimeOfDay (timeFromDateTime (-1)) := by
  decide

end Dates
end ScyllaDriver
