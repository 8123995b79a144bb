import ScyllaDriver.Library.CString

/-!
# Timestamps and PHP's DateTime

A `Cassandra\Timestamp` counts milliseconds. `toDateTime()` writes seconds and
milliseconds, split by truncating division, as two decimal numbers with a dot
between them, and lets PHP read the text with the format `U.v`; `fromDateTime()`
lets PHP write the format `Uv` and reads one number.

PHP's side is `readUv` and `formatUv`: `U` is the number of seconds, rounded
down; `v` reads up to three digits as a decimal fraction of a second and writes
exactly three.
-/

namespace ScyllaDriver
namespace Timestamps

open CString Positional

/-- PHP's DateTime: whole seconds, rounded down, and microseconds. -/
structure DateTime where
  seconds : Int64
  microseconds : Fin 1000000
  deriving DecidableEq

/-- The instant, in microseconds. -/
def DateTime.instant (d : DateTime) : Int :=
  d.seconds.toInt * 1000000 + (d.microseconds : Nat)

/-- `smart_str_append_long`. -/
def signedText (x : Int) : Bytes :=
  (if x < 0 then [chr '-'] else []) ++ decimalText x.natAbs

/-- PHP's reading of the format `U.v`. -/
def readUv (s : Bytes) : Option DateTime :=
  let sign := if s.headD 0 = chr '-' then s.take 1 else []
  let body := s.drop sign.length
  let digits := body.takeWhile isdigit
  let seconds := strtol10 (sign ++ digits)
  match body.drop digits.length with
  | [] => none
  | c :: fraction =>
    if c = chr '.' ∧ digits ≠ [] ∧ seconds.erange = false ∧
        fraction ≠ [] ∧ fraction.all isdigit ∧ fraction.length ≤ 3 then
      some ⟨Int64.ofInt seconds.value,
        Fin.ofNat _ (value 10 (fraction.map digitValue) * 10 ^ (6 - fraction.length))⟩
    else none

/-- Three digits with leading zeros. -/
def threeDigits (n : Nat) : Bytes :=
  [digitChar (n / 100 % 10), digitChar (n / 10 % 10), digitChar (n % 10)]

/-- PHP's writing of the format `Uv`. -/
def formatUv (d : DateTime) : Bytes :=
  signedText d.seconds.toInt ++ threeDigits (d.microseconds / 1000)

/-- `timestamp_to_datetime_get_timestamp`. -/
def timestampText (t : Int64) : Bytes :=
  let sec := t.toInt.tdiv 1000
  let millisec := t.toInt - sec * 1000
  signedText sec ++ chr '.' :: signedText millisec

/-- `Timestamp::toDateTime`; `none` is the exception. -/
def toDateTime (t : Int64) : Option DateTime :=
  readUv (timestampText t)

/-- `php_scylladb_timestamp_from_datetime`. -/
def fromDateTime (d : DateTime) : Int64 :=
  Int64.ofInt (strtol10 (formatUv d)).value

variable {n : Nat}

theorem value_threeDigits (hn : n < 1000) :
    value 10 ((threeDigits n).map digitValue) = n := by
  have hdigit : ∀ k, digitValue (digitChar (k % 10)) = k % 10 := fun k =>
    digitValue_digitChar (Nat.mod_lt k (by decide))
  simp only [threeDigits, List.map_cons, List.map_nil, hdigit, value_cons, value_nil,
    List.length_cons, List.length_nil]
  omega

theorem isdigit_of_mem_threeDigits {c : UInt8} (hc : c ∈ threeDigits n) :
    isdigit c = true := by
  have hdigit : ∀ k, isdigit (digitChar (k % 10)) = true := fun k =>
    isdigit_digitChar (Nat.mod_lt k (by decide))
  simp only [threeDigits, List.mem_cons, List.not_mem_nil, or_false] at hc
  rcases hc with rfl | rfl | rfl <;> exact hdigit _

/-- The number `fromDateTime()` reads: the milliseconds are counted away from
zero. -/
theorem toInt_fromDateTime (d : DateTime) :
    (fromDateTime d).toInt =
      (clampLong (if d.seconds.toInt < 0 then
          d.seconds.toInt * 1000 - (d.microseconds / 1000 : Nat)
        else d.seconds.toInt * 1000 + (d.microseconds / 1000 : Nat))).1 := by
  have hms : (d.microseconds : Nat) / 1000 < 1000 := by
    have hlt := d.microseconds.isLt
    omega
  have hvalue : value 10 ((decimalText d.seconds.toInt.natAbs ++
      threeDigits (d.microseconds / 1000)).map digitValue) =
        d.seconds.toInt.natAbs * 1000 + d.microseconds / 1000 := by
    rw [List.map_append, value_append, value_decimalText, value_threeDigits hms]
    simp [threeDigits]
  have hdigits : ∀ c ∈ decimalText d.seconds.toInt.natAbs ++
      threeDigits (d.microseconds / 1000), isdigit c = true := by
    intro c hc
    rcases List.mem_append.mp hc with hc | hc
    · exact isdigit_of_mem_decimalText hc
    · exact isdigit_of_mem_threeDigits hc
  have hne : decimalText d.seconds.toInt.natAbs ++ threeDigits (d.microseconds / 1000) ≠ [] := by
    simp [threeDigits]
  have hread := strtol10_signed (decide (d.seconds.toInt < 0)) hne hdigits rfl
  have htext : formatUv d = (if decide (d.seconds.toInt < 0) then [chr '-'] else []) ++
      (decimalText d.seconds.toInt.natAbs ++ threeDigits (d.microseconds / 1000)) := by
    simp [formatUv, signedText]
  have hrange : ∀ x : Int, (Int64.ofInt (clampLong x).1).toInt = (clampLong x).1 := by
    intro x
    apply Int64.toInt_ofInt_of_le
    · unfold clampLong longMin longMax
      split_ifs <;> simp only <;> omega
    · unfold clampLong longMin longMax
      split_ifs <;> simp only <;> omega
  rw [fromDateTime, htext, hread, hrange, hvalue]
  congr 2
  by_cases hneg : d.seconds.toInt < 0
  · simp only [hneg, decide_true, if_true]
    omega
  · simp only [hneg, decide_false, Bool.false_eq_true, if_false]
    omega

theorem clampLong_fst_eq_iff {x n : Int} :
    (clampLong x).1 = n ↔
      (x = n ∧ longMin ≤ n ∧ n ≤ longMax) ∨ (n = longMax ∧ longMax < x) ∨
        (n = longMin ∧ x < longMin) := by
  unfold clampLong
  split_ifs with hhigh hlow <;> simp only [longMax, longMin] at * <;> omega

theorem strtol10_signedText {x : Int} (hlow : longMin ≤ x) (hhigh : x ≤ longMax) :
    strtol10 (signedText x) =
      ⟨x, (if x < 0 then 1 else 0) + (decimalText x.natAbs).length, false⟩ := by
  have hx : x = if decide (x < 0) then
      -(value 10 ((decimalText x.natAbs).map digitValue) : Int)
      else value 10 ((decimalText x.natAbs).map digitValue) := by
    rw [value_decimalText]
    by_cases hneg : x < 0
    · simp only [hneg, decide_true, if_true]
      omega
    · simp only [hneg, decide_false, Bool.false_eq_true, if_false]
      omega
  simpa [signedText] using strtol10_digits (decide (x < 0)) (decimalText_ne_nil x.natAbs)
    (fun c => isdigit_of_mem_decimalText) hx hlow hhigh

theorem sign_signedText (x : Int) (rest : Bytes) :
    (if (signedText x ++ rest).headD 0 = chr '-' then (signedText x ++ rest).take 1 else []) =
      if x < 0 then [chr '-'] else [] := by
  by_cases hneg : x < 0
  · simp [signedText, hneg]
  · obtain ⟨c, cs, hcs⟩ := List.exists_cons_of_ne_nil (decimalText_ne_nil x.natAbs)
    have hc : isdigit c = true := isdigit_of_mem_decimalText (n := x.natAbs) (by simp [hcs])
    obtain ⟨-, -, -, hminus, -⟩ := isdigit_ne hc
    simp [signedText, hneg, hcs, hminus]

theorem drop_sign_signedText (x : Int) (rest : Bytes) :
    (signedText x ++ rest).drop (if x < 0 then [chr '-'] else []).length =
      decimalText x.natAbs ++ rest := by
  by_cases hneg : x < 0 <;> simp [signedText, hneg]

theorem readUv_signedText {x : Int} (hlow : longMin ≤ x) (hhigh : x ≤ longMax) (fraction : Bytes) :
    readUv (signedText x ++ chr '.' :: fraction) =
      if fraction ≠ [] ∧ fraction.all isdigit ∧ fraction.length ≤ 3 then
        some ⟨Int64.ofInt x,
          Fin.ofNat _ (value 10 (fraction.map digitValue) * 10 ^ (6 - fraction.length))⟩
      else none := by
  have hdigits : ∀ c ∈ decimalText x.natAbs, isdigit c = true := fun c =>
    isdigit_of_mem_decimalText
  have hdot : isdigit (chr '.') = false := by decide
  have htake : (decimalText x.natAbs ++ chr '.' :: fraction).takeWhile isdigit =
      decimalText x.natAbs := by
    rw [List.takeWhile_append_of_pos hdigits, List.takeWhile_cons, hdot]
    simp
  have hread : strtol10 ((if x < 0 then [chr '-'] else []) ++ decimalText x.natAbs) =
      ⟨x, (if x < 0 then 1 else 0) + (decimalText x.natAbs).length, false⟩ :=
    strtol10_signedText hlow hhigh
  simp only [readUv, sign_signedText, drop_sign_signedText, htake, hread, List.drop_left,
    decimalText_ne_nil, ne_eq, not_false_eq_true, true_and]

/-- The timestamps whose text PHP reads back as the same instant: whole seconds,
and instants after the epoch with three digits of milliseconds. -/
def Faithful (t : Int64) : Prop :=
  t.toInt % 1000 = 0 ∨ (0 ≤ t.toInt ∧ 100 ≤ t.toInt % 1000)

instance (t : Int64) : Decidable (Faithful t) :=
  inferInstanceAs (Decidable (_ ∨ _))

/-- The milliseconds PHP makes of a fraction: the digits of `n` from the left. -/
def readAsFraction (n : Nat) : Nat :=
  n * 10 ^ (3 - (decimalText n).length)

theorem decimalText_length_of_lt (hn : n < 1000) : (decimalText n).length ≤ 3 :=
  decimalText_length_le (by decide) hn

theorem readAsFraction_lt (hn : n < 1000) : readAsFraction n < 1000 := by
  have hlength := decimalText_length_of_lt hn
  have hlt : n < 10 ^ (decimalText n).length := by
    have hdigits : ∀ d ∈ (decimalText n).map digitValue, d < 10 := by
      intro d hd
      obtain ⟨c, hc, rfl⟩ := List.mem_map.mp hd
      exact (isdigit_digitValue (isdigit_of_mem_decimalText hc)).2
    simpa using value_lt (by decide) hdigits
  calc readAsFraction n < 10 ^ (decimalText n).length * 10 ^ (3 - (decimalText n).length) :=
        Nat.mul_lt_mul_of_pos_right hlt (by positivity)
    _ = 10 ^ 3 := by rw [← pow_add, Nat.add_sub_cancel' hlength]
    _ = 1000 := by norm_num

/-- Fewer than three digits are read as more than they say. -/
theorem readAsFraction_eq_iff (hn : n < 1000) :
    readAsFraction n = n ↔ n = 0 ∨ 100 ≤ n := by
  have hlength := decimalText_length_of_lt hn
  constructor
  · intro h
    by_contra hcon
    have hpos : 0 < n := by omega
    have hshort : (decimalText n).length ≤ 2 :=
      decimalText_length_le (by decide) (by omega : n < 10 ^ 2)
    have hpow : 10 ≤ 10 ^ (3 - (decimalText n).length) := Nat.le_self_pow (by omega) 10
    have hmul : n * 10 ≤ readAsFraction n := Nat.mul_le_mul_left n hpow
    omega
  · rintro (rfl | hlarge)
    · rfl
    · have hlong : (decimalText n).length = 3 := by
        have hne : n ≠ 0 := by omega
        rw [decimalText, if_neg hne, List.length_map]
        exact digits_length_eq (by decide) (by omega : 10 ^ 2 ≤ n) hn
      rw [readAsFraction, hlong, Nat.sub_self, pow_zero, Nat.mul_one]

theorem le_readAsFraction (n : Nat) : n ≤ readAsFraction n :=
  Nat.le_mul_of_pos_right n (by positivity)

theorem millisec_cases (x : Int) :
    (0 ≤ x ∧ x.tdiv 1000 = x / 1000) ∨ (x < 0 ∧ x.tdiv 1000 = -(-x / 1000)) := by
  rcases lt_or_ge x 0 with hneg | hpos
  · refine .inr ⟨hneg, ?_⟩
    have hdiv := Int.tdiv_eq_ediv_of_nonneg (a := -x) (b := 1000) (by omega)
    rw [Int.neg_tdiv] at hdiv
    omega
  · exact .inl ⟨hpos, Int.tdiv_eq_ediv_of_nonneg hpos⟩

theorem seconds_in_range (t : Int64) :
    longMin ≤ t.toInt.tdiv 1000 ∧ t.toInt.tdiv 1000 ≤ longMax := by
  have hhigh := t.toInt_lt
  have hlow := t.le_toInt
  unfold longMin longMax
  rcases millisec_cases t.toInt with ⟨_, hdiv⟩ | ⟨_, hdiv⟩ <;> rw [hdiv] <;> omega

/-- After the epoch, or on a whole second, PHP reads the text; the milliseconds
as a fraction. -/
theorem toDateTime_of_millisec {t : Int64} (hn : t.toInt - t.toInt.tdiv 1000 * 1000 = n) :
    ∃ d, toDateTime t = some d ∧ d.seconds.toInt = t.toInt.tdiv 1000 ∧
      (d.microseconds : Nat) = readAsFraction n * 1000 := by
  have hlt : n < 1000 := by
    rcases millisec_cases t.toInt with ⟨_, hdiv⟩ | ⟨_, hdiv⟩ <;> omega
  obtain ⟨hlow, hhigh⟩ := seconds_in_range t
  have htext : signedText (n : Int) = decimalText n := by
    simp [signedText]
  have hdigits : (decimalText n).all isdigit = true :=
    List.all_eq_true.mpr fun c => isdigit_of_mem_decimalText
  have hlength := decimalText_length_of_lt hlt
  have hread : toDateTime t = some ⟨Int64.ofInt (t.toInt.tdiv 1000),
      Fin.ofNat _ (n * 10 ^ (6 - (decimalText n).length))⟩ := by
    rw [toDateTime, timestampText]
    simp only [hn, htext]
    rw [readUv_signedText hlow hhigh, if_pos ⟨decimalText_ne_nil n, hdigits, hlength⟩,
      value_decimalText]
  refine ⟨_, hread, ?_, ?_⟩
  · exact Int64.toInt_ofInt_of_le (by unfold longMin at hlow; omega)
      (by unfold longMax at hhigh; omega)
  · have hpow : 10 ^ (6 - (decimalText n).length) = 10 ^ (3 - (decimalText n).length) * 1000 := by
      rw [show 6 - (decimalText n).length = 3 - (decimalText n).length + 3 by omega, pow_add]
      norm_num
    have hfraction := readAsFraction_lt hlt
    simp only [Fin.val_ofNat, hpow, ← Nat.mul_assoc]
    exact Nat.mod_eq_of_lt (by unfold readAsFraction at hfraction; omega)

/-- Before the epoch the milliseconds have a sign of their own, and PHP refuses
the text. -/
theorem toDateTime_of_neg {t : Int64} (h : t.toInt - t.toInt.tdiv 1000 * 1000 < 0) :
    toDateTime t = none := by
  obtain ⟨hlow, hhigh⟩ := seconds_in_range t
  have hminus : (signedText (t.toInt - t.toInt.tdiv 1000 * 1000)).all isdigit = false := by
    rw [signedText, if_pos h]
    rfl
  rw [toDateTime, timestampText, readUv_signedText hlow hhigh, if_neg]
  simp [hminus]

theorem toDateTime_cases (t : Int64) :
    (toDateTime t = none ∧ ¬ Faithful t) ∨
      ∃ (n : Nat) (d : DateTime), t.toInt - t.toInt.tdiv 1000 * 1000 = n ∧ n < 1000 ∧
        toDateTime t = some d ∧ d.seconds.toInt = t.toInt.tdiv 1000 ∧
          (d.microseconds : Nat) = readAsFraction n * 1000 := by
  by_cases hneg : t.toInt - t.toInt.tdiv 1000 * 1000 < 0
  · refine .inl ⟨toDateTime_of_neg hneg, ?_⟩
    unfold Faithful
    rcases millisec_cases t.toInt with ⟨_, hdiv⟩ | ⟨_, hdiv⟩ <;> omega
  · obtain ⟨n, hn⟩ := Int.eq_ofNat_of_zero_le (Int.not_lt.mp hneg)
    obtain ⟨d, hd⟩ := toDateTime_of_millisec hn
    refine .inr ⟨n, d, hn, ?_, hd⟩
    rcases millisec_cases t.toInt with ⟨_, hdiv⟩ | ⟨_, hdiv⟩ <;> omega

theorem toDateTime_instant_iff (t : Int64) :
    (toDateTime t).map DateTime.instant = some (t.toInt * 1000) ↔ Faithful t := by
  rcases toDateTime_cases t with ⟨hnone, hnot⟩ | ⟨n, d, hn, hlt, hread, hseconds, hmicro⟩
  · simp [hnone, hnot]
  · unfold Faithful
    have hsame : (d.instant = t.toInt * 1000) ↔ readAsFraction n = n := by
      rw [DateTime.instant, hseconds, hmicro]
      omega
    rw [hread, Option.map_some, Option.some.injEq, hsame, readAsFraction_eq_iff hlt]
    rcases millisec_cases t.toInt with ⟨_, hdiv⟩ | ⟨_, hdiv⟩ <;> omega

/-- The DateTimes of millisecond precision whose count `fromDateTime()` gets
right: it fits a timestamp, and is not before the epoch within a second. -/
def Countable (count : Int) : Prop :=
  (longMin ≤ count ∧ count ≤ longMax ∧ (0 ≤ count ∨ count % 1000 = 0)) ∨ count = longMin

theorem fromDateTime_count_iff (seconds : Int64) (ms : Fin 1000) :
    (fromDateTime ⟨seconds, Fin.ofNat _ (ms * 1000)⟩).toInt = seconds.toInt * 1000 + (ms : Nat) ↔
      Countable (seconds.toInt * 1000 + (ms : Nat)) := by
  have hms := ms.isLt
  have hmicro : (Fin.ofNat 1000000 (ms * 1000) : Fin 1000000).val / 1000 = ms := by
    rw [Fin.val_ofNat, Nat.mod_eq_of_lt (by omega)]
    omega
  rw [toInt_fromDateTime]
  simp only [hmicro]
  rw [clampLong_fst_eq_iff]
  unfold Countable longMin longMax
  split_ifs <;> omega

theorem fromDateTime_toDateTime_iff (t : Int64) :
    (toDateTime t).map fromDateTime = some t ↔ Faithful t := by
  have hhigh := t.toInt_lt
  have hlow := t.le_toInt
  rcases toDateTime_cases t with ⟨hnone, hnot⟩ | ⟨n, d, hn, hlt, hread, hseconds, hmicro⟩
  · simp [hnone, hnot]
  · unfold Faithful
    have hle := le_readAsFraction n
    have hiff := readAsFraction_eq_iff hlt
    have hms : (d.microseconds : Nat) / 1000 = readAsFraction n := by
      rw [hmicro]
      exact Nat.mul_div_cancel _ (by decide)
    rw [hread, Option.map_some, Option.some.injEq, ← Int64.toInt_inj, toInt_fromDateTime,
      hseconds, hms, clampLong_fst_eq_iff]
    unfold longMin longMax
    rcases millisec_cases t.toInt with ⟨_, hdiv⟩ | ⟨_, hdiv⟩ <;> rw [hdiv] at hn ⊢ <;>
      split_ifs <;> omega

/-- Timestamps and DateTimes: which timestamps become their own instant, of
which DateTimes the milliseconds are counted, and which timestamps come back. -/
theorem timestamp_datetime_iff
    (t seconds : Int64)
    (ms : Fin 1000) :
    ((toDateTime t).map DateTime.instant = some (t.toInt * 1000) ↔ Faithful t) ∧
    ((fromDateTime ⟨seconds, Fin.ofNat _ (ms * 1000)⟩).toInt =
        seconds.toInt * 1000 + (ms : Nat) ↔
      Countable (seconds.toInt * 1000 + (ms : Nat))) ∧
    ((toDateTime t).map fromDateTime = some t ↔ Faithful t) :=
  ⟨toDateTime_instant_iff t, fromDateTime_count_iff seconds ms, fromDateTime_toDateTime_iff t⟩

/-- Five milliseconds become half a second, half a second before the epoch is
refused, and is counted as one and a half. -/
theorem timestamp_datetime_wrong :
    (toDateTime 5).map DateTime.instant = some 500000 ∧ toDateTime (-500) = none ∧
      fromDateTime ⟨-1, 500000⟩ = -1500 := by
  decide +kernel

end Timestamps
end ScyllaDriver
