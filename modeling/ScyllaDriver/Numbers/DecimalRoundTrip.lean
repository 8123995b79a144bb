import ScyllaDriver.Numbers.DecimalGrammar

/-!
# Printing a Decimal and parsing the text again

`layout` puts a decimal text together from its parts. `parseDecimal_layout`
says what the parser reads from it and `formatDecimal_eq_layout` which layout
the printer chooses. Two kinds of text do not come back.

* A zero in scientific notation, such as `0E-7`, starts with a `0` and has no
  dot, so the parser takes it for an octal number and hands it to
  `php_scylladb_parse_varint`, which rejects the `E`.
* A text longer than `INT_MAX` is cut by the conversion of its length to
  `int`, so at most `2 ^ 31 - 1` of its digits can be read.
-/

namespace ScyllaDriver
namespace Numbers

open Positional CString

/-- `E` and the exponent, or nothing. -/
def exponentText : Option Int → Bytes
  | none => []
  | some e => chr 'E' :: formatSignedLong e

/-- A decimal text put together from its parts. -/
def layout (neg : Bool) (ip : Bytes) (fp : Option Bytes) (e : Option Int) : Bytes :=
  signText neg ++ (ip ++ (fractionText fp ++ exponentText e))

/-- Parts that are in order: digits where digits belong, at least one of them,
and an exponent that a `long` holds. -/
structure LayoutOk (ip : Bytes) (fp : Option Bytes) (e : Option Int) :
    Prop where
  ipDigits : ∀ c ∈ ip, isdigit c = true
  fpDigits : ∀ c ∈ fp.getD [], isdigit c = true
  someDigit : ip ++ fp.getD [] ≠ []
  expRange : ∀ x ∈ e, longMin ≤ x ∧ x ≤ longMax

def unscaledOf (neg : Bool) (ip : Bytes) (fp : Option Bytes) : Int :=
  if neg then -(value 10 ((ip ++ fp.getD []).map digitValue) : Int)
  else value 10 ((ip ++ fp.getD []).map digitValue)

def scaleOf (fp : Option Bytes) : Option Int → Int
  | none => (fp.getD []).length
  | some x => toInt64 ((fp.getD []).length - x)

variable {e : Option Int} {fp : Option Bytes} {ip : Bytes} {neg : Bool}

theorem signText_signText (neg : Bool) : SignText (signText neg) neg := by
  cases neg with
  | true => exact .minus
  | false => exact .plain

theorem exponent_exponentText (e : Option Int) : Exponent LaxSign (exponentText e) (e.getD 0) := by
  cases e with
  | none => exact .absent
  | some x =>
    have hne := decimalText_ne_nil x.natAbs
    have hds : ∀ c ∈ decimalText x.natAbs, isdigit c = true :=
      fun c hc => isdigit_of_mem_decimalText hc
    by_cases hneg : x < 0
    · have hexp : Exponent LaxSign (chr 'E' :: ([chr '-'] ++ decimalText x.natAbs)) _ :=
        .written (.inr rfl) (.bare : LaxSign (signText true) true) hne hds
      have hx : signed true x.natAbs = x := by simp only [signed, if_true]; omega
      simpa [exponentText, formatSignedLong, hneg, hx] using hexp
    · have hexp : Exponent LaxSign (chr 'E' :: ([chr '+'] ++ decimalText x.natAbs)) _ :=
        .written (.inr rfl) (.plus : LaxSign (chr '+' :: signText false) false) hne hds
      have hx : signed false x.natAbs = x := by
        simp only [signed, Bool.false_eq_true, if_false]
        omega
      simpa [exponentText, formatSignedLong, hneg, hx] using hexp

theorem byteAt_layout_next (neg : Bool) (h : LayoutOk ip fp e) :
    byteAt (layout neg ip fp e) ((signText neg).length + 1) ≠ chr 'b' ∧
      byteAt (layout neg ip fp e) ((signText neg).length + 1) ≠ chr 'x' := by
  have hdrop :
      (layout neg ip fp e).drop ((signText neg).length + 1) =
        (ip ++ (fractionText fp ++ exponentText e)).drop 1 := by
    rw [layout, List.drop_append]
    simp
  have hmem :
      ∀ c ∈ ip ++ (fractionText fp ++ exponentText e), c ≠ chr 'b' ∧ c ≠ chr 'x' := by
    intro c hc
    simp only [List.mem_append] at hc
    rcases hc with hc | hc | hc
    · have := isdigit_ne (h.ipDigits c hc)
      tauto
    · cases fp with
      | none =>
        simp [fractionText] at hc
      | some fp =>
        rcases List.mem_cons.mp hc with rfl | hc
        · decide
        · have := isdigit_ne (h.fpDigits c (by simpa using hc))
          tauto
    · cases e with
      | none =>
        simp [exponentText] at hc
      | some x =>
        simp only [exponentText, formatSignedLong, List.mem_cons] at hc
        rcases hc with rfl | rfl | hc
        · decide
        · split_ifs <;> decide
        · have := isdigit_ne (isdigit_of_mem_decimalText hc)
          tauto
  unfold byteAt
  rw [hdrop]
  generalize hrest : (ip ++ (fractionText fp ++ exponentText e)).drop 1 = rest
  cases rest with
  | nil =>
    decide
  | cons c cs =>
    apply hmem
    apply List.mem_of_mem_drop (i := 1)
    simp [hrest]

/--
What the parser makes of a text in order. A text without a dot must not
start with a zero, or it is read as an octal number.
-/
theorem parseDecimal_layout (h : LayoutOk ip fp e) (hoctal : fp ≠ none ∨ ip.headD 0 ≠ chr '0')
    (hlen : (layout neg ip fp e).length < 2 ^ 31) :
    parseDecimal (layout neg ip fp e) = .ok (unscaledOf neg ip fp, scaleOf fp e) := by
  have hin : inLen (layout neg ip fp e) = (layout neg ip fp e).length := toInt32_of_lt hlen
  have hconverted : converted (layout neg ip fp e) = layout neg ip fp e := by
    rw [converted, hin, Int.toNat_natCast, List.take_length]
  have hds : ∀ c ∈ ip ++ fp.getD [], isdigit c = true :=
    List.forall_mem_append.mpr ⟨h.ipDigits, h.fpDigits⟩
  have hbytes : ∀ c ∈ ip ++ fp.getD [], Scannable c := fun c hc => scannable_of_digit (hds c hc)
  have hmark := exponent_exponentText e
  obtain ⟨hbody, hhead⟩ := head_of_digits h.someDigit hds (exponentText e)
  obtain ⟨hstart, -⟩ :=
    sign_found (rfl : layout neg ip fp e = _) (signText_signText neg) hbody hhead
  have hpath : DecimalPath (layout neg ip fp e) := by
    intro hzero
    rw [hstart] at hzero ⊢
    refine ⟨byteAt_layout_next neg h, ?_⟩
    rw [hconverted, layout, List.drop_left, takeWhile_parts hbytes hmark.atMark, dot_mem_iff hbytes]
    rintro rfl
    obtain ⟨c, cs, rfl⟩ := List.exists_cons_of_ne_nil (by simpa using h.someDigit : ip ≠ [])
    rw [byteAt, layout, List.drop_left] at hzero
    exact hoctal.elim (fun hfp => hfp rfl) fun hc => hc hzero
  refine (parseDecimal_eq_ok_iff hpath).mpr ⟨signText neg ++ (ip ++ fractionText fp),
    exponentText e, _, _, e.getD 0, ?_, .intro (signText_signText neg) hds h.someDigit, hmark,
    ?_, ?_, signed_eq_quantity _ _ _, ?_⟩
  · rw [hconverted, layout]
    simp only [List.append_assoc]
  · cases e with
    | none => exact ⟨by decide, by decide⟩
    | some x => exact h.expRange x rfl
  · intro _
    rw [hconverted, byteAt, List.drop_length]
    rfl
  · cases e with
    | none =>
      have hshort : (fp.getD []).length ≤ (layout neg ip fp none).length := by
        cases fp with
        | none => simp
        | some fs => simp [layout, fractionText]; omega
      rw [Option.getD_none, Int.sub_zero, toInt64_of_range (by omega) (by omega)]
      rfl
    | some x => rfl

def digitCount (number : Int) : Nat :=
  (decimalText number.natAbs).length

/-- Plain notation: a positive scale with an adjusted exponent of at least
`-6`. -/
def Plain (number scale : Int) : Prop :=
  0 < scale ∧ -6 ≤ (digitCount number : Int) - scale - 1

instance (number scale : Int) : Decidable (Plain number scale) :=
  inferInstanceAs (Decidable (_ ∧ _))

/-- Integer part, fraction and exponent of the printed text. -/
def formatParts (number scale : Int) : Bytes × Option Bytes × Option Int :=
  let ds := decimalText number.natAbs
  let point : Int := ds.length - scale
  if scale = 0 then
    (ds, none, none)
  else if Plain number scale then
    if point ≤ 0 then
      ([chr '0'], some (List.replicate (-point).toNat (chr '0') ++ ds), none)
    else
      (ds.take point.toNat, some (ds.drop point.toNat), none)
  else if ds.length = 1 then
    (ds, none, some (point - 1))
  else
    (ds.take 1, some (ds.drop 1), some (point - 1))

theorem digitCount_pos (number : Int) : 0 < digitCount number :=
  List.length_pos_of_ne_nil (decimalText_ne_nil _)

theorem mpzGetStr_eq (number : Int) :
    mpzGetStr number = signText (decide (number < 0)) ++ decimalText number.natAbs := by
  simp [mpzGetStr, signText]

theorem insertDot_append (xs ys : Bytes) (i : Nat) :
    insertDot (xs ++ ys) (i + xs.length) = xs ++ insertDot ys i := by
  have htake : xs.take (i + xs.length) = xs := List.take_of_length_le (by omega)
  have hdrop : xs.drop (i + xs.length) = [] := List.drop_of_length_le (by omega)
  simp [insertDot, List.take_append, List.drop_append, htake, hdrop]

theorem formatDecimal_eq_layout (number scale : Int) :
    formatDecimal number scale =
      layout (decide (number < 0)) (formatParts number scale).1
        (formatParts number scale).2.1 (formatParts number scale).2.2 := by
  have hsign : (signText (decide (number < 0))).length = if number < 0 then 1 else 0 := by
    simp [signText_length]
  have hlen : (mpzGetStr number).length - (if number < 0 then 1 else 0) =
      (decimalText number.natAbs).length := by
    rw [mpzGetStr_eq, List.length_append, hsign]
    omega
  have hdrop : (mpzGetStr number).drop (if number < 0 then 1 else 0) =
      decimalText number.natAbs := by
    rw [mpzGetStr_eq, ← hsign, List.drop_left]
  have hinsert : ∀ i : Nat,
      insertDot (mpzGetStr number) (i + if number < 0 then 1 else 0) =
        signText (decide (number < 0)) ++ insertDot (decimalText number.natAbs) i := by
    intro i
    rw [mpzGetStr_eq, ← hsign, insertDot_append]
  by_cases hzero : scale = 0
  · simp [formatDecimal, formatParts, hzero, formatInteger, mpzGetStr_eq,
      layout, fractionText, exponentText]
  · by_cases hplain : Plain number scale
    · have hcond : 0 < scale ∧ -6 ≤ ((decimalText number.natAbs).length : Int) - scale - 1 := hplain
      by_cases hpoint : ((decimalText number.natAbs).length : Int) - scale ≤ 0
      · simp only [formatDecimal, formatParts, hzero, if_false, hlen, hcond,
          hplain, hpoint, if_true, hdrop]
        simp [layout, signText, fractionText, exponentText]
      · simp only [formatDecimal, formatParts, hzero, if_false, hlen, hcond,
          hplain, hpoint, if_true, hinsert]
        simp [layout, insertDot, fractionText, exponentText]
    · have hcond : ¬ (0 < scale ∧ -6 ≤ ((decimalText number.natAbs).length : Int) - scale - 1) :=
        hplain
      by_cases hone : (decimalText number.natAbs).length = 1
      · simp only [formatDecimal, formatParts, hzero, if_false, hlen, hcond, hplain]
        simp [hone, layout, fractionText, exponentText, mpzGetStr_eq]
      · simp only [formatDecimal, formatParts, hzero, if_false, hlen, hcond, hplain, hone, hinsert]
        simp [layout, insertDot, fractionText, exponentText]

variable {number scale : Int}

theorem formatParts_ok (hlow : -2 ^ 31 ≤ scale) (hhigh : scale < 2 ^ 31)
    (hcount : digitCount number < 2 ^ 62) :
    LayoutOk (formatParts number scale).1 (formatParts number scale).2.1
      (formatParts number scale).2.2 := by
  have hds : ∀ c ∈ decimalText number.natAbs, isdigit c = true :=
    fun c hc => isdigit_of_mem_decimalText hc
  have hne := decimalText_ne_nil number.natAbs
  have hzeroDigit : isdigit (chr '0') = true := by decide
  have hrange :
      longMin ≤ ((decimalText number.natAbs).length : Int) - scale - 1 ∧
        ((decimalText number.natAbs).length : Int) - scale - 1 ≤ longMax := by
    unfold digitCount at hcount
    unfold longMin longMax
    constructor <;> omega
  unfold formatParts
  simp only
  split_ifs with hzero hplain hpoint hone
  · exact ⟨hds, by simp, by simpa using hne, by simp⟩
  · refine ⟨by simpa using hzeroDigit, ?_, by simp, by simp⟩
    intro c hc
    simp only [Option.getD_some, List.mem_append] at hc
    rcases hc with hc | hc
    · rw [List.eq_of_mem_replicate hc]
      exact hzeroDigit
    · exact hds c hc
  · refine ⟨?_, ?_, ?_, by simp⟩
    · intro c hc
      exact hds c (List.mem_of_mem_take hc)
    · intro c hc
      exact hds c (List.mem_of_mem_drop hc)
    · simpa using hne
  · exact ⟨hds, by simp, by simpa using hne, by simpa using hrange⟩
  · refine ⟨?_, ?_, ?_, by simpa using hrange⟩
    · intro c hc
      exact hds c (List.mem_of_mem_take hc)
    · intro c hc
      exact hds c (List.mem_of_mem_drop hc)
    · rwa [Option.getD_some, List.take_append_drop]

theorem unscaledOf_formatParts (number scale : Int) :
    unscaledOf (decide (number < 0)) (formatParts number scale).1
      (formatParts number scale).2.1 = number := by
  have hvalue :
      value 10 (((formatParts number scale).1 ++
        (formatParts number scale).2.1.getD []).map digitValue) =
        number.natAbs := by
    have hzero : digitValue (chr '0') = 0 := by decide
    unfold formatParts
    simp only
    split_ifs with hscale hplain hpoint hone
    · simp
    · simp only [Option.getD_some, List.singleton_append, List.map_cons,
        List.map_append, List.map_replicate, hzero]
      rw [value_cons, value_append, value_decimalText]
      simp
    · rw [Option.getD_some, List.take_append_drop, value_decimalText]
    · simp
    · rw [Option.getD_some, List.take_append_drop, value_decimalText]
  unfold unscaledOf
  rw [hvalue]
  split_ifs with hneg
  · have := of_decide_eq_true hneg
    omega
  · have hnonneg : ¬ number < 0 := by
      simpa using hneg
    omega

theorem scaleOf_formatParts (hlow : -2 ^ 31 ≤ scale) (hhigh : scale < 2 ^ 31) :
    scaleOf (formatParts number scale).2.1 (formatParts number scale).2.2 = scale := by
  have hwrap : toInt64 scale = scale := toInt64_of_range (by omega) (by omega)
  have hpos := digitCount_pos number
  unfold digitCount at hpos
  unfold formatParts
  simp only
  split_ifs with hzero hplain hpoint hone
  · simp [scaleOf, hzero]
  · simp only [scaleOf, Option.getD_some, List.length_append, List.length_replicate]
    omega
  · have := hplain.1
    simp only [scaleOf, Option.getD_some, List.length_drop]
    omega
  · have hexp : ((([] : Bytes).length : Int) -
        (((decimalText number.natAbs).length : Int) - scale - 1)) = scale := by
      simp [hone]
    simp only [scaleOf, Option.getD_none, hexp, hwrap]
  · have hexp : ((((decimalText number.natAbs).drop 1).length : Int) -
        (((decimalText number.natAbs).length : Int) - scale - 1)) = scale := by
      rw [List.length_drop]
      omega
    simp only [scaleOf, Option.getD_some, hexp, hwrap]

/-- Length of the text `formatDecimal` prints. -/
def decimalTextLength (number scale : Int) : Nat :=
  (if number < 0 then 1 else 0) +
    if scale = 0 then
      digitCount number
    else if Plain number scale then
      if (digitCount number : Int) ≤ scale then 2 + scale.toNat
      else digitCount number + 1
    else
      (if digitCount number = 1 then 1 else digitCount number + 1) + 2 +
        digitCount (digitCount number - scale - 1)

theorem length_formatDecimal (number scale : Int) :
    (formatDecimal number scale).length = decimalTextLength number scale := by
  have hsign : (signText (decide (number < 0))).length = if number < 0 then 1 else 0 := by
    simp [signText_length]
  have hpos := digitCount_pos number
  rw [formatDecimal_eq_layout, layout]
  simp only [List.length_append, hsign]
  unfold decimalTextLength formatParts
  unfold digitCount at hpos ⊢
  simp only
  congr 1
  split_ifs with hzero hplain hpoint hle hle hone
  · simp [fractionText, exponentText]
  · simp only [fractionText, exponentText, List.length_cons,
      List.length_append, List.length_replicate, List.length_nil]
    omega
  · omega
  · omega
  · simp only [fractionText, exponentText, List.length_cons, List.length_take,
      List.length_drop, List.length_nil]
    omega
  · simp only [fractionText, exponentText, List.length_cons, formatSignedLong,
      List.length_nil, hone]
    omega
  · simp only [fractionText, exponentText, List.length_cons, List.length_take,
      List.length_drop, formatSignedLong]
    omega

theorem decimalTextLength_le (hlow : -2 ^ 31 ≤ scale) (hhigh : scale < 2 ^ 31)
    (hcount : digitCount number ≤ 2 ^ 31 + 2) :
    decimalTextLength number scale ≤ digitCount number + 14 := by
  have hexp : digitCount (digitCount number - scale - 1) ≤ 10 := by
    apply decimalText_length_le (by decide)
    norm_num
    omega
  unfold decimalTextLength
  by_cases hplain : Plain number scale
  · have hadjusted := hplain.2
    split_ifs <;> omega
  · split_ifs <;> omega

theorem digitCount_le_of_lt {k : Nat} (hne : number ≠ 0) (h : number.natAbs < 10 ^ k) :
    digitCount number ≤ k := by
  have hpow := pow_le_of_decimalText (Int.natAbs_ne_zero.mpr hne)
  have hlt : digitCount number - 1 < k :=
    (Nat.pow_lt_pow_iff_right (by decide)).mp (lt_of_le_of_lt hpow h)
  omega

theorem scale_eq_zero_of_not_path {s : Bytes} (hpath : ¬ DecimalPath s)
    (h : parseDecimal s = .ok (number, scale)) :
    byteAt s (decimalStart s) = chr '0' ∧ scale = 0 := by
  obtain ⟨hzero, hdot⟩ := Classical.not_imp.mp hpath
  refine ⟨hzero, ?_⟩
  have hvarint :
      (parseVarint s).map (fun n => (n, (0 : Int))) = .ok (number, scale) → scale = 0 := by
    intro hok
    obtain ⟨n, -, hpair⟩ := map_eq_ok hok
    exact (Prod.mk.inj hpair).2.symm
  rw [parseDecimal_eq] at h
  dsimp only at h
  split_ifs at h with hbase
  · exact hvarint h
  · cases hscan : scanDecimal ((converted s).drop (decimalStart s)) (decimalStart s) none with
    | error e => simp [hscan, afterScan] at h
    | ok stop =>
      obtain ⟨ip, fp, rest, htext, hbytes, hrest, rfl⟩ := scanDecimal_none_ok hscan
      have hnone : fp = none := by
        by_contra hfp
        refine hdot ⟨⟨fun hb => hbase ⟨hzero, .inl hb⟩, fun hx => hbase ⟨hzero, .inr hx⟩⟩, ?_⟩
        rwa [htext, takeWhile_parts hbytes hrest, dot_mem_iff hbytes]
      rw [hscan, afterScan, if_pos ⟨hzero, by simp [hnone]⟩] at h
      exact hvarint h

/-- On the decimal path no more digits are read than the 32-bit length allows. -/
theorem natAbs_lt_of_path {s : Bytes} (hpath : DecimalPath s)
    (h : parseDecimal s = .ok (number, scale)) : number.natAbs < 10 ^ (inLen s).toNat := by
  obtain ⟨m, e, c, fraction, exponent, hconverted, hm, -, -, -, hv, -⟩ :=
    (parseDecimal_eq_ok_iff hpath).mp h
  cases hm with
  | @intro sign ip fp negative hsign hds hne =>
    rw [← signed_eq_quantity] at hv
    have hnumber : number = signed negative (value 10 ((ip ++ fp.getD []).map digitValue)) := by
      exact_mod_cast hv
    have habs : number.natAbs = value 10 ((ip ++ fp.getD []).map digitValue) := by
      rw [hnumber, signed]
      split_ifs <;> simp
    have hdigits : ∀ d ∈ (ip ++ fp.getD []).map digitValue, d < 10 := by
      intro d hd
      obtain ⟨c, hc, rfl⟩ := List.mem_map.mp hd
      exact (isdigit_digitValue (hds c hc)).2
    have hfraction : (fp.getD []).length ≤ (fractionText fp).length := by
      cases fp with
      | none => rfl
      | some fs => exact Nat.le_succ _
    have hlength := congrArg List.length hconverted
    have htake := List.length_take_le (inLen s).toNat s
    rw [← converted, hlength] at htake
    rw [habs]
    refine lt_of_lt_of_le (value_lt (by decide) hdigits) (Nat.pow_le_pow_right (by decide) ?_)
    simp only [List.length_map, List.length_append] at htake ⊢
    omega

/-- A zero followed by an exponent mark is taken for an octal integer. -/
theorem not_path_zero_exponent (rest : Bytes) : ¬ DecimalPath (chr '0' :: chr 'E' :: rest) := by
  intro hpath
  have hmem := (hpath rfl).2
  have hstart : decimalStart (chr '0' :: chr 'E' :: rest) = 0 := rfl
  rw [hstart, List.drop_zero, converted] at hmem
  revert hmem
  rcases (inLen (chr '0' :: chr 'E' :: rest)).toNat with _ | _ | k
  · simp
  · simp
    decide
  · simp +decide

/--
The pairs that come back: a zero needs a scale that prints without an
exponent, and the text must be short enough for an `int` to hold its length.
-/
def RoundTrips (number scale : Int) : Prop :=
  (number ≠ 0 ∨ (0 ≤ scale ∧ scale ≤ 6)) ∧ decimalTextLength number scale < 2 ^ 31

instance (number scale : Int) : Decidable (RoundTrips number scale) :=
  inferInstanceAs (Decidable (_ ∧ _))

theorem formatParts_not_octal (h : number ≠ 0 ∨ Plain number scale) :
    (formatParts number scale).2.1 ≠ none ∨ (formatParts number scale).1.headD 0 ≠ chr '0' := by
  have hhead : number ≠ 0 → (decimalText number.natAbs).headD 0 ≠ chr '0' := by
    intro hne
    obtain ⟨c, cs, hcs, hc⟩ := decimalText_head_ne_zero (Int.natAbs_ne_zero.mpr hne)
    rw [hcs]
    exact hc
  unfold formatParts
  simp only
  split_ifs with hzero hplain hpoint hone
  · refine .inr (hhead (h.resolve_right ?_))
    intro hplain
    exact absurd hplain.1 (by omega)
  · exact .inl (by simp)
  · exact .inl (by simp)
  · exact .inr (hhead (h.resolve_right hplain))
  · exact .inl (by simp)

theorem parseDecimal_formatDecimal_of_short (hlow : -2 ^ 31 ≤ scale) (hhigh : scale < 2 ^ 31)
    (hshape : number ≠ 0 ∨ Plain number scale) (hlen : decimalTextLength number scale < 2 ^ 31) :
    parseDecimal (formatDecimal number scale) = .ok (number, scale) := by
  have hcount : digitCount number < 2 ^ 62 := by
    have hle : digitCount number ≤ decimalTextLength number scale := by
      unfold decimalTextLength
      split_ifs <;> omega
    omega
  have hok := formatParts_ok hlow hhigh hcount
  have hlayout := formatDecimal_eq_layout number scale
  rw [hlayout, parseDecimal_layout hok (formatParts_not_octal hshape)
    (by rw [← hlayout, length_formatDecimal]; exact hlen),
    unscaledOf_formatParts, scaleOf_formatParts hlow hhigh]

theorem formatDecimal_zero_scientific (hzero : scale ≠ 0) (hplain : ¬ Plain 0 scale) :
    formatDecimal 0 scale = chr '0' :: chr 'E' :: formatSignedLong (-scale) := by
  have hdigit : digitChar 0 = chr '0' := by decide
  rw [formatDecimal_eq_layout]
  simp only [formatParts, hzero, hplain, if_false]
  simp [hdigit, decimalText, layout, signText, fractionText, exponentText]

/-- A text that is too long never gives its number back. -/
theorem parseDecimal_formatDecimal_of_long (hlow : -2 ^ 31 ≤ scale) (hhigh : scale < 2 ^ 31)
    (hne : number ≠ 0) (hlen : 2 ^ 31 ≤ decimalTextLength number scale) :
    parseDecimal (formatDecimal number scale) ≠ .ok (number, scale) := by
  intro hok
  by_cases hpath : DecimalPath (formatDecimal number scale)
  · have hin := toInt32_ne (n := (formatDecimal number scale).length)
      (by rwa [length_formatDecimal])
    change inLen (formatDecimal number scale) < 2 ^ 31 ∧
      (inLen (formatDecimal number scale) < 0 ∨ _) at hin
    have hcount := digitCount_le_of_lt hne (natAbs_lt_of_path hpath hok)
    -- fewer than `2 ^ 31` digits were read, so the text is below `2 ^ 32`
    have hshort : decimalTextLength number scale ≤ digitCount number + 14 :=
      decimalTextLength_le hlow hhigh (by omega)
    rw [length_formatDecimal] at hin
    omega
  · obtain ⟨hoctal, rfl⟩ := scale_eq_zero_of_not_path hpath hok
    obtain ⟨c, cs, hcs, hc⟩ := decimalText_head_ne_zero (Int.natAbs_ne_zero.mpr hne)
    have htext : formatDecimal number 0 = signText (decide (number < 0)) ++ (c :: cs) := by
      rw [← hcs, ← mpzGetStr_eq]
      rfl
    have hdigit : isdigit c = true := isdigit_of_mem_decimalText (hcs ▸ List.mem_cons_self)
    obtain ⟨-, -, -, hminus, hplus, -⟩ := isdigit_ne hdigit
    obtain ⟨hstart, -⟩ := sign_found htext (signText_signText _) (by simp) (by simp [hminus, hplus])
    rw [hstart, htext, byteAt, List.drop_left] at hoctal
    exact hc hoctal

/--
Parsing the printed form of a Decimal gives the same unscaled value and scale
exactly for the pairs of `RoundTrips`.
-/
theorem parseDecimal_formatDecimal_iff
    (number scale : Int)
    (hlow : -2 ^ 31 ≤ scale)
    (hhigh : scale < 2 ^ 31) :
    parseDecimal (formatDecimal number scale) = .ok (number, scale) ↔
      RoundTrips number scale := by
  by_cases hne : number = 0
  · subst hne
    have hshort : decimalTextLength 0 scale < 2 ^ 31 := by
      have hone : digitCount 0 = 1 := by decide
      have : decimalTextLength 0 scale ≤ digitCount 0 + 14 :=
        decimalTextLength_le hlow hhigh (by omega)
      omega
    have hplain : Plain 0 scale ↔ 0 < scale ∧ scale ≤ 6 := by
      have hone : digitCount 0 = 1 := by decide
      unfold Plain
      rw [hone]
      omega
    constructor
    · intro hok
      refine ⟨.inr ?_, hshort⟩
      by_contra hscale
      have hsci : ¬ Plain 0 scale := by
        rw [hplain]
        omega
      rw [formatDecimal_zero_scientific (by omega) hsci] at hok
      obtain ⟨-, rfl⟩ := scale_eq_zero_of_not_path (not_path_zero_exponent _) hok
      omega
    · rintro ⟨hscale, -⟩
      have hscale := hscale.resolve_left (fun h => h rfl)
      by_cases hzero : scale = 0
      · subst hzero
        decide +kernel
      · exact parseDecimal_formatDecimal_of_short hlow hhigh (.inr (hplain.mpr (by omega))) hshort
  · constructor
    · intro hok
      refine ⟨.inl hne, ?_⟩
      by_contra hlong
      exact parseDecimal_formatDecimal_of_long hlow hhigh hne (by omega) hok
    · rintro ⟨-, hlen⟩
      exact parseDecimal_formatDecimal_of_short hlow hhigh (.inl hne) hlen

theorem parseDecimal_formatDecimal_neg_123 :
    parseDecimal (formatDecimal (-123) 9) = .ok (-123, 9) :=
  (parseDecimal_formatDecimal_iff (-123) 9 (by decide) (by decide)).mpr (by decide +kernel)

/-- `0E-7` is printed and not read. -/
theorem parseDecimal_formatDecimal_zero :
    formatDecimal 0 7 = ascii "0E-7" ∧
      parseDecimal (formatDecimal 0 7) =
        .error (.invalidArgument "Invalid integer value: '%.*s'") ∧
      ¬ ∀ number scale : Int, -2 ^ 31 ≤ scale → scale < 2 ^ 31 →
        parseDecimal (formatDecimal number scale) = .ok (number, scale) := by
  have herr : parseDecimal (formatDecimal 0 7) =
      .error (.invalidArgument "Invalid integer value: '%.*s'") := by
    decide +kernel
  refine ⟨by decide +kernel, herr, ?_⟩
  intro hall
  have hok := hall 0 7 (by decide) (by decide)
  rw [herr] at hok
  cases hok

end Numbers
end ScyllaDriver
