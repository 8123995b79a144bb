import ScyllaDriver.Numbers.DecimalText
import ScyllaDriver.Numbers.VarintText

/-!
# The texts that the decimal path of `php_scylladb_parse_decimal` accepts

A decimal number is written as a sign, digits with at most one dot, and an exponent of
a mark, a sign and digits. The parser first looks for dot and mark, running over
hexadecimal digits as well, then copies what stands before the mark without its dot
and hands it to `mpz_set_str`, and last reads the exponent with `strtol`.

Three things go wrong. A plus sign before the exponent is skipped and `strtol` takes
a minus sign after it. The scale is a 64-bit difference that can overflow. And only
as many bytes are read as the length, cut to 32 bits, has.
-/

namespace ScyllaDriver
namespace Numbers

open Positional CString

/-- The number that digits before and behind a dot write. -/
def quantity (negative : Bool) (ip fs : Bytes) : ℚ :=
  (if negative then -1 else 1) *
    (value 10 (ip.map digitValue) + value 10 (fs.map digitValue) / 10 ^ fs.length)

/-- A number without its exponent: the text, what it denotes, and how many digits
stand behind the dot. -/
inductive Significand : Bytes → ℚ → Nat → Prop
  | intro {sign ip : Bytes} {fp : Option Bytes} {negative : Bool} :
      SignText sign negative →
      (∀ c ∈ ip ++ fp.getD [], isdigit c = true) →
      ip ++ fp.getD [] ≠ [] →
      Significand (sign ++ (ip ++ fractionText fp)) (quantity negative ip (fp.getD []))
        (fp.getD []).length

/-- The bytes that mark an exponent. -/
def IsMark (c : UInt8) : Prop :=
  c = chr 'e' ∨ c = chr 'E'

instance (c : UInt8) : Decidable (IsMark c) :=
  inferInstanceAs (Decidable (_ ∨ _))

/-- An exponent, or none, with signs of the form `S`. -/
inductive Exponent (S : Bytes → Bool → Prop) : Bytes → Int → Prop
  | absent : Exponent S [] 0
  | written {mark : UInt8} {sign ds : Bytes} {negative : Bool} :
      IsMark mark →
      S sign negative →
      ds ≠ [] →
      (∀ c ∈ ds, isdigit c = true) →
      Exponent S (mark :: (sign ++ ds)) (signed negative (value 10 (ds.map digitValue)))

/-- A decimal number: what it denotes, the digits behind its dot and its exponent. -/
def DecimalNumber (s : Bytes) (q : ℚ) (fraction : Nat) (exponent : Int) : Prop :=
  ∃ m e c, s = m ++ e ∧ Significand m c fraction ∧ Exponent SignText e exponent ∧
    q = c * 10 ^ exponent

/-- What the parser takes for the sign of an exponent. -/
inductive LaxSign : Bytes → Bool → Prop
  | bare {negative : Bool} : LaxSign (signText negative) negative
  | plus {negative : Bool} : LaxSign (chr '+' :: signText negative) negative

/-- A byte that the scan runs over. -/
def Scannable (c : UInt8) : Prop :=
  isxdigit c = true ∧ ¬ IsMark c

/-- Where the scan stops. -/
def AtMark (rest : Bytes) : Prop :=
  ∀ c ∈ rest.head?, IsMark c

variable {c : UInt8} {rest ds ip s : Bytes} {point : Nat} {r : Nat × Option Nat} {fp : Option Bytes}

theorem Scannable.ne_dot (h : Scannable c) : c ≠ chr '.' := by
  rintro rfl
  exact absurd h.1 (by decide)

theorem scannable_of_digit (h : isdigit c = true) : Scannable c := by
  obtain ⟨-, hsmall, hcapital, -⟩ := isdigit_ne h
  exact ⟨isdigit_isxdigit h, fun hmark => hmark.elim hsmall hcapital⟩

theorem scanDecimal_atMark (h : AtMark rest) (point : Nat) (dot : Option Nat) :
    scanDecimal rest point dot = .ok (point, dot) := by
  cases rest with
  | nil => rfl
  | cons c rest =>
    have hmark : c = chr 'e' ∨ c = chr 'E' := h c rfl
    have hdot : c ≠ chr '.' := by
      rintro rfl
      exact absurd hmark (by decide)
    rw [scanDecimal, if_neg hdot, if_pos hmark]

theorem scanDecimal_scannable (hds : ∀ c ∈ ds, Scannable c) (rest : Bytes) (point : Nat)
    (dot : Option Nat) :
    scanDecimal (ds ++ rest) point dot = scanDecimal rest (point + ds.length) dot := by
  induction ds generalizing point with
  | nil => rfl
  | cons c ds ih =>
    rw [List.forall_mem_cons] at hds
    have hmark : ¬ (c = chr 'e' ∨ c = chr 'E') := hds.1.2
    rw [List.cons_append, scanDecimal, if_neg hds.1.ne_dot, if_neg hmark, if_pos hds.1.1,
      ih hds.2, List.length_cons]
    congr 1
    omega

theorem scanDecimal_cons_ok {dot : Option Nat} (h : scanDecimal (c :: rest) point dot = .ok r) :
    (c = chr '.' ∧ dot = none ∧ scanDecimal rest (point + 1) (some point) = .ok r) ∨
      (IsMark c ∧ r = (point, dot)) ∨
      (Scannable c ∧ scanDecimal rest (point + 1) dot = .ok r) := by
  rw [scanDecimal] at h
  split_ifs at h with hdot hseen hmark hdigit
  · refine .inl ⟨hdot, ?_, h⟩
    simpa using hseen
  · exact .inr (.inl ⟨hmark, (Except.ok.inj h).symm⟩)
  · exact .inr (.inr ⟨⟨hdigit, hmark⟩, h⟩)

theorem scanDecimal_some_ok {text : Bytes} {d : Nat} (h : scanDecimal text point (some d) = .ok r) :
    ∃ fs rest, text = fs ++ rest ∧ (∀ c ∈ fs, Scannable c) ∧ AtMark rest ∧
      r = (point + fs.length, some d) := by
  induction text generalizing point with
  | nil => exact ⟨[], [], rfl, by simp, by simp [AtMark], (Except.ok.inj h).symm⟩
  | cons c text ih =>
    rcases scanDecimal_cons_ok h with ⟨-, hnone, -⟩ | ⟨hmark, rfl⟩ | ⟨hbytes, h⟩
    · simp at hnone
    · refine ⟨[], c :: text, rfl, by simp, ?_, rfl⟩
      simpa [AtMark] using hmark
    · obtain ⟨fs, rest, rfl, hfs, hrest, rfl⟩ := ih h
      refine ⟨c :: fs, rest, rfl, List.forall_mem_cons.mpr ⟨hbytes, hfs⟩, hrest, ?_⟩
      rw [List.length_cons]
      congr 1
      omega

theorem scanDecimal_none_ok {text : Bytes} {start : Nat} (h : scanDecimal text start none = .ok r) :
    ∃ ip fp rest, text = ip ++ (fractionText fp ++ rest) ∧
      (∀ c ∈ ip ++ fp.getD [], Scannable c) ∧ AtMark rest ∧
      r = (start + ip.length + (fractionText fp).length, fp.map fun _ => start + ip.length) := by
  induction text generalizing start with
  | nil => exact ⟨[], none, [], rfl, by simp, by simp [AtMark], (Except.ok.inj h).symm⟩
  | cons c text ih =>
    rcases scanDecimal_cons_ok h with ⟨rfl, -, h⟩ | ⟨hmark, rfl⟩ | ⟨hbytes, h⟩
    · obtain ⟨fs, rest, rfl, hfs, hrest, rfl⟩ := scanDecimal_some_ok h
      refine ⟨[], some fs, rest, rfl, hfs, hrest, ?_⟩
      simp only [fractionText, List.length_nil, List.length_cons, Option.map_some,
        Nat.add_zero, Prod.mk.injEq, and_true]
      omega
    · refine ⟨[], none, c :: text, rfl, by simp, ?_, rfl⟩
      simpa [AtMark] using hmark
    · obtain ⟨ip, fp, rest, rfl, hip, hrest, rfl⟩ := ih h
      refine ⟨c :: ip, fp, rest, rfl, List.forall_mem_cons.mpr ⟨hbytes, hip⟩, hrest, ?_⟩
      have hshift : start + 1 + ip.length = start + (c :: ip).length := by
        rw [List.length_cons]
        omega
      rw [hshift]

theorem scanDecimal_parts (hbytes : ∀ c ∈ ip ++ fp.getD [], Scannable c) (hrest : AtMark rest)
    (start : Nat) :
    scanDecimal (ip ++ (fractionText fp ++ rest)) start none =
      .ok (start + ip.length + (fractionText fp).length, fp.map fun _ => start + ip.length) := by
  rw [List.forall_mem_append] at hbytes
  rw [scanDecimal_scannable hbytes.1]
  cases fp with
  | none => exact scanDecimal_atMark hrest _ _
  | some fs =>
    have hfs : ∀ c ∈ fs, Scannable c := hbytes.2
    rw [fractionText, List.cons_append, scanDecimal, if_pos rfl, if_neg (by simp),
      scanDecimal_scannable hfs, scanDecimal_atMark hrest]
    simp only [List.length_cons, Option.map_some, Except.ok.injEq, Prod.mk.injEq, and_true]
    omega

theorem Scannable.digitValue_lt (h : Scannable c) : digitValue c < 36 := by
  have hdigit := h.1
  simp only [isxdigit, isdigit, Bool.or_eq_true, Bool.and_eq_true, decide_eq_true_eq] at hdigit
  unfold digitValue
  split_ifs
  · omega
  · omega
  · omega
  · omega

theorem mpzSetDigits_scannable_iff {n : Nat} (hbytes : ∀ c ∈ ds, Scannable c) :
    mpzSetDigits ds 10 = some n ↔
      ds ≠ [] ∧ (∀ c ∈ ds, isdigit c = true) ∧ n = value 10 (ds.map digitValue) := by
  have hspace : ∀ c ∈ ds, isspace c = false := fun c hc =>
    not_isspace_of_digitValue (hbytes c hc).digitValue_lt
  constructor
  · intro h
    have hread := mpzReadDigits_eq_some_iff.mp (mpzSetDigits_base10 h)
    refine ⟨?_, fun c hc => digit_of_lt (digits_of_spacedDigits hread.1 hspace c hc), ?_⟩
    · rintro rfl
      simp [mpzSetDigits] at h
    · rw [hread.2, spacedValue_of_digits hspace]
  · rintro ⟨hne, hds, rfl⟩
    exact mpzSetDigits_digits hne hds

theorem mpzSetStr_scannable_iff {negative : Bool} {z : Int} (hbytes : ∀ c ∈ ds, Scannable c) :
    mpzSetStr (signText negative ++ ds) 10 = some z ↔
      ds ≠ [] ∧ (∀ c ∈ ds, isdigit c = true) ∧
        z = signed negative (value 10 (ds.map digitValue)) := by
  have hletter : ∀ c ∈ ds, c ≠ 0 ∧ c ≠ chr '-' ∧ isspace c = false := by
    intro c hc
    have hlt := (hbytes c hc).digitValue_lt
    refine ⟨?_, ?_, not_isspace_of_digitValue hlt⟩
    · rintro rfl
      exact absurd hlt (by decide)
    · rintro rfl
      exact absurd hlt (by decide)
  have htake : (signText negative ++ ds).takeWhile (· ≠ 0) = signText negative ++ ds := by
    refine List.takeWhile_eq_self_iff.mpr fun c hc => decide_eq_true ?_
    rcases List.mem_append.mp hc with hc | hc
    · cases negative with
      | true =>
        rw [List.mem_singleton.mp hc]
        decide
      | false => simp [signText] at hc
    · exact (hletter c hc).1
  have hset : mpzSetStr (signText negative ++ ds) 10 =
      (mpzSetDigits ds 10).map (signed negative) := by
    unfold mpzSetStr
    rw [htake]
    cases negative with
    | true =>
      have hminus : isspace (chr '-') = false := by decide
      simp [signText, hminus]
      rfl
    | false =>
      cases ds with
      | nil => rfl
      | cons c ds =>
        obtain ⟨-, hminus, hspace⟩ := hletter c List.mem_cons_self
        simp [signText, hminus, hspace]
        rfl
  rw [hset, Option.map_eq_some_iff]
  simp only [mpzSetDigits_scannable_iff hbytes]
  constructor
  · rintro ⟨n, ⟨hne, hds, rfl⟩, rfl⟩
    exact ⟨hne, hds, rfl⟩
  · rintro ⟨hne, hds, rfl⟩
    exact ⟨_, ⟨hne, hds, rfl⟩, rfl⟩

section ExponentText

variable {s y : Bytes} {point : Nat} {scale r : Int}

theorem clampLong_iff {x v : Int} :
    (clampLong x).2 = false ∧ (clampLong x).1 = v ↔ FitsLong v ∧ v = x := by
  unfold clampLong FitsLong
  split_ifs with hhigh hlow
  · refine iff_of_false (by simp) ?_
    rintro ⟨⟨-, hle⟩, rfl⟩
    omega
  · refine iff_of_false (by simp) ?_
    rintro ⟨⟨hle, -⟩, rfl⟩
    omega
  · constructor
    · rintro ⟨-, rfl⟩
      exact ⟨⟨by omega, by omega⟩, rfl⟩
    · rintro ⟨-, rfl⟩
      exact ⟨rfl, rfl⟩

theorem strtol10_reads_iff {n : Nat} {v : Int} :
    (byteAt y 0 = chr '-' ∨ isdigit (byteAt y 0) = true) ∧ 0 < n ∧ (strtol10 y).used = n ∧
        (strtol10 y).erange = false ∧ (strtol10 y).value = v ↔
      ∃ ds rest negative, y = signText negative ++ (ds ++ rest) ∧
        n = (signText negative).length + ds.length ∧ ds ≠ [] ∧
        (∀ c ∈ ds, isdigit c = true) ∧ (∀ c ∈ rest.head?, isdigit c = false) ∧
        FitsLong v ∧ v = signed negative (value 10 (ds.map digitValue)) := by
  constructor
  · rintro ⟨hhead, hn, hused, herange, hvalue⟩
    obtain ⟨negative, ds, rest, rfl, hds, hrest, hstart⟩ :
        ∃ negative ds rest, y = signText negative ++ (ds ++ rest) ∧
          (∀ c ∈ ds, isdigit c = true) ∧ (∀ c ∈ rest.head?, isdigit c = false) ∧
          (negative = true ∨ ds ≠ []) := by
      have hparts : ∀ z : Bytes, z = z.takeWhile isdigit ++ z.dropWhile isdigit ∧
          (∀ c ∈ z.takeWhile isdigit, isdigit c = true) ∧
          ∀ c ∈ (z.dropWhile isdigit).head?, isdigit c = false := by
        intro z
        refine ⟨List.takeWhile_append_dropWhile.symm, fun c hc => List.mem_takeWhile_imp hc, ?_⟩
        intro c hc
        have hstop := List.head?_dropWhile_not isdigit z
        rw [Option.mem_def.mp hc] at hstop
        simpa using hstop
      cases y with
      | nil => exact absurd hhead (by decide)
      | cons c y =>
        by_cases hminus : c = chr '-'
        · obtain ⟨hsplit, hds, hrest⟩ := hparts y
          refine ⟨true, _, _, ?_, hds, hrest, .inl rfl⟩
          rw [← hsplit, hminus]
          rfl
        · obtain ⟨hsplit, hds, hrest⟩ := hparts (c :: y)
          have hdigit : isdigit c = true := hhead.resolve_left hminus
          refine ⟨false, _, _, hsplit, hds, hrest, .inr ?_⟩
          simp [hdigit]
    rw [signText, strtol10_append negative hstart hds hrest rfl] at hused herange hvalue
    by_cases hne : ds = []
    · rw [if_pos hne] at hused
      exact absurd hused (by simpa using hn.ne)
    · rw [if_neg hne] at hused herange hvalue
      obtain ⟨hfits, hv⟩ := clampLong_iff.mp ⟨herange, hvalue⟩
      refine ⟨ds, rest, negative, rfl, ?_, hne, hds, hrest, hfits, hv⟩
      rw [signText_length]
      exact hused.symm
  · rintro ⟨ds, rest, negative, rfl, rfl, hne, hds, hrest, hfits, hv⟩
    have hread := strtol10_append negative (.inr hne) hds hrest rfl
    rw [if_neg hne] at hread
    obtain ⟨herange, hvalue⟩ := clampLong_iff.mpr ⟨hfits, hv⟩
    have hlength : 0 < ds.length := List.length_pos_of_ne_nil hne
    refine ⟨?_, by omega, ?_, ?_, ?_⟩
    · cases negative with
      | true => exact .inl rfl
      | false =>
        obtain ⟨c, ds, rfl⟩ := List.exists_cons_of_ne_nil hne
        exact .inr (hds c List.mem_cons_self)
    · rw [signText_length, signText, hread]
    · rw [signText, hread]
      exact herange
    · rw [signText, hread]
      exact hvalue

theorem parseExponent_ok_iff {p : Nat}
    (hp : p = if byteAt s (point + 1) = chr '+' then point + 2 else point + 1) :
    parseExponent s point scale = .ok r ↔
      ∃ n v, inLen s = ((p + n : Nat) : Int) ∧ r = toInt64 (scale - v) ∧
        (byteAt (s.drop p) 0 = chr '-' ∨ isdigit (byteAt (s.drop p) 0) = true) ∧ 0 < n ∧
        (strtol10 (s.drop p)).used = n ∧ (strtol10 (s.drop p)).erange = false ∧
        (strtol10 (s.drop p)).value = v := by
  unfold parseExponent
  dsimp only
  simp only [← hp, byteAt_drop, Nat.add_zero]
  split_ifs with hend hhead hread
  · refine iff_of_false (by simp) ?_
    rintro ⟨n, v, hlen, -, -, hn, -⟩
    omega
  · refine iff_of_false (by simp) ?_
    rintro ⟨n, v, -, -, hstart | hstart, -⟩
    · exact hhead.1 hstart
    · rw [hhead.2] at hstart
      exact Bool.false_ne_true hstart
  · refine iff_of_false (by simp) ?_
    rintro ⟨n, v, hlen, -, -, -, hused, herange, -⟩
    rcases hread with hused' | herange'
    · rw [hused, hlen] at hused'
      exact hused' rfl
    · rw [herange] at herange'
      exact Bool.false_ne_true herange'
  · rw [not_or, not_not] at hread
    have herange : (strtol10 (s.drop p)).erange = false := by simpa using hread.2
    have hstart : byteAt s p = chr '-' ∨ isdigit (byteAt s p) = true := by
      by_contra hnone
      rw [not_or] at hnone
      exact hhead ⟨hnone.1, by simpa using hnone.2⟩
    rw [Except.ok.injEq]
    constructor
    · rintro rfl
      refine ⟨_, _, hread.1.symm, rfl, hstart, ?_, rfl, herange, rfl⟩
      omega
    · rintro ⟨n, v, -, rfl, -, -, -, -, rfl⟩
      rfl

/-- The exponents that the parser reads: a plus sign, a minus sign, digits up to the
converted length, and no digit behind them. -/
theorem parseExponent_eq_ok_iff {k : Nat} (hk : inLen s = ((point + 1 + k : Nat) : Int)) :
    parseExponent s point scale = .ok r ↔
      ∃ sign ds rest negative, s.drop (point + 1) = sign ++ (ds ++ rest) ∧
        sign.length + ds.length = k ∧ LaxSign sign negative ∧ ds ≠ [] ∧
        (∀ c ∈ ds, isdigit c = true) ∧ (∀ c ∈ rest.head?, isdigit c = false) ∧
        FitsLong (signed negative (value 10 (ds.map digitValue))) ∧
        r = toInt64 (scale - signed negative (value 10 (ds.map digitValue))) := by
  rw [parseExponent_ok_iff rfl]
  constructor
  · rintro ⟨n, v, hlen, rfl, hreads⟩
    obtain ⟨ds, rest, negative, hy, rfl, hne, hds, hrest, hfits, rfl⟩ :=
      strtol10_reads_iff.mp hreads
    split_ifs at hlen hy with hplus
    · refine ⟨chr '+' :: signText negative, ds, rest, negative, ?_, ?_, .plus, hne, hds, hrest,
        hfits, rfl⟩
      · rw [List.cons_append, ← hy]
        exact drop_of_byteAt hplus (by decide)
      · rw [List.length_cons]
        omega
    · refine ⟨signText negative, ds, rest, negative, hy, ?_, .bare, hne, hds, hrest, hfits, rfl⟩
      omega
  · rintro ⟨sign, ds, rest, negative, hx, rfl, hsign, hne, hds, hrest, hfits, rfl⟩
    have hhead : ∀ negative : Bool, (signText negative ++ (ds ++ rest)).headD 0 ≠ chr '+' := by
      intro negative
      cases negative with
      | true => exact (by decide : chr '-' ≠ chr '+')
      | false =>
        obtain ⟨c, ds, rfl⟩ := List.exists_cons_of_ne_nil hne
        exact (isdigit_ne (hds c List.mem_cons_self)).2.2.2.2.1
    cases hsign with
    | bare =>
      have hplus : byteAt s (point + 1) ≠ chr '+' := by
        rw [byteAt, hx]
        exact hhead negative
      rw [if_neg hplus]
      refine ⟨_, _, hk, rfl, strtol10_reads_iff.mpr ?_⟩
      exact ⟨ds, rest, negative, hx, rfl, hne, hds, hrest, hfits, rfl⟩
    | plus =>
      have hplus : byteAt s (point + 1) = chr '+' := by
        rw [byteAt, hx]
        rfl
      have hy : s.drop (point + 2) = signText negative ++ (ds ++ rest) := by
        rw [drop_of_byteAt hplus (by decide)] at hx
        exact (List.cons.inj hx).2
      rw [if_pos hplus]
      refine ⟨(signText negative).length + ds.length, _, ?_, rfl, strtol10_reads_iff.mpr ?_⟩
      · rw [hk, List.length_cons]
        push_cast
        ring
      · exact ⟨ds, rest, negative, hy, rfl, hne, hds, hrest, hfits, rfl⟩

end ExponentText

/-- The bytes the parser looks at. -/
def converted (s : Bytes) : Bytes :=
  s.take (inLen s).toNat

/-- A text that does not go to `php_scylladb_parse_varint`: one without a leading
zero, or with no mark of a base after it and a dot before the exponent. -/
def DecimalPath (s : Bytes) : Prop :=
  byteAt s (decimalStart s) = chr '0' →
    (byteAt s (decimalStart s + 1) ≠ chr 'b' ∧ byteAt s (decimalStart s + 1) ≠ chr 'x') ∧
      chr '.' ∈ ((converted s).drop (decimalStart s)).takeWhile fun c => ¬ IsMark c

theorem takeWhile_parts (hbytes : ∀ c ∈ ip ++ fp.getD [], Scannable c) (hrest : AtMark rest) :
    (ip ++ (fractionText fp ++ rest)).takeWhile (fun c => ¬ IsMark c) = ip ++ fractionText fp := by
  rw [List.forall_mem_append] at hbytes
  rw [← List.append_assoc]
  refine takeWhile_append_stop ?_ ?_
  · rw [List.forall_mem_append]
    refine ⟨fun c hc => decide_eq_true (hbytes.1 c hc).2, fun c hc => ?_⟩
    cases fp with
    | none => simp [fractionText] at hc
    | some fs =>
      rcases List.mem_cons.mp hc with rfl | hc
      · decide
      · exact decide_eq_true (hbytes.2 c hc).2
  · intro c hc
    simpa using hrest c hc

theorem dot_mem_iff (hbytes : ∀ c ∈ ip ++ fp.getD [], Scannable c) :
    chr '.' ∈ ip ++ fractionText fp ↔ fp ≠ none := by
  rw [List.forall_mem_append] at hbytes
  have hip : chr '.' ∉ ip := fun h => (hbytes.1 _ h).ne_dot rfl
  cases fp with
  | none => simp [hip, fractionText]
  | some fs => simp [fractionText]

/-- `php_scylladb_parse_decimal` after the scan. -/
def afterScan (s : Bytes) : Except Thrown (Nat × Option Nat) → Except Thrown (Int × Int)
  | .error e => .error e
  | .ok (point, dot) =>
    if byteAt s (decimalStart s) = chr '0' ∧ dot = none then
      (parseVarint s).map (fun n => (n, 0))
    else
      parseSignificand s point dot

theorem parseDecimal_eq :
    parseDecimal = fun s =>
      if byteAt s (decimalStart s) = chr '0' ∧
          (byteAt s (decimalStart s + 1) = chr 'b' ∨ byteAt s (decimalStart s + 1) = chr 'x') then
        (parseVarint s).map (fun n => (n, 0))
      else
        afterScan s (scanDecimal ((converted s).drop (decimalStart s)) (decimalStart s) none) := by
  -- unfolding the applied `parseDecimal` would make the kernel evaluate the scan
  delta parseDecimal
  funext s
  refine if_congr Iff.rfl rfl ?_
  rw [converted]
  generalize scanDecimal ((s.take (inLen s).toNat).drop (decimalStart s)) (decimalStart s) none =
    stop
  rcases stop with e | ⟨point, dot⟩
  · rfl
  · rfl

theorem parseDecimal_of_path {r : Int × Int} (hpath : DecimalPath s) :
    parseDecimal s = .ok r ↔
      ∃ ip fp rest, (converted s).drop (decimalStart s) = ip ++ (fractionText fp ++ rest) ∧
        (∀ c ∈ ip ++ fp.getD [], Scannable c) ∧ AtMark rest ∧
        parseSignificand s (decimalStart s + ip.length + (fractionText fp).length)
          (fp.map fun _ => decimalStart s + ip.length) = .ok r := by
  have hbase : ¬ (byteAt s (decimalStart s) = chr '0' ∧
      (byteAt s (decimalStart s + 1) = chr 'b' ∨ byteAt s (decimalStart s + 1) = chr 'x')) := by
    rintro ⟨hzero, hmark⟩
    exact hmark.elim (hpath hzero).1.1 (hpath hzero).1.2
  have hafter : ∀ {ip fp rest},
      (converted s).drop (decimalStart s) = ip ++ (fractionText fp ++ rest) →
      (∀ c ∈ ip ++ fp.getD [], Scannable c) → AtMark rest → ∀ point,
      afterScan s (.ok (point, fp.map fun _ => decimalStart s + ip.length)) =
        parseSignificand s point (fp.map fun _ => decimalStart s + ip.length) := by
    intro ip fp rest htext hbytes hrest point
    refine if_neg ?_
    rintro ⟨hzero, hdot⟩
    have hmem := (hpath hzero).2
    rw [htext, takeWhile_parts hbytes hrest, dot_mem_iff hbytes] at hmem
    exact hmem (Option.map_eq_none_iff.mp hdot)
  rw [parseDecimal_eq]
  dsimp only
  rw [if_neg hbase]
  constructor
  · intro h
    cases hscan : scanDecimal ((converted s).drop (decimalStart s)) (decimalStart s) none with
    | error e => simp [hscan, afterScan] at h
    | ok stop =>
      obtain ⟨ip, fp, rest, htext, hbytes, hrest, rfl⟩ := scanDecimal_none_ok hscan
      rw [hscan, hafter htext hbytes hrest] at h
      exact ⟨ip, fp, rest, htext, hbytes, hrest, h⟩
  · rintro ⟨ip, fp, rest, htext, hbytes, hrest, h⟩
    rw [htext, scanDecimal_parts hbytes hrest, hafter htext hbytes hrest]
    exact h

theorem parseSignificand_ok_iff {dot : Option Nat} {v scale : Int} :
    parseSignificand s point dot = .ok (v, scale) ↔
      0 ≤ inLen s + 1 ∧
        mpzSetStr (signText (decimalNegative s) ++
          mantissaText s (decimalStart s) point dot) 10 = some v ∧
        if (point : Int) < inLen s then
          parseExponent s point (mantissaScale point dot) = .ok scale
        else scale = mantissaScale point dot := by
  have hempty : mpzSetStr [] 10 = none := rfl
  unfold parseSignificand
  rw [← signText]
  generalize signText (decimalNegative s) ++ mantissaText s (decimalStart s) point dot = out
  by_cases hneg : inLen s + 1 < 0
  · rw [if_pos hneg]
    exact iff_of_false (by simp) fun h => by omega
  · rw [if_neg hneg, and_iff_right (by omega)]
    dsimp only
    by_cases hout : out.length = 0
    · rw [if_pos hout, List.length_eq_zero_iff.mp hout, hempty]
      simp
    · rw [if_neg hout]
      cases mpzSetStr out 10 with
      | none => simp
      | some number =>
        dsimp only
        rw [Option.some.injEq]
        split_ifs with hmore
        · constructor
          · intro h
            obtain ⟨r, hr, hpair⟩ := map_eq_ok h
            obtain ⟨rfl, rfl⟩ := Prod.mk.inj hpair
            exact ⟨rfl, hr⟩
          · rintro ⟨rfl, hr⟩
            rw [hr]
            rfl
        · rw [Except.ok.injEq, Prod.mk.injEq]
          exact and_congr_right fun _ => eq_comm

section Accepted

variable {s : Bytes} {v scale : Int}

theorem inLen_le (s : Bytes) : inLen s ≤ s.length := by
  by_cases hshort : s.length < 2 ^ 31
  · exact (toInt32_of_lt hshort).le
  · obtain ⟨hlt, -⟩ := toInt32_ne (Nat.le_of_not_lt hshort)
    have hlen : inLen s < 2 ^ 31 := hlt
    omega

theorem converted_append (s : Bytes) : s = converted s ++ s.drop (converted s).length := by
  have hlen := inLen_le s
  rw [converted, List.length_take, min_eq_left (by omega), List.take_append_drop]

theorem append_of_converted {t : Bytes} (h : converted s = t) :
    s = t ++ s.drop (converted s).length :=
  (converted_append s).trans (congrArg (· ++ s.drop (converted s).length) h)

theorem inLen_of_converted (h : converted s ≠ []) : inLen s = (converted s).length := by
  have hlen := inLen_le s
  have hpos := List.length_pos_of_ne_nil h
  rw [converted, List.length_take] at hpos ⊢
  omega

theorem exists_sign (h : converted s ≠ []) :
    ∃ sign, converted s = sign ++ (converted s).drop (decimalStart s) ∧
      SignText sign (decimalNegative s) ∧ sign.length = decimalStart s := by
  obtain ⟨c, t, ht⟩ := List.exists_cons_of_ne_nil h
  have hc : byteAt s 0 = c := by
    rw [converted_append s, ht]
    rfl
  rw [decimalStart, decimalNegative, hc, ht]
  by_cases hplus : c = chr '+'
  · subst hplus
    exact ⟨[chr '+'], rfl, .plus, rfl⟩
  · by_cases hminus : c = chr '-'
    · subst hminus
      exact ⟨[chr '-'], rfl, .minus, rfl⟩
    · rw [if_neg (by simp [hplus, hminus]), decide_eq_false hminus]
      exact ⟨[], rfl, .plain, rfl⟩

theorem sign_found {sign body : Bytes} {negative : Bool} (hs : s = sign ++ body)
    (hsign : SignText sign negative) (hne : body ≠ [])
    (hbody : ∀ c ∈ body.head?, c ≠ chr '+' ∧ c ≠ chr '-') :
    decimalStart s = sign.length ∧ decimalNegative s = negative := by
  rw [decimalStart, decimalNegative, hs]
  cases hsign with
  | plain =>
    obtain ⟨c, body, rfl⟩ := List.exists_cons_of_ne_nil hne
    obtain ⟨hplus, hminus⟩ := hbody c rfl
    refine ⟨if_neg ?_, decide_eq_false hminus⟩
    rintro (hc | hc)
    · exact hplus hc
    · exact hminus hc
  | plus | minus => exact ⟨rfl, rfl⟩

theorem signed_eq_quantity (negative : Bool) (ip fs : Bytes) :
    ((signed negative (value 10 ((ip ++ fs).map digitValue)) : Int) : ℚ) =
      quantity negative ip fs * 10 ^ fs.length := by
  have hpow : (10 : ℚ) ^ fs.length ≠ 0 := pow_ne_zero _ (by norm_num)
  rw [List.map_append, value_append, List.length_map, quantity]
  cases negative with
  | true =>
    simp only [signed, if_true]
    push_cast
    field_simp
  | false =>
    simp only [signed, Bool.false_eq_true, if_false]
    push_cast
    field_simp

theorem inLen_lt (s : Bytes) : inLen s < 2 ^ 31 := by
  by_cases hshort : s.length < 2 ^ 31
  · have hlen : inLen s = s.length := toInt32_of_lt hshort
    omega
  · exact (toInt32_ne (Nat.le_of_not_lt hshort)).1

variable {S : Bytes → Bool → Prop} {fp : Option Bytes} {ip : Bytes}

theorem exponent_nil_iff {exponent : Int} : Exponent S [] exponent ↔ exponent = 0 := by
  constructor
  · intro h
    cases h
    rfl
  · rintro rfl
    exact .absent

theorem exponent_cons_iff {mark : UInt8} {text : Bytes} {exponent : Int} (hmark : IsMark mark) :
    Exponent S (mark :: text) exponent ↔
      ∃ sign ds negative, text = sign ++ ds ∧ S sign negative ∧ ds ≠ [] ∧
        (∀ c ∈ ds, isdigit c = true) ∧
        exponent = signed negative (value 10 (ds.map digitValue)) := by
  constructor
  · intro h
    cases h with
    | written _ hsign hne hds => exact ⟨_, _, _, rfl, hsign, hne, hds, rfl⟩
  · rintro ⟨sign, ds, negative, rfl, hsign, hne, hds, rfl⟩
    exact .written hmark hsign hne hds

theorem parseSignificand_parts_iff {sign rest tail : Bytes}
    (hs : s = sign ++ (ip ++ (fractionText fp ++ (rest ++ tail))))
    (hlen : inLen s = (sign ++ (ip ++ (fractionText fp ++ rest))).length)
    (hstart : decimalStart s = sign.length) (hbytes : ∀ c ∈ ip ++ fp.getD [], Scannable c)
    (hrest : AtMark rest) :
    parseSignificand s (decimalStart s + ip.length + (fractionText fp).length)
        (fp.map fun _ => decimalStart s + ip.length) = .ok (v, scale) ↔
      ip ++ fp.getD [] ≠ [] ∧ (∀ c ∈ ip ++ fp.getD [], isdigit c = true) ∧
        v = signed (decimalNegative s) (value 10 ((ip ++ fp.getD []).map digitValue)) ∧
        ∃ exponent, Exponent LaxSign rest exponent ∧ FitsLong exponent ∧
          (rest ≠ [] → ∀ c ∈ tail.head?, isdigit c = false) ∧
          scale = toInt64 ((fp.getD []).length - exponent) := by
  have hmantissa : mantissaText s sign.length (sign.length + ip.length + (fractionText fp).length)
      (fp.map fun _ => sign.length + ip.length) = ip ++ fp.getD [] := by
    rw [hs]
    exact mantissaText_append sign ip fp (rest ++ tail)
  simp only [List.length_append] at hlen
  rw [parseSignificand_ok_iff, hstart, hmantissa, mpzSetStr_scannable_iff hbytes,
    mantissaScale_layout, and_iff_right (by omega), and_assoc, and_assoc]
  refine and_congr_right fun _ => and_congr_right fun _ => and_congr_right fun _ => ?_
  have hfraction : (fp.getD []).length ≤ (fractionText fp).length := by
    cases fp with
    | none => rfl
    | some fs => exact Nat.le_succ _
  have hbound := inLen_lt s
  cases rest with
  | nil =>
    rw [if_neg (by simp at hlen ⊢; omega)]
    simp only [exponent_nil_iff, exists_eq_left, Int.sub_zero, ne_eq, not_true_eq_false,
      false_implies, true_and]
    rw [toInt64_of_range (by omega) (by omega), and_iff_right]
    exact ⟨by decide, by decide⟩
  | cons mark text =>
    have hmark : IsMark mark := hrest mark rfl
    have hafter : s.drop (sign.length + ip.length + (fractionText fp).length + 1) =
        text ++ tail := by
      have hsplit : s = (sign ++ (ip ++ (fractionText fp ++ [mark]))) ++ (text ++ tail) := by
        rw [hs]
        simp
      rw [hsplit]
      refine List.drop_left' ?_
      simp only [List.length_append, List.length_singleton]
      omega
    simp only [List.length_cons] at hlen
    rw [if_pos (by push_cast; omega),
      parseExponent_eq_ok_iff (k := text.length) (by rw [hlen]; push_cast; omega), hafter]
    simp only [exponent_cons_iff hmark]
    constructor
    · rintro ⟨sign', ds, rest, negative, htext, hlength, hsign, hne, hds, hstop, hfits, rfl⟩
      rw [← List.append_assoc] at htext
      obtain ⟨rfl, rfl⟩ := List.append_inj htext (by rw [List.length_append, hlength])
      exact ⟨_, ⟨sign', ds, negative, rfl, hsign, hne, hds, rfl⟩, hfits, fun _ => hstop, rfl⟩
    · rintro ⟨exponent, ⟨sign', ds, negative, rfl, hsign, hne, hds, rfl⟩, hfits, hstop, rfl⟩
      exact ⟨sign', ds, tail, negative, List.append_assoc _ _ _, List.length_append.symm, hsign,
        hne, hds, hstop (by simp), hfits, rfl⟩

theorem head_of_digits (hne : ip ++ fp.getD [] ≠ [])
    (hds : ∀ c ∈ ip ++ fp.getD [], isdigit c = true) (rest : Bytes) :
    ip ++ (fractionText fp ++ rest) ≠ [] ∧
      ∀ c ∈ (ip ++ (fractionText fp ++ rest)).head?, c ≠ chr '+' ∧ c ≠ chr '-' := by
  cases ip with
  | cons d ip =>
    refine ⟨by simp, fun c hc => ?_⟩
    obtain rfl : d = c := Option.some.inj hc
    obtain ⟨-, -, -, hminus, hplus, -⟩ := isdigit_ne (hds d (by simp))
    exact ⟨hplus, hminus⟩
  | nil =>
    cases fp with
    | none => exact absurd rfl hne
    | some fs =>
      refine ⟨by simp [fractionText], fun c hc => ?_⟩
      obtain rfl : chr '.' = c := Option.some.inj hc
      exact ⟨by decide, by decide⟩

theorem Exponent.atMark {e : Bytes} {exponent : Int} (h : Exponent S e exponent) : AtMark e := by
  cases h with
  | absent => simp [AtMark]
  | written hmark => simpa [AtMark] using hmark

theorem converted_ne_nil {rest : Bytes}
    (htext : (converted s).drop (decimalStart s) = ip ++ (fractionText fp ++ rest))
    (h : parseSignificand s (decimalStart s + ip.length + (fractionText fp).length)
      (fp.map fun _ => decimalStart s + ip.length) = .ok (v, scale)) : converted s ≠ [] := by
  intro hnil
  rw [hnil, List.drop_nil] at htext
  obtain ⟨rfl, hnone⟩ := List.append_eq_nil_iff.mp htext.symm
  obtain ⟨hfraction, -⟩ := List.append_eq_nil_iff.mp hnone
  cases fp with
  | some fs => exact absurd hfraction (List.cons_ne_nil _ _)
  | none =>
    obtain ⟨-, hset, -⟩ := parseSignificand_ok_iff.mp h
    have hslice : mantissaText s (decimalStart s) (decimalStart s + 0 + 0) none = [] := by
      rw [mantissaText, slice]
      exact List.drop_eq_nil_of_le (List.length_take_le _ _)
    rw [Option.map_none, fractionText, List.length_nil, hslice, mpzSetStr_scannable_iff (by simp)]
      at hset
    exact hset.1 rfl

/-- The decimal path accepts a significand and an exponent with one sign too many at
most, up to the converted length. -/
theorem parseDecimal_eq_ok_iff (hpath : DecimalPath s) :
    parseDecimal s = .ok (v, scale) ↔
      ∃ m e c fraction exponent, converted s = m ++ e ∧ Significand m c fraction ∧
        Exponent LaxSign e exponent ∧ FitsLong exponent ∧
        (e ≠ [] → isdigit (byteAt s (converted s).length) = false) ∧
        (v : ℚ) = c * 10 ^ fraction ∧ scale = toInt64 (fraction - exponent) := by
  have hstop : isdigit (byteAt s (converted s).length) = false ↔
      ∀ c ∈ (s.drop (converted s).length).head?, isdigit c = false := by
    rw [byteAt]
    cases s.drop (converted s).length with
    | nil => simp; decide
    | cons c rest => simp
  rw [parseDecimal_of_path hpath, hstop]
  constructor
  · rintro ⟨ip, fp, rest, htext, hbytes, hrest, h⟩
    have hne := converted_ne_nil htext h
    obtain ⟨sign, hconverted, hsign, hstart⟩ := exists_sign hne
    rw [htext] at hconverted
    have hs : s = sign ++ (ip ++ (fractionText fp ++ (rest ++ s.drop (converted s).length))) := by
      refine (append_of_converted hconverted).trans ?_
      simp only [List.append_assoc]
    have hlen := inLen_of_converted hne
    rw [hconverted] at hlen
    obtain ⟨hdigits, hds, rfl, exponent, hexponent, hfits, hafter, rfl⟩ :=
      (parseSignificand_parts_iff hs hlen hstart.symm hbytes hrest).mp h
    refine ⟨sign ++ (ip ++ fractionText fp), rest, _, _, exponent, ?_,
      .intro hsign hds hdigits, hexponent, hfits, hafter, signed_eq_quantity _ _ _, rfl⟩
    rw [hconverted]
    simp only [List.append_assoc]
  · rintro ⟨m, e, c, fraction, exponent, hconverted, hm, hexponent, hfits, hafter, hv, rfl⟩
    cases hm with
    | @intro sign ip fp negative hsign hds hdigits =>
      have hparts : converted s = sign ++ (ip ++ (fractionText fp ++ e)) := by
        rw [hconverted]
        simp only [List.append_assoc]
      have hs : s = sign ++ (ip ++ (fractionText fp ++ (e ++ s.drop (converted s).length))) := by
        refine (append_of_converted hparts).trans ?_
        simp only [List.append_assoc]
      obtain ⟨hbody, hhead⟩ := head_of_digits hdigits hds (e ++ s.drop (converted s).length)
      obtain ⟨hstart, hnegative⟩ := sign_found hs hsign hbody hhead
      have hne : converted s ≠ [] := by
        rw [hparts]
        exact List.append_ne_nil_of_right_ne_nil _ (head_of_digits hdigits hds e).1
      have hlen := inLen_of_converted hne
      rw [hparts] at hlen
      have hbytes : ∀ c ∈ ip ++ fp.getD [], Scannable c := fun c hc =>
        scannable_of_digit (hds c hc)
      refine ⟨ip, fp, e, ?_, hbytes, hexponent.atMark,
        (parseSignificand_parts_iff hs hlen hstart hbytes hexponent.atMark).mpr
          ⟨hdigits, hds, ?_, exponent, hexponent, hfits, hafter, rfl⟩⟩
      · rw [hparts, hstart, List.drop_left]
      · rw [← signed_eq_quantity] at hv
        rw [hnegative]
        exact_mod_cast hv

end Accepted

end Numbers
end ScyllaDriver
