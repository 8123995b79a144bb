import ScyllaDriver.Numbers.DecimalGrammar

/-!
# Where the decimal path reads what is written

A text has at most one significand, exponent and number of fraction digits, so the
result of `php_scylladb_parse_decimal` can be compared with what the text denotes.
They agree except for the texts that `Misparsed` lists.
-/

namespace ScyllaDriver
namespace Numbers

open Positional CString

section Unique

variable {S : Bytes → Bool → Prop} {m e m' e' : Bytes} {c c' : ℚ} {fraction fraction' : Nat}
  {exponent exponent' : Int}

theorem SignText.not_mem {sign : Bytes} {negative : Bool} (h : SignText sign negative) :
    (∀ d ∈ sign, ¬ IsMark d) ∧ chr '.' ∉ sign := by
  cases h with
  | plain => simp
  | plus | minus => exact ⟨List.forall_mem_singleton.mpr (by decide), by decide⟩

theorem Significand.not_mark (h : Significand m c fraction) : ∀ d ∈ m, ¬ IsMark d := by
  cases h with
  | @intro sign ip fp negative hsign hds =>
    rw [List.forall_mem_append] at hds
    have hdigit : ∀ d, isdigit d = true → ¬ IsMark d := fun d hd => (scannable_of_digit hd).2
    rw [List.forall_mem_append, List.forall_mem_append]
    refine ⟨hsign.not_mem.1, fun d hd => hdigit d (hds.1 d hd), fun d hd => ?_⟩
    cases fp with
    | none => simp [fractionText] at hd
    | some fs =>
      rcases List.mem_cons.mp hd with rfl | hd
      · decide
      · exact hdigit d (hds.2 d hd)

theorem parts_unique (hm : Significand m c fraction) (he : AtMark e)
    (hm' : Significand m' c' fraction') (he' : AtMark e') (h : m ++ e = m' ++ e') :
    m = m' ∧ e = e' := by
  have htake : ∀ {m e : Bytes} {c fraction}, Significand m c fraction → AtMark e →
      (m ++ e).takeWhile (fun d => ¬ IsMark d) = m := by
    intro m e c fraction hm he
    refine takeWhile_append_stop (fun d hd => decide_eq_true (hm.not_mark d hd)) fun d hd => ?_
    simpa using he d hd
  have hfirst : m = m' := by
    rw [← htake hm he, h, htake hm' he']
  subst hfirst
  exact ⟨rfl, List.append_cancel_left h⟩

theorem Significand.fraction_eq (h : Significand m c fraction) :
    fraction = (m.dropWhile (· ≠ chr '.')).length - 1 := by
  cases h with
  | @intro sign ip fp negative hsign hds =>
    rw [List.forall_mem_append] at hds
    have hbefore : ∀ d ∈ sign ++ ip, decide (d ≠ chr '.') = true := by
      rw [List.forall_mem_append]
      refine ⟨fun d hd => decide_eq_true ?_, fun d hd => decide_eq_true ?_⟩
      · rintro rfl
        exact hsign.not_mem.2 hd
      · exact (isdigit_ne (hds.1 d hd)).1
    rw [← List.append_assoc, List.dropWhile_append_of_pos hbefore]
    cases fp with
    | none => rfl
    | some fs => rfl

theorem LaxSign.filter_isdigit {sign : Bytes} {negative : Bool} (h : LaxSign sign negative) :
    sign.filter isdigit = [] ∧ (chr '-' ∈ sign ↔ negative = true) := by
  cases h with
  | bare | plus => cases negative <;> decide

theorem Exponent.unique (h : Exponent LaxSign e exponent) (h' : Exponent LaxSign e exponent') :
    exponent = exponent' := by
  have hread : ∀ {sign ds : Bytes} {negative : Bool}, LaxSign sign negative →
      (∀ d ∈ ds, isdigit d = true) →
      (sign ++ ds).filter isdigit = ds ∧ (chr '-' ∈ sign ++ ds ↔ negative = true) := by
    intro sign ds negative hsign hds
    have hminus : chr '-' ∉ ds := fun hmem => (isdigit_ne (hds _ hmem)).2.2.2.1 rfl
    rw [List.filter_append, hsign.filter_isdigit.1, List.filter_eq_self.mpr hds, List.mem_append,
      or_iff_left hminus]
    exact ⟨rfl, hsign.filter_isdigit.2⟩
  cases h with
  | absent => exact (exponent_nil_iff.mp h').symm
  | @written mark sign ds negative hmark hsign hne hds =>
    obtain ⟨sign', ds', negative', htext, hsign', -, hds', rfl⟩ := (exponent_cons_iff hmark).mp h'
    obtain ⟨hfilter, hminus⟩ := hread hsign hds
    obtain ⟨hfilter', hminus'⟩ := hread hsign' hds'
    rw [htext] at hfilter hminus
    rw [← hfilter, hfilter', Bool.eq_iff_iff.mpr (hminus.symm.trans hminus')]

end Unique

/-- A plus sign and a minus sign before the digits of an exponent. -/
def DoubleSign (e : Bytes) : Prop :=
  byteAt e 1 = chr '+' ∧ byteAt e 2 = chr '-'

theorem SignText.lax {sign : Bytes} {negative : Bool} (h : SignText sign negative) :
    LaxSign sign negative := by
  cases h with
  | plain => exact (.bare : LaxSign (signText false) false)
  | plus => exact (.plus : LaxSign (chr '+' :: signText false) false)
  | minus => exact (.bare : LaxSign (signText true) true)

theorem Exponent.lax {e : Bytes} {exponent : Int} (h : Exponent SignText e exponent) :
    Exponent LaxSign e exponent := by
  cases h with
  | absent => exact .absent
  | written hmark hsign hne hds => exact .written hmark hsign.lax hne hds

theorem Exponent.not_doubleSign {e : Bytes} {exponent : Int} (h : Exponent SignText e exponent) :
    ¬ DoubleSign e := by
  rintro ⟨hplus, hminus⟩
  cases h with
  | absent => exact absurd hplus (by decide)
  | written _ hsign hne hds =>
    obtain ⟨d, ds, rfl⟩ := List.exists_cons_of_ne_nil hne
    obtain ⟨-, -, -, hdminus, hdplus, -⟩ := isdigit_ne (hds d List.mem_cons_self)
    cases hsign with
    | plain => exact hdplus hplus
    | plus => exact hdminus hminus
    | minus => exact absurd (show chr '-' = chr '+' from hplus) (by decide)

theorem Exponent.strict {e : Bytes} {exponent : Int} (h : Exponent LaxSign e exponent)
    (hsingle : ¬ DoubleSign e) : Exponent SignText e exponent := by
  cases h with
  | absent => exact .absent
  | @written _ _ _ negative hmark hsign hne hds =>
    refine .written hmark ?_ hne hds
    cases hsign with
    | bare =>
      cases negative with
      | true => exact .minus
      | false => exact .plain
    | plus =>
      cases negative with
      | true => exact absurd ⟨rfl, rfl⟩ hsingle
      | false => exact .plus

theorem Exponent.not_append {e tail : Bytes} {exponent exponent' : Int}
    (h : Exponent LaxSign e exponent) (hne : e ≠ []) (htail : isdigit (tail.headD 0) = false)
    (hmore : tail ≠ []) : ¬ Exponent SignText (e ++ tail) exponent' := by
  intro h'
  cases h with
  | absent => exact hne rfl
  | @written mark sign ds negative hmark hsign hds hdigits =>
    obtain ⟨sign', ds', negative', htext, hsign', -, hdigits', -⟩ := (exponent_cons_iff hmark).mp h'
    obtain ⟨d, tail, rfl⟩ := List.exists_cons_of_ne_nil hmore
    have hd : d ∈ ds' := by
      have hlength : sign'.length ≤ (sign ++ ds).length := by
        have hpos := List.length_pos_of_ne_nil hds
        have hone : sign'.length ≤ 1 := by
          cases hsign' <;> decide
        rw [List.length_append]
        omega
      rcases List.append_eq_append_iff.mp htext with ⟨w, hw, hds'⟩ | ⟨w, hw, hds'⟩
      · have hnil : w = [] := by
          have hcount := congrArg List.length hw
          rw [List.length_append] at hcount
          exact List.length_eq_zero_iff.mp (by omega)
        rw [hnil, List.nil_append] at hds'
        rw [← hds']
        exact List.mem_cons_self
      · rw [hds']
        simp
    rw [List.headD_cons, hdigits' d hd] at htail
    exact Bool.false_ne_true htail.symm

/-- What is accepted on the decimal path is a decimal number, with its fraction digits
less its exponent for a scale and its exact value. -/
def DecimalRight (s : Bytes) : Prop :=
  DecimalPath s → ∀ v scale, parseDecimal s = .ok (v, scale) →
    ∃ q fraction exponent, DecimalNumber s q fraction exponent ∧
      scale = fraction - exponent ∧ (v : ℚ) * 10 ^ (-scale) = q

/--
The texts on the decimal path that are misread: an exponent with two signs; one so low
that the scale overflows; and a text of `2 ^ 32` bytes or more of which the bytes that
are looked at are a number, unless they have no exponent and all of the text denotes
the same number with the same scale.
-/
def Misparsed (s : Bytes) : Prop :=
  ∃ m e c fraction exponent, converted s = m ++ e ∧ Significand m c fraction ∧
    Exponent LaxSign e exponent ∧ FitsLong exponent ∧
    if s.length < 2 ^ 31 then DoubleSign e ∨ 2 ^ 63 ≤ (fraction : Int) - exponent
    else if e = [] then
      ¬ ∃ fraction' exponent', DecimalNumber s c fraction' exponent' ∧
        (fraction' : Int) - exponent' = fraction
    else isdigit (byteAt s (converted s).length) = false

theorem Significand.exists_unscaled {m : Bytes} {c : ℚ} {fraction : Nat}
    (h : Significand m c fraction) : ∃ v : Int, (v : ℚ) = c * 10 ^ fraction := by
  cases h with
  | intro => exact ⟨_, signed_eq_quantity _ _ _⟩

theorem scaled_back {c v : ℚ} {fraction : Nat} {exponent : Int} (hv : v = c * 10 ^ fraction) :
    v * 10 ^ (-((fraction : Int) - exponent)) = c * 10 ^ exponent := by
  have hten : (10 : ℚ) ≠ 0 := by norm_num
  rw [hv, neg_sub, mul_assoc, ← zpow_natCast, ← zpow_add₀ hten]
  congr 2
  ring

theorem converted_of_short {s : Bytes} (hshort : s.length < 2 ^ 31) : converted s = s := by
  have hlen : inLen s = s.length := toInt32_of_lt hshort
  rw [converted, hlen, Int.toNat_natCast, List.take_length]

theorem tail_ne_nil {s : Bytes} (hlong : ¬ s.length < 2 ^ 31) :
    s.drop (converted s).length ≠ [] := by
  have hlt := inLen_lt s
  have hle := inLen_le s
  rw [← List.length_pos_iff, List.length_drop, converted, List.length_take]
  omega

theorem toInt64_lt (x : Int) : toInt64 x < 2 ^ 63 :=
  Int.bmod_lt (by decide)

section Reading

variable {s m e : Bytes} {c : ℚ} {fraction : Nat} {exponent : Int}

theorem Significand.fraction_lt (h : Significand m c fraction) (hconverted : converted s = m ++ e) :
    (fraction : Int) < 2 ^ 31 := by
  have hfraction := h.fraction_eq
  have hdrop := (List.dropWhile_sublist (· ≠ chr '.') (l := m)).length_le
  have hlen := congrArg List.length hconverted
  have hlt := inLen_lt s
  rw [List.length_append, converted, List.length_take] at hlen
  omega

theorem not_decimalNumber_append {q : ℚ} {fraction' : Nat} {exponent' : Int}
    (hconverted : converted s = m ++ e) (hm : Significand m c fraction)
    (he : Exponent LaxSign e exponent) (hne : e ≠ [])
    (hstop : isdigit (byteAt s (converted s).length) = false) (hlong : ¬ s.length < 2 ^ 31) :
    ¬ DecimalNumber s q fraction' exponent' := by
  rintro ⟨m', e', c', hs, hm', he', -⟩
  have hmark : AtMark (e ++ s.drop (converted s).length) := by
    obtain ⟨mark, text, rfl⟩ := List.exists_cons_of_ne_nil hne
    exact he.atMark
  have hwhole := append_of_converted hconverted
  rw [List.append_assoc] at hwhole
  obtain ⟨-, rfl⟩ := parts_unique hm hmark hm' he'.atMark (hwhole.symm.trans hs)
  exact he.not_append hne hstop (tail_ne_nil hlong) he'

theorem not_right_of_misparsed (hpath : DecimalPath s) (h : Misparsed s) : ¬ DecimalRight s := by
  intro hright
  obtain ⟨m, e, c, fraction, exponent, hconverted, hm, he, hfits, hwrong⟩ := h
  have hstop : e ≠ [] → isdigit (byteAt s (converted s).length) = false := by
    intro hne
    split_ifs at hwrong with hshort
    · rw [converted_of_short hshort, byteAt, List.drop_length]
      rfl
    · exact hwrong
  obtain ⟨v, hv⟩ := hm.exists_unscaled
  obtain ⟨q, fraction', exponent', hnumber, hscale, hq⟩ := hright hpath v _
    ((parseDecimal_eq_ok_iff hpath).mpr
      ⟨m, e, c, fraction, exponent, hconverted, hm, he, hfits, hstop, hv, rfl⟩)
  split_ifs at hwrong with hshort hnil
  · obtain ⟨m', e', c', hs, hm', he', -⟩ := hnumber
    rw [converted_of_short hshort] at hconverted
    obtain ⟨rfl, rfl⟩ := parts_unique hm he.atMark hm' he'.atMark (hconverted.symm.trans hs)
    rcases hwrong with hdouble | hoverflow
    · exact he'.not_doubleSign hdouble
    · obtain rfl : fraction = fraction' := hm.fraction_eq.trans hm'.fraction_eq.symm
      obtain rfl : exponent = exponent' := he.unique he'.lax
      have hlt := toInt64_lt (fraction - exponent)
      omega
  · subst hnil
    obtain rfl := exponent_nil_iff.mp he
    have hfraction := hm.fraction_lt hconverted
    have hexact : toInt64 ((fraction : Int) - 0) = fraction - 0 :=
      toInt64_of_range (by omega) (by omega)
    rw [hexact] at hscale hq
    rw [scaled_back hv, zpow_zero, mul_one] at hq
    rw [← hq] at hnumber
    exact hwrong ⟨fraction', exponent', hnumber, by omega⟩
  · exact not_decimalNumber_append hconverted hm he hnil hwrong hshort hnumber

theorem right_of_not_misparsed (h : ¬ Misparsed s) (hpath : DecimalPath s) : DecimalRight s := by
  intro _ v scale hparse
  obtain ⟨m, e, c, fraction, exponent, hconverted, hm, he, hfits, hstop, hv, rfl⟩ :=
    (parseDecimal_eq_ok_iff hpath).mp hparse
  have hread := fun hwrong =>
    h ⟨m, e, c, fraction, exponent, hconverted, hm, he, hfits, hwrong⟩
  split_ifs at hread with hshort hnil
  · have hsingle : ¬ DoubleSign e := fun hdouble => hread (.inl hdouble)
    have hbound : ¬ 2 ^ 63 ≤ (fraction : Int) - exponent := fun hle => hread (.inr hle)
    have hexact : toInt64 ((fraction : Int) - exponent) = fraction - exponent := by
      obtain ⟨-, hhigh⟩ := hfits
      unfold longMax at hhigh
      exact toInt64_of_range (by omega) (by omega)
    rw [converted_of_short hshort] at hconverted
    refine ⟨c * 10 ^ exponent, fraction, exponent, ⟨m, e, c, hconverted, hm, he.strict hsingle,
      rfl⟩, hexact, ?_⟩
    rw [hexact]
    exact scaled_back hv
  · subst hnil
    obtain rfl := exponent_nil_iff.mp he
    have hfraction := hm.fraction_lt hconverted
    have hexact : toInt64 ((fraction : Int) - 0) = fraction - 0 :=
      toInt64_of_range (by omega) (by omega)
    obtain ⟨fraction', exponent', hnumber, hdifference⟩ := not_not.mp hread
    refine ⟨c, fraction', exponent', hnumber, by omega, ?_⟩
    rw [hexact, scaled_back hv, zpow_zero, mul_one]
  · exact absurd (hstop hnil) hread

end Reading

/-- The decimal path is right unless the text is one of those. -/
theorem decimalRight_iff
    (s : Bytes) :
    DecimalRight s ↔ ¬ (DecimalPath s ∧ Misparsed s) := by
  constructor
  · rintro hright ⟨hpath, hwrong⟩
    exact not_right_of_misparsed hpath hwrong hright
  · intro hfine hpath
    exact right_of_not_misparsed (fun hwrong => hfine ⟨hpath, hwrong⟩) hpath hpath

/-- `1e+-5` has two signs and is accepted as `1e-5`; the scale of
`1e-9223372036854775808` comes out negative. -/
theorem two_signs_and_overflow :
    parseDecimal (ascii "1e+-5") = .ok (1, 5) ∧ ¬ DecimalRight (ascii "1e+-5") ∧
      parseDecimal (ascii "1e-9223372036854775808") = .ok (1, -2 ^ 63) ∧
      ¬ DecimalRight (ascii "1e-9223372036854775808") := by
  have hone : Significand (ascii "1") (quantity false [chr '1'] []) 0 :=
    (.intro .plain (List.forall_mem_singleton.mpr rfl) (by simp) :
      Significand ([] ++ ([chr '1'] ++ fractionText none)) _ 0)
  have htwo : Misparsed (ascii "1e+-5") := by
    refine ⟨ascii "1", ascii "e+-5", _, 0, -5, rfl, hone, ?_, ⟨by decide, by decide⟩, ?_⟩
    · exact (.written (.inl rfl) .plus (by simp) (List.forall_mem_singleton.mpr rfl) :
        Exponent LaxSign (chr 'e' :: ((chr '+' :: signText true) ++ [chr '5'])) _)
    · rw [if_pos (by decide)]
      exact .inl ⟨rfl, rfl⟩
  have hlow : Misparsed (ascii "1e-9223372036854775808") := by
    have hdigits : ∀ c ∈ ascii "9223372036854775808", isdigit c = true := List.all_eq_true.mp rfl
    refine ⟨ascii "1", ascii "e-9223372036854775808", _, 0, -2 ^ 63, rfl, hone, ?_,
      ⟨by decide, by decide⟩, ?_⟩
    · exact (.written (.inl rfl) .bare (by decide) hdigits :
        Exponent LaxSign (chr 'e' :: (signText true ++ ascii "9223372036854775808")) _)
    · rw [if_pos (by decide)]
      exact .inr (by decide)
  have hnonzero : ∀ rest, DecimalPath (chr '1' :: rest) := fun rest hzero =>
    absurd (show chr '1' = chr '0' from hzero) (by decide)
  exact ⟨by decide, not_right_of_misparsed (hnonzero _) htwo, by decide,
    not_right_of_misparsed (hnonzero _) hlow⟩

end Numbers
end ScyllaDriver
