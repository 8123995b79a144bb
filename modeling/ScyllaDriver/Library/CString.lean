import ScyllaDriver.Library.Positional
import Mathlib.Data.List.TakeWhile

/-!
# C strings and the C locale

Byte strings as C code sees them: a list of bytes followed by a terminating
NUL. Reading `s[i]` is `byteAt s i`, which gives the terminator at the end.
The character classes are those of the C locale, so no byte above 127 is a
digit, a letter or white space.

`strtol` is modelled for base 10, and `strtoull` for every base as C17 has it,
without a prefix for binary numbers. They report the value they store, how many
bytes they used, and whether they set `errno` to `ERANGE`.
-/

namespace ScyllaDriver
namespace CString

open Positional

abbrev Bytes := List UInt8

def chr (c : Char) : UInt8 :=
  UInt8.ofNat c.toNat

def ascii (s : String) : Bytes :=
  s.toList.map chr

/-- `s[i]`, where the terminator stands right after the last byte. -/
def byteAt (s : Bytes) (i : Nat) : UInt8 :=
  (s.drop i).headD 0

/-- `strlen`: the bytes before the first NUL. -/
def strlen (s : Bytes) : Nat :=
  (s.takeWhile (· ≠ 0)).length

/-- The bytes before the first NUL, which is all that a C function sees. -/
def seen (s : Bytes) : Bytes :=
  s.takeWhile (· ≠ 0)

def isdigit (c : UInt8) : Bool :=
  48 ≤ c.toNat && c.toNat ≤ 57

def isxdigit (c : UInt8) : Bool :=
  isdigit c || (65 ≤ c.toNat && c.toNat ≤ 70) || (97 ≤ c.toNat && c.toNat ≤ 102)

def isspace (c : UInt8) : Bool :=
  c.toNat = 32 || (9 ≤ c.toNat && c.toNat ≤ 13)

def isalnum (c : UInt8) : Bool :=
  isdigit c || (65 ≤ c.toNat && c.toNat ≤ 90) || (97 ≤ c.toNat && c.toNat ≤ 122)

/-- `strncmp(s₁, s₂, n) == 0`: the strings agree up to `n` characters or up
to their common end. -/
def strncmpEq : Nat → Bytes → Bytes → Bool
  | 0, _, _ => true
  | n + 1, s₁, s₂ =>
    if byteAt s₁ 0 ≠ byteAt s₂ 0 then false
    else byteAt s₁ 0 = 0 || strncmpEq n s₁.tail s₂.tail

/-- Value of a digit or letter in bases up to 36; 255 for any other byte. -/
def digitValue (c : UInt8) : Nat :=
  if 48 ≤ c.toNat ∧ c.toNat ≤ 57 then
    c.toNat - 48
  else if 65 ≤ c.toNat ∧ c.toNat ≤ 90 then
    c.toNat - 55
  else if 97 ≤ c.toNat ∧ c.toNat ≤ 122 then
    c.toNat - 87
  else
    255

def digitChar (d : Nat) : UInt8 :=
  UInt8.ofNat (48 + d)

/-- Decimal text of a natural number, without leading zeros. -/
def decimalText (n : Nat) : Bytes :=
  if n = 0 then [digitChar 0] else (digits 10 n).map digitChar

def hexDigitChar (d : Nat) : UInt8 :=
  if d < 10 then digitChar d else UInt8.ofNat (87 + d)

/-- `%x`: hexadecimal text of a natural number, without leading zeros. -/
def hexText (n : Nat) : Bytes :=
  if n = 0 then [hexDigitChar 0] else (digits 16 n).map hexDigitChar

/-- Result of `strtol`. -/
structure Strtol where
  value : Int
  used : Nat
  erange : Bool

/-- Range of a C `long`. -/
def longMax : Int :=
  2 ^ 63 - 1

def longMin : Int :=
  -2 ^ 63

def FitsLong (x : Int) : Prop :=
  longMin ≤ x ∧ x ≤ longMax

instance (x : Int) : Decidable (FitsLong x) :=
  inferInstanceAs (Decidable (_ ∧ _))

/-- Store a mathematical value the way `strtol` does. -/
def clampLong (x : Int) : Int × Bool :=
  if longMax < x then
    (longMax, true)
  else if x < longMin then
    (longMin, true)
  else
    (x, false)

/-- `strtol(s, &end, 10)`. -/
def strtol10 (s : Bytes) : Strtol :=
  let blanks := (s.takeWhile isspace).length
  let body := s.dropWhile isspace
  let signed := body.headD 0 = chr '-' ∨ body.headD 0 = chr '+'
  let ds := ((if signed then body.drop 1 else body).takeWhile isdigit).map digitValue
  if ds = [] then
    ⟨0, 0, false⟩
  else
    let x : Int := if body.headD 0 = chr '-' then -(value 10 ds : Int) else value 10 ds
    ⟨(clampLong x).1, blanks + (if signed then 1 else 0) + ds.length, (clampLong x).2⟩

/-- Result of `strtoull`. -/
structure Strtoull where
  value : Nat
  used : Nat
  erange : Bool

/-- Largest `unsigned long long`. -/
def ullongMax : Nat :=
  2 ^ 64 - 1

/-- The base in which `strtoull` reads a text without sign, and how many bytes the
mark of the base takes. `0x` is one only before a hexadecimal digit. -/
def settleBase (s : Bytes) (base : Nat) : Nat × Nat :=
  if (base = 0 ∨ base = 16) ∧ byteAt s 0 = chr '0' ∧
      (byteAt s 1 = chr 'x' ∨ byteAt s 1 = chr 'X') ∧ digitValue (byteAt s 2) < 16 then
    (16, 2)
  else if base = 0 then
    (if byteAt s 0 = chr '0' then 8 else 10, 0)
  else
    (base, 0)

/-- The number at the start of a text without sign, and how many bytes it takes; no
bytes if there is none. -/
def readInteger (s : Bytes) (base : Nat) : Nat × Nat :=
  let settled := settleBase s base
  let ds := (s.drop settled.2).takeWhile (digitValue · < settled.1)
  if ds = [] then
    (0, 0)
  else
    (value settled.1 (ds.map digitValue), settled.2 + ds.length)

/-- `strtoull(s, &end, base)`. -/
def strtoull (s : Bytes) (base : Nat) : Strtoull :=
  let text := s.takeWhile (· ≠ 0)
  let blanks := (text.takeWhile isspace).length
  let body := text.dropWhile isspace
  let sign := if byteAt body 0 = chr '-' ∨ byteAt body 0 = chr '+' then 1 else 0
  let read := readInteger (body.drop sign) base
  if read.2 = 0 then
    ⟨0, 0, false⟩
  else if ullongMax < read.1 then
    ⟨ullongMax, blanks + sign + read.2, true⟩
  else
    -- a minus sign negates in the unsigned type
    ⟨if byteAt body 0 = chr '-' then (2 ^ 64 - read.1) % 2 ^ 64 else read.1,
      blanks + sign + read.2, false⟩

/-- The conversion to a C `int` keeps the low 32 bits. -/
def toInt32 (n : Nat) : Int :=
  (n : Int).bmod (2 ^ 32)

/-- The result of `long` arithmetic keeps the low 64 bits. -/
def toInt64 (x : Int) : Int :=
  x.bmod (2 ^ 64)

variable {c : UInt8} {d n k : Nat} {α : Type} {s ds : Bytes} {x : Int}

theorem isdigit_isxdigit (h : isdigit c = true) : isxdigit c = true := by
  simp [isxdigit, h]

theorem isdigit_digitValue (h : isdigit c = true) :
    digitValue c = c.toNat - 48 ∧ digitValue c < 10 := by
  simp only [isdigit, Bool.and_eq_true, decide_eq_true_eq] at h
  constructor
  · simp [digitValue, h]
  · simp only [digitValue, h, and_self, if_true]
    omega

theorem isdigit_not_isspace (h : isdigit c = true) : isspace c = false := by
  simp only [isdigit, Bool.and_eq_true, decide_eq_true_eq] at h
  simp only [isspace, Bool.or_eq_false_iff, Bool.and_eq_false_iff, decide_eq_false_iff_not]
  omega

theorem isdigit_ne (h : isdigit c = true) :
    c ≠ chr '.' ∧ c ≠ chr 'e' ∧ c ≠ chr 'E' ∧ c ≠ chr '-' ∧
      c ≠ chr '+' ∧ c ≠ chr 'b' ∧ c ≠ chr 'x' ∧ c ≠ 0 := by
  refine ⟨?_, ?_, ?_, ?_, ?_, ?_, ?_, ?_⟩ <;>
    (rintro rfl; revert h; decide)

theorem digitChar_toNat (h : d < 10) : (digitChar d).toNat = 48 + d := by
  simp only [digitChar, UInt8.toNat_ofNat']
  omega

theorem isdigit_digitChar (h : d < 10) : isdigit (digitChar d) = true := by
  simp only [isdigit, digitChar_toNat h, Bool.and_eq_true, decide_eq_true_eq]
  omega

theorem digitValue_digitChar (h : d < 10) : digitValue (digitChar d) = d := by
  rw [(isdigit_digitValue (isdigit_digitChar h)).1, digitChar_toNat h]
  omega

theorem digitChar_digitValue (h : isdigit c = true) : digitChar (digitValue c) = c := by
  obtain ⟨hvalue, hlt⟩ := isdigit_digitValue h
  apply UInt8.toNat_inj.mp
  rw [digitChar_toNat hlt, hvalue]
  simp only [isdigit, Bool.and_eq_true, decide_eq_true_eq] at h
  omega

theorem isdigit_of_mem_decimalText (hc : c ∈ decimalText n) : isdigit c = true := by
  unfold decimalText at hc
  split_ifs at hc with hn
  · simp only [List.mem_singleton] at hc
    subst hc
    decide
  · obtain ⟨d, hd, rfl⟩ := List.mem_map.mp hc
    exact isdigit_digitChar (digits_lt (by decide) d hd)

theorem decimalText_ne_nil (n : Nat) : decimalText n ≠ [] := by
  unfold decimalText
  split_ifs with hn
  · simp
  · obtain ⟨d, ds, hds, -⟩ := digits_eq_cons 10 hn
    simp [hds]

@[simp] theorem value_decimalText (n : Nat) : value 10 ((decimalText n).map digitValue) = n := by
  unfold decimalText
  split_ifs with hn
  · subst hn
    decide
  · rw [List.map_map]
    have hmap : (digits 10 n).map (digitValue ∘ digitChar) = digits 10 n := by
      conv_rhs =>
        rw [← List.map_id (digits 10 n)]
      refine List.map_congr_left ?_
      intro d hd
      exact digitValue_digitChar (digits_lt (by decide) d hd)
    rw [hmap, value_digits]

theorem decimalText_head_ne_zero (hn : n ≠ 0) : ∃ c cs, decimalText n = c :: cs ∧ c ≠ chr '0' := by
  obtain ⟨d, ds, hds, hd⟩ := digits_eq_cons 10 hn
  have hlt : d < 10 := by
    apply digits_lt (b := 10) (n := n) (by decide)
    simp [hds]
  refine ⟨digitChar d, ds.map digitChar, by simp [decimalText, hn, hds], ?_⟩
  intro heq
  have h := congrArg UInt8.toNat heq
  rw [digitChar_toNat hlt] at h
  have h0 : (chr '0').toNat = 48 := by decide
  omega

theorem decimalText_value {cs : Bytes} (hdigits : ∀ x ∈ c :: cs, isdigit x = true)
    (hc : cs = [] ∨ c ≠ chr '0') : decimalText (value 10 ((c :: cs).map digitValue)) = c :: cs := by
  have hchars : ((c :: cs).map digitValue).map digitChar = c :: cs := by
    rw [List.map_map]
    conv_rhs =>
      rw [← List.map_id (c :: cs)]
    refine List.map_congr_left ?_
    intro x hx
    exact digitChar_digitValue (hdigits x hx)
  by_cases hzero : digitValue c = 0
  · have hchar : c = chr '0' := by
      rw [← digitChar_digitValue (hdigits c (by simp)), hzero]
      decide
    have hcs : cs = [] := by
      rcases hc with h | h
      · exact h
      · exact absurd hchar h
    subst hcs hchar
    decide
  · have hlt : ∀ x ∈ digitValue c :: cs.map digitValue, x < 10 := by
      intro x hx
      rw [← List.map_cons] at hx
      obtain ⟨y, hy, rfl⟩ := List.mem_map.mp hx
      exact (isdigit_digitValue (hdigits y hy)).2
    have hpos : value 10 ((c :: cs).map digitValue) ≠ 0 := by
      have h := pow_le_value_cons 10 hzero (cs.map digitValue)
      rw [← List.map_cons] at h
      have := Nat.one_le_pow (cs.map digitValue).length 10 (by decide)
      omega
    rw [decimalText, if_neg hpos, List.map_cons,
      digits_value (by decide) hlt hzero, ← List.map_cons, hchars]

theorem pow_le_of_decimalText (hn : n ≠ 0) : 10 ^ ((decimalText n).length - 1) ≤ n := by
  obtain ⟨d, ds, hds, hd⟩ := digits_eq_cons 10 hn
  have h := pow_le_value_cons 10 hd ds
  rw [← hds, value_digits] at h
  simpa [decimalText, hn, hds] using h

theorem decimalText_length_le (hk : 1 ≤ k) (h : n < 10 ^ k) : (decimalText n).length ≤ k := by
  unfold decimalText
  split_ifs with hn
  · simpa using hk
  · simpa using (digits_length_le_iff (by decide) k n).mpr h

/-- Comparing as many characters as the second text has tells whether it is a
prefix of the first. -/
theorem strncmpEq_iff_prefix {s₁ s₂ : Bytes} (h₂ : 0 ∉ s₂) :
    strncmpEq s₂.length s₁ s₂ = true ↔ s₂ <+: s₁ := by
  induction s₂ generalizing s₁ with
  | nil =>
    simp [strncmpEq]
  | cons c s₂ ih =>
    have hc : c ≠ 0 := by
      rintro rfl
      simp at h₂
    have hrest : 0 ∉ s₂ := fun h => h₂ (List.mem_cons_of_mem _ h)
    cases s₁ with
    | nil =>
      simp [strncmpEq, byteAt, hc.symm]
    | cons d s₁ =>
      by_cases hd : d = c
      · subst hd
        simp [strncmpEq, byteAt, hc, ih hrest, List.cons_prefix_cons]
      · simp [strncmpEq, byteAt, hd, List.cons_prefix_cons, Ne.symm hd]

theorem strlen_eq {s : Bytes} : (strlen s : Int) = (seen s).length := by
  rw [strlen, seen]

theorem ne_zero_of_mem_seen (hc : c ∈ seen s) : c ≠ 0 := by
  have h := List.mem_takeWhile_imp hc
  simpa using h

theorem seen_eq_self (h : ∀ c ∈ s, c ≠ 0) : seen s = s :=
  List.takeWhile_eq_self_iff.mpr fun c hc => decide_eq_true (h c hc)

/-- The string ends here: at its last byte or at a NUL. -/
def AtEnd (rest : Bytes) : Prop :=
  ∀ c ∈ rest.head?, c = 0

theorem seen_append {rest : Bytes} (h : ∀ c ∈ s, c ≠ 0) (hrest : AtEnd rest) :
    seen (s ++ rest) = s := by
  rw [seen, List.takeWhile_append_of_pos fun c hc => decide_eq_true (h c hc)]
  cases rest with
  | nil => simp
  | cons c rest =>
    obtain rfl : c = 0 := hrest c rfl
    simp

theorem exists_eq_seen_append (s : Bytes) : ∃ rest, s = seen s ++ rest ∧ AtEnd rest := by
  refine ⟨s.dropWhile (· ≠ 0), List.takeWhile_append_dropWhile.symm, ?_⟩
  intro c hc
  have hstop := List.head?_dropWhile_not (· ≠ (0 : UInt8)) s
  rw [Option.mem_def.mp hc] at hstop
  simpa using hstop

theorem seen_drop (s : Bytes) (hk : k ≤ (seen s).length) : seen (s.drop k) = (seen s).drop k := by
  obtain ⟨rest, hs, hrest⟩ := exists_eq_seen_append s
  have hdrop : s.drop k = (seen s).drop k ++ rest := by
    conv_lhs => rw [hs]
    exact List.drop_append_of_le_length hk
  rw [hdrop]
  exact seen_append (fun c hc => ne_zero_of_mem_seen (List.mem_of_mem_drop hc)) hrest

theorem toInt32_of_lt (h : n < 2 ^ 31) : toInt32 n = n := by
  unfold toInt32
  rw [Int.bmod_def]
  have hmod : (n : Int) % ((2 ^ 32 : Nat) : Int) = n := by
    apply Int.emod_eq_of_lt <;> omega
  rw [hmod]
  split_ifs with hlt
  · rfl
  · exact absurd (by norm_num; omega) hlt

theorem toInt32_ne (h : 2 ^ 31 ≤ n) : toInt32 n < 2 ^ 31 ∧ (toInt32 n < 0 ∨ 2 ^ 32 ≤ n) := by
  unfold toInt32
  rw [Int.bmod_def]
  norm_num
  split_ifs with hlt <;> omega

theorem toInt64_of_range (hlow : -2 ^ 63 ≤ x) (hhigh : x < 2 ^ 63) : toInt64 x = x := by
  unfold toInt64
  rw [Int.bmod_def]
  norm_num
  split_ifs with hlt <;> omega

theorem hexDigitChar_of_lt (h : d < 16) :
    isxdigit (hexDigitChar d) = true ∧ digitValue (hexDigitChar d) = d := by
  by_cases hten : d < 10
  · rw [hexDigitChar, if_pos hten]
    exact ⟨isdigit_isxdigit (isdigit_digitChar hten), digitValue_digitChar hten⟩
  · have hbyte : (hexDigitChar d).toNat = 87 + d := by
      rw [hexDigitChar, if_neg hten]
      simp only [UInt8.toNat_ofNat']
      omega
    constructor
    · simp only [isxdigit, isdigit, hbyte, Bool.or_eq_true, Bool.and_eq_true, decide_eq_true_eq]
      omega
    · rw [digitValue, hbyte, if_neg (by omega), if_neg (by omega), if_pos (by omega)]
      omega

theorem isxdigit_of_mem_hexText (hc : c ∈ hexText n) : isxdigit c = true := by
  unfold hexText at hc
  split_ifs at hc
  · rw [List.mem_singleton.mp hc]
    decide
  · obtain ⟨d, hd, rfl⟩ := List.mem_map.mp hc
    exact (hexDigitChar_of_lt (digits_lt (by decide) d hd)).1

theorem hexText_ne_nil (n : Nat) : hexText n ≠ [] := by
  unfold hexText
  split_ifs with hn
  · simp
  · obtain ⟨d, ds, hds, -⟩ := digits_eq_cons 16 hn
    simp [hds]

@[simp] theorem value_hexText (n : Nat) : value 16 ((hexText n).map digitValue) = n := by
  unfold hexText
  split_ifs with hn
  · subst hn
    decide
  · rw [List.map_map]
    have hmap : (digits 16 n).map (digitValue ∘ hexDigitChar) = digits 16 n := by
      refine (List.map_congr_left fun d hd => ?_).trans (List.map_id _)
      exact (hexDigitChar_of_lt (digits_lt (by decide) d hd)).2
    rw [hmap, value_digits]

theorem hexText_length_le (hk : 1 ≤ k) (h : n < 16 ^ k) : (hexText n).length ≤ k := by
  unfold hexText
  split_ifs with hn
  · simpa using hk
  · simpa using (digits_length_le_iff (by decide) k n).mpr h

theorem drop_of_byteAt {i : Nat} (h : byteAt s i = c) (hc : c ≠ 0) :
    s.drop i = c :: s.drop (i + 1) := by
  rw [byteAt] at h
  rw [← List.drop_drop]
  cases hdrop : s.drop i with
  | nil =>
    rw [hdrop] at h
    exact absurd h.symm hc
  | cons d rest =>
    rw [hdrop] at h
    rw [← h]
    rfl

theorem takeWhile_append_stop {p : α → Bool} {xs rest : List α} (h : ∀ x ∈ xs, p x = true)
    (hrest : ∀ x ∈ rest.head?, p x = false) : (xs ++ rest).takeWhile p = xs := by
  rw [List.takeWhile_append_of_pos h]
  cases rest with
  | nil => simp
  | cons x rest => simp [hrest x rfl]

theorem strtol10_append (neg : Bool) {rest : Bytes} (hhead : neg = true ∨ ds ≠ [])
    (hds : ∀ c ∈ ds, isdigit c = true) (hrest : ∀ c ∈ rest.head?, isdigit c = false)
    (hx : x =
      if neg then -(value 10 (ds.map digitValue) : Int)
      else value 10 (ds.map digitValue)) :
    strtol10 ((if neg then [chr '-'] else []) ++ (ds ++ rest)) =
      if ds = [] then ⟨0, 0, false⟩
      else ⟨(clampLong x).1, (if neg then 1 else 0) + ds.length, (clampLong x).2⟩ := by
  have htake : (ds ++ rest).takeWhile isdigit = ds := takeWhile_append_stop hds hrest
  cases neg with
  | true =>
    simp only [if_true] at hx ⊢
    have hspace : isspace (chr '-') = false := by decide
    simp only [strtol10, List.singleton_append, List.takeWhile_cons,
      List.dropWhile_cons, hspace, Bool.false_eq_true, if_false,
      List.headD_cons, true_or, if_true, List.drop_one, List.tail_cons,
      htake, List.map_eq_nil_iff, ← hx, List.length_nil, List.length_map,
      Nat.zero_add]
  | false =>
    simp only [Bool.false_eq_true, if_false, List.nil_append] at hx ⊢
    have hne : ds ≠ [] := hhead.resolve_left Bool.false_ne_true
    obtain ⟨c, cs, rfl⟩ := List.exists_cons_of_ne_nil hne
    have hspace := isdigit_not_isspace (hds c (by simp))
    obtain ⟨-, -, -, hminus, hplus, -⟩ := isdigit_ne (hds c (by simp))
    rw [List.cons_append] at htake ⊢
    simp only [strtol10, List.takeWhile_cons (p := isspace),
      List.dropWhile_cons, hspace, Bool.false_eq_true, if_false,
      List.headD_cons, hminus, hplus, or_self, htake, List.map_eq_nil_iff, ← hx,
      List.length_nil, List.length_map, Nat.zero_add]

theorem strtol10_signed (neg : Bool) (hne : ds ≠ []) (hds : ∀ c ∈ ds, isdigit c = true)
    (hx : x =
      if neg then -(value 10 (ds.map digitValue) : Int)
      else value 10 (ds.map digitValue)) :
    strtol10 ((if neg then [chr '-'] else []) ++ ds) =
      ⟨(clampLong x).1, (if neg then 1 else 0) + ds.length, (clampLong x).2⟩ := by
  have hnone : ∀ c ∈ ([] : Bytes).head?, isdigit c = false := by simp
  have h := strtol10_append neg (.inr hne) hds hnone hx
  rwa [List.append_nil, if_neg hne] at h

theorem clampLong_of_range (hlow : longMin ≤ x) (hhigh : x ≤ longMax) :
    clampLong x = (x, false) := by
  simp [clampLong, not_lt.mpr hhigh, not_lt.mpr hlow]

theorem strtol10_digits (neg : Bool) (hne : ds ≠ []) (hds : ∀ c ∈ ds, isdigit c = true)
    (hx : x =
      if neg then -(value 10 (ds.map digitValue) : Int)
      else value 10 (ds.map digitValue)) (hlow : longMin ≤ x) (hhigh : x ≤ longMax) :
    strtol10 ((if neg then [chr '-'] else []) ++ ds) =
      ⟨x, (if neg then 1 else 0) + ds.length, false⟩ := by
  rw [strtol10_signed neg hne hds hx, clampLong_of_range hlow hhigh]

end CString
end ScyllaDriver
