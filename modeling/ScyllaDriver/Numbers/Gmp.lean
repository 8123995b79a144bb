import ScyllaDriver.Library.CString
import Mathlib.Data.Nat.Size
import Mathlib.NumberTheory.Padics.PadicVal.Basic

/-!
# The GMP operations behind Varint and Decimal

The extension keeps every Varint, and the unscaled part of every Decimal, in
an `mpz_t`. An `mpz_t` is an unbounded integer, so it is modelled by `Int`,
and each `mpz_*` call by the function its manual describes. Only the calls
that do more than integer arithmetic need a definition:

* `mpz_sizeinbase(z, 2)` and `mpz_scan1(z, 0)` look at bits;
* `mpz_export` and `mpz_import` move whole bytes, most significant first
  (`order = 1`, `size = 1`, `nails = 0` at every call site), and
  `mpz_export` drops the sign;
* `mpz_set_str` and `mpz_get_str` convert from and to text. `mpz_set_str`
  ignores white space, takes an optional minus sign but no plus sign, and in
  base 0 reads the base off the prefix.
-/

namespace ScyllaDriver
namespace Numbers

open Positional CString

abbrev Byte := UInt8

/-- `mpz_sizeinbase(z, 2)`: bits of the magnitude, and 1 for zero. -/
def mpzSizeinbase2 (z : Int) : Nat :=
  if z = 0 then 1 else z.natAbs.size

/-- `mpz_scan1(z, 0)`: index of the lowest set bit of a nonzero number. A
number and its negation share that bit in two's complement. -/
def mpzScan1 (z : Int) : Nat :=
  padicValNat 2 z.natAbs

/-- `mpz_export` of whole bytes, most significant first; the sign is ignored
and zero gives no byte at all. -/
def mpzExport (z : Int) : List Byte :=
  (digits 256 z.natAbs).map UInt8.ofNat

/-- `mpz_import` of whole bytes, most significant first. -/
def mpzImport (data : List Byte) : Int :=
  value 256 (data.map UInt8.toNat)

/-- Base and digits `mpz_set_str` settles on once the sign is gone. -/
def mpzBaseAndDigits (c : Byte) (rest : Bytes) (base : Nat) : Nat × Bytes :=
  if base ≠ 0 then
    (base, c :: rest)
  else if c = chr '0' then
    match rest with
    | [] => (8, [])
    | x :: tail =>
      if x = chr 'x' ∨ x = chr 'X' then
        (16, tail)
      else if x = chr 'b' ∨ x = chr 'B' then
        (2, tail)
      else
        (8, x :: tail)
  else
    (10, c :: rest)

/-- Digits of a settled base; white space between them is ignored. -/
def mpzReadDigits (base : Nat) (text : Bytes) : Option Nat :=
  let ds := (text.filter (fun x => !isspace x)).map digitValue
  if ∀ d ∈ ds, d < base then some (value base ds) else none

/-- The part of `mpz_set_str` after the sign. -/
def mpzSetDigits (body : Bytes) (base : Nat) : Option Nat :=
  match body with
  | [] => none
  | c :: rest =>
    if digitValue c < (if base = 0 then 10 else base) then
      mpzReadDigits (mpzBaseAndDigits c rest base).1 (mpzBaseAndDigits c rest base).2
    else
      none

/-- `mpz_set_str`: `none` stands for the return value -1. -/
def mpzSetStr (s : Bytes) (base : Nat) : Option Int :=
  let text := (s.takeWhile (· ≠ 0)).dropWhile isspace
  if text.headD 0 = chr '-' then
    (mpzSetDigits (text.drop 1) base).map (fun n : Nat => -(n : Int))
  else
    (mpzSetDigits text base).map (fun n : Nat => (n : Int))

/-- `mpz_get_str` in base 10. -/
def mpzGetStr (z : Int) : Bytes :=
  (if z < 0 then [chr '-'] else []) ++ decimalText z.natAbs

theorem map_toNat_mpzExport (z : Int) : (mpzExport z).map UInt8.toNat = digits 256 z.natAbs := by
  unfold mpzExport
  rw [List.map_map]
  conv_rhs =>
    rw [← List.map_id (digits 256 z.natAbs)]
  refine List.map_congr_left ?_
  intro d hd
  have hlt : d < 256 := digits_lt (by decide) d hd
  simpa using Nat.mod_eq_of_lt hlt

theorem mpzExport_length (z : Int) : (mpzExport z).length = (digits 256 z.natAbs).length := by
  simp [mpzExport]

@[simp] theorem mpzImport_mpzExport (z : Int) : mpzImport (mpzExport z) = (z.natAbs : Int) := by
  simp [mpzImport, map_toNat_mpzExport]

@[simp] theorem mpzImport_zero_cons (data : List Byte) :
    mpzImport (0 :: data) = mpzImport data := by
  simp [mpzImport, value_cons]

theorem natAbs_lt_pow_mpzSizeinbase2 {z : Int} (hz : z ≠ 0) : z.natAbs < 2 ^ mpzSizeinbase2 z := by
  simp [mpzSizeinbase2, hz, Nat.lt_size_self]

theorem pow_le_natAbs_of_lt_mpzSizeinbase2 {z : Int} (hz : z ≠ 0) {k : Nat}
    (hk : k < mpzSizeinbase2 z) : 2 ^ k ≤ z.natAbs := by
  rw [mpzSizeinbase2, if_neg hz] at hk
  exact Nat.lt_size.mp hk

theorem natAbs_eq_odd_mul_pow_mpzScan1 {z : Int} (hz : z ≠ 0) :
    ∃ c, c % 2 = 1 ∧ z.natAbs = c * 2 ^ mpzScan1 z := by
  have hne : z.natAbs ≠ 0 := by
    simpa using hz
  obtain ⟨c, hc⟩ := (padicValNat_dvd_iff_le (p := 2) hne).mpr (le_refl (mpzScan1 z))
  refine ⟨c, ?_, by rw [hc, Nat.mul_comm]⟩
  by_contra hodd
  have htwo : 2 ∣ c := by omega
  obtain ⟨e, rfl⟩ := htwo
  have hdvd : 2 ^ (mpzScan1 z + 1) ∣ z.natAbs := by
    refine ⟨e, ?_⟩
    rw [hc, pow_succ]
    ring
  have := (padicValNat_dvd_iff_le (p := 2) hne).mp hdvd
  unfold mpzScan1 at this
  omega

theorem mpzScan1_eq {z : Int} {c k : Nat} (hc : c % 2 = 1) (hz : z.natAbs = c * 2 ^ k) :
    mpzScan1 z = k := by
  have hc0 : c ≠ 0 := by omega
  have hpow : padicValNat 2 (2 ^ k) = k := by
    simp
  have hodd : padicValNat 2 c = 0 := by
    apply padicValNat.eq_zero_of_not_dvd
    omega
  rw [mpzScan1, hz, padicValNat.mul hc0 (by positivity), hodd, hpow, Nat.zero_add]

theorem mpzReadDigits_digits {ds : Bytes} (hds : ∀ c ∈ ds, isdigit c = true) :
    mpzReadDigits 10 ds = some (value 10 (ds.map digitValue)) := by
  have hfilter : ds.filter (fun x => !isspace x) = ds := by
    rw [List.filter_eq_self]
    intro c hc
    simp [isdigit_not_isspace (hds c hc)]
  have hall : ∀ d ∈ ds.map digitValue, d < 10 := by
    intro d hd
    obtain ⟨c, hc, rfl⟩ := List.mem_map.mp hd
    exact (isdigit_digitValue (hds c hc)).2
  unfold mpzReadDigits
  simp only [hfilter]
  rw [if_pos hall]

theorem mpzSetDigits_base10 {body : Bytes} {n : Nat} (h : mpzSetDigits body 10 = some n) :
    mpzReadDigits 10 body = some n := by
  cases body with
  | nil =>
    simp [mpzSetDigits] at h
  | cons c rest =>
    have h10 : mpzBaseAndDigits c rest 10 = (10, c :: rest) := by
      simp [mpzBaseAndDigits]
    rw [mpzSetDigits, h10] at h
    by_cases hc : digitValue c < 10
    · simpa [hc] using h
    · simp [hc] at h

theorem mpzSetDigits_digits {ds : Bytes} (hne : ds ≠ []) (hds : ∀ c ∈ ds, isdigit c = true) :
    mpzSetDigits ds 10 = some (value 10 (ds.map digitValue)) := by
  rw [← mpzReadDigits_digits hds]
  obtain ⟨c, cs, rfl⟩ := List.exists_cons_of_ne_nil hne
  have hc := (isdigit_digitValue (hds c (by simp))).2
  simp [mpzSetDigits, mpzBaseAndDigits, hc]

theorem mpzSetStr_digits (neg : Bool) {ds : Bytes} (hne : ds ≠ [])
    (hds : ∀ c ∈ ds, isdigit c = true) :
    mpzSetStr ((if neg then [chr '-'] else []) ++ ds) 10 =
      some (if neg then -(value 10 (ds.map digitValue) : Int)
        else value 10 (ds.map digitValue)) := by
  have htake : ds.takeWhile (· ≠ 0) = ds := by
    apply List.takeWhile_eq_self_iff.mpr
    intro c hc
    simpa using (isdigit_ne (hds c hc)).2.2.2.2.2.2.2
  have hset := mpzSetDigits_digits hne hds
  cases neg with
  | true =>
    have hzero : decide (chr '-' ≠ 0) = true := by decide
    have hspace : isspace (chr '-') = false := by decide
    simp only [if_true, List.singleton_append]
    simp only [mpzSetStr, List.takeWhile_cons, hzero, if_true, htake,
      List.dropWhile_cons, hspace, Bool.false_eq_true, if_false,
      List.headD_cons, List.drop_one, List.tail_cons, hset, Option.map_some]
  | false =>
    obtain ⟨c, cs, rfl⟩ := List.exists_cons_of_ne_nil hne
    have hc := hds c (by simp)
    have hspace := isdigit_not_isspace hc
    have hminus := (isdigit_ne hc).2.2.2.1
    simp only [Bool.false_eq_true, if_false, List.nil_append]
    simp only [mpzSetStr, htake, List.dropWhile_cons, hspace,
      Bool.false_eq_true, if_false, List.headD_cons, hminus, hset,
      Option.map_some]

end Numbers
end ScyllaDriver
