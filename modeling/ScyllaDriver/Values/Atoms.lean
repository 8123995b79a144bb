import ScyllaDriver.Values.Types
import ScyllaDriver.Library.FloatFormat
import Mathlib.Data.Nat.Digits.Defs

/-!
# Values that hold no other values

The PHP scalars and the value objects that wrap one number, string or date.
Each has a hash and a comparison of its own; `php_scylladb_value_hash` and
`php_scylladb_value_compare` dispatch on the zval type and, for objects, on
the class.

`zend_inline_hash_func` belongs to PHP. It is a parameter `hashFunc` of
everything below, its result cut to 32 bits as at every call site.
-/

namespace ScyllaDriver
namespace Values

open CString Comparator FloatFormat

/-- The value classes; all of them are final. -/
inductive ValueClass where
  | bigint
  | smallint
  | tinyint
  | float
  | varint
  | decimal
  | blob
  | inet
  | uuid
  | timeuuid
  | timestamp
  | date
  | time
  | duration
  | collection
  | set
  | map
  | tuple
  | userTypeValue
  deriving DecidableEq, Repr

def ValueClass.name : ValueClass → String
  | .bigint => "Cassandra\\Bigint"
  | .smallint => "Cassandra\\Smallint"
  | .tinyint => "Cassandra\\Tinyint"
  | .float => "Cassandra\\Float"
  | .varint => "Cassandra\\Varint"
  | .decimal => "Cassandra\\Decimal"
  | .blob => "Cassandra\\Blob"
  | .inet => "Cassandra\\Inet"
  | .uuid => "Cassandra\\Uuid"
  | .timeuuid => "Cassandra\\Timeuuid"
  | .timestamp => "Cassandra\\Timestamp"
  | .date => "Cassandra\\Date"
  | .time => "Cassandra\\Time"
  | .duration => "Cassandra\\Duration"
  | .collection => "Cassandra\\Collection"
  | .set => "Cassandra\\Set"
  | .map => "Cassandra\\Map"
  | .tuple => "Cassandra\\Tuple"
  | .userTypeValue => "Cassandra\\UserTypeValue"

/-- What the comparison dispatches on: the zval type, and of an object the
class. -/
inductive Kind where
  | null
  | false
  | true
  | long
  | double
  | string
  | object (ce : ValueClass)
  deriving DecidableEq, Repr

namespace Kind

/-- `Z_TYPE_P`. -/
def zType : Kind → Nat
  | .null => 1
  | .false => 2
  | .true => 3
  | .long => 4
  | .double => 5
  | .string => 6
  | .object _ => 8

def className : Kind → String
  | .object ce => ce.name
  | _ => ""

end Kind

/-- The order of values of different kinds: by zval type, objects by the name
of their class. -/
def kindCompare (kind₁ kind₂ : Kind) : Ordering :=
  (compare kind₁.zType kind₂.zType).then (compare kind₁.className kind₂.className)

/-- A value that holds no other value. Floating-point numbers are their bit
patterns, an `mpz_t` is an integer. -/
inductive Atom where
  | null
  | false
  | true
  | long (value : Int64)
  | double (bits : UInt64)
  | string (value : Bytes)
  | bigint (value : Int64)
  | smallint (value : Int16)
  | tinyint (value : Int8)
  | float (bits : UInt32)
  | varint (value : Int)
  | decimal (value : Int) (scale : Int64)
  | blob (data : Bytes)
  | inet (address : Bytes)
  | uuid (timeAndVersion clockSeqAndNode : UInt64)
  | timeuuid (timeAndVersion clockSeqAndNode : UInt64)
  | timestamp (value : Int64)
  | date (value : UInt32)
  | time (value : Int64)
  | duration (months days : Int32) (nanos : Int64)
  deriving DecidableEq, Repr

def Atom.kind : Atom → Kind
  | .null => .null
  | .false => .false
  | .true => .true
  | .long _ => .long
  | .double _ => .double
  | .string _ => .string
  | .bigint _ => .object .bigint
  | .smallint _ => .object .smallint
  | .tinyint _ => .object .tinyint
  | .float _ => .object .float
  | .varint _ => .object .varint
  | .decimal _ _ => .object .decimal
  | .blob _ => .object .blob
  | .inet _ => .object .inet
  | .uuid _ _ => .object .uuid
  | .timeuuid _ _ => .object .timeuuid
  | .timestamp _ => .object .timestamp
  | .date _ => .object .date
  | .time _ => .object .time
  | .duration _ _ _ => .object .duration

/-- `php_scylladb_combine_hash`. -/
def combineHash (seed hashv : UInt32) : UInt32 :=
  seed ^^^ (hashv + (0x9e3779b9 : UInt32) + (seed <<< (6 : UInt32)) + (seed >>> (2 : UInt32)))

/-- `php_scylladb_bigint_hash`, of the 64 bits of its argument. -/
def bigintHash (value : UInt64) : UInt32 :=
  (value ^^^ (value >>> (32 : UInt64))).toUInt32

/-- `php_scylladb_mpz_hash`: the 64-bit limbs of the magnitude, lowest first. -/
def mpzHash (seed : UInt32) (n : Int) : UInt32 :=
  (Nat.digits (2 ^ 64) n.natAbs).foldl
    (fun hashv limb => combineHash hashv (bigintHash (UInt64.ofNat limb))) seed

/-- The patterns of a format, with one pattern for all that is not a number. -/
def canonicalBits (f : Format) (nan bits : Nat) : Int :=
  if f.isNan bits then nan else f.signed bits

/-- `double_to_bits`. -/
def doubleToBits (bits : UInt64) : Int :=
  canonicalBits binary64 0x7ff8000000000000 bits.toNat

/-- `float_to_bits`. -/
def floatToBits (bits : UInt32) : Int :=
  canonicalBits binary32 0x7fc00000 bits.toNat

/-- `double_hash`. -/
def doubleHash (bits : UInt64) : UInt32 :=
  bigintHash (Int64.ofInt (doubleToBits bits)).toUInt64

/-- `php_scylladb_uuid_hash_value` and `php_scylladb_timeuuid_hash_value`. -/
def uuidHash (timeAndVersion clockSeqAndNode : UInt64) : UInt32 :=
  combineHash (bigintHash timeAndVersion) (bigintHash clockSeqAndNode)

/-- `php_scylladb_duration_hash_value`. -/
def durationHash (months days : Int32) (nanos : Int64) : UInt32 :=
  [months.toUInt32, days.toUInt32, nanos.toUInt64.toUInt32].foldl combineHash 0

section

variable (hashFunc : Bytes → UInt32)

/-- `php_scylladb_value_hash` and the `hash_value` handlers. -/
def Atom.hash : Atom → UInt32
  | .null => 0
  | .true => 1
  | .false => 0
  | .long value => bigintHash value.toUInt64
  | .double bits => doubleHash bits
  | .string value => hashFunc value
  | .bigint value => bigintHash value.toUInt64
  | .smallint value => (Int32.ofInt (31 * 17 + value.toInt)).toUInt32
  | .tinyint value => (Int32.ofInt (31 * 17 + value.toInt)).toUInt32
  | .float bits => (Int32.ofInt (floatToBits bits)).toUInt32
  | .varint value => mpzHash 0 value
  | .decimal value scale => mpzHash scale.toUInt64.toUInt32 value
  | .blob data => hashFunc data
  | .inet address => hashFunc address
  | .uuid timeAndVersion clockSeqAndNode => uuidHash timeAndVersion clockSeqAndNode
  | .timeuuid timeAndVersion clockSeqAndNode => uuidHash timeAndVersion clockSeqAndNode
  | .timestamp value => bigintHash value.toUInt64
  | .date value => 31 * 17 + value
  | .time value => bigintHash value.toUInt64
  | .duration months days nanos => durationHash months days nanos

end

/-- The comparison of floating-point numbers: by `<` and `>`, and by their
bits where these decide nothing. -/
def bitsCompare (f : Format) (nan bits₁ bits₂ : Nat) : Ordering :=
  if f.less bits₁ bits₂ then .lt
  else if f.less bits₂ bits₁ then .gt
  else compare (canonicalBits f nan bits₁) (canonicalBits f nan bits₂)

/-- `double_compare`. -/
def doubleCompare (bits₁ bits₂ : UInt64) : Ordering :=
  bitsCompare binary64 0x7ff8000000000000 bits₁.toNat bits₂.toNat

/-- `php_scylladb_float_compare`. -/
def floatCompare (bits₁ bits₂ : UInt32) : Ordering :=
  bitsCompare binary32 0x7fc00000 bits₁.toNat bits₂.toNat

/-- `php_scylladb_decimal_compare`: the scale decides before the number. -/
def decimalCompare (value₁ : Int) (scale₁ : Int64) (value₂ : Int) (scale₂ : Int64) : Ordering :=
  (compare scale₁ scale₂).then (compare value₁ value₂)

/-- `php_scylladb_uuid_compare` and `php_scylladb_timeuuid_compare`. -/
def uuidCompare (timeAndVersion₁ clockSeqAndNode₁ timeAndVersion₂ clockSeqAndNode₂ : UInt64) :
    Ordering :=
  (compare timeAndVersion₁ timeAndVersion₂).then
    (compare clockSeqAndNode₁ clockSeqAndNode₂)

/-- `php_scylladb_duration_compare`. -/
def durationCompare (months₁ days₁ : Int32) (nanos₁ : Int64) (months₂ days₂ : Int32)
    (nanos₂ : Int64) : Ordering :=
  (compare months₁ months₂).then <| (compare days₁ days₂).then (compare nanos₁ nanos₂)

/-- The comparison of two values of one kind. `zend_binary_strcmp` compares
strings byte by byte, and a prefix comes first; blobs and addresses are
compared by length first. -/
def Atom.contentsCompare : Atom → Atom → Ordering
  | .long value₁, .long value₂ => compare value₁ value₂
  | .double bits₁, .double bits₂ => doubleCompare bits₁ bits₂
  | .string value₁, .string value₂ => compare value₁ value₂
  | .bigint value₁, .bigint value₂ => compare value₁ value₂
  | .smallint value₁, .smallint value₂ => compare value₁ value₂
  | .tinyint value₁, .tinyint value₂ => compare value₁ value₂
  | .float bits₁, .float bits₂ => floatCompare bits₁ bits₂
  | .varint value₁, .varint value₂ => compare value₁ value₂
  | .decimal value₁ scale₁, .decimal value₂ scale₂ =>
    decimalCompare value₁ scale₁ value₂ scale₂
  | .blob data₁, .blob data₂ => stringCompare data₁ data₂
  | .inet address₁, .inet address₂ => stringCompare address₁ address₂
  | .uuid time₁ node₁, .uuid time₂ node₂ => uuidCompare time₁ node₁ time₂ node₂
  | .timeuuid time₁ node₁, .timeuuid time₂ node₂ => uuidCompare time₁ node₁ time₂ node₂
  | .timestamp value₁, .timestamp value₂ => compare value₁ value₂
  | .date value₁, .date value₂ => compare value₁ value₂
  | .time value₁, .time value₂ => compare value₁ value₂
  | .duration months₁ days₁ nanos₁, .duration months₂ days₂ nanos₂ =>
    durationCompare months₁ days₁ nanos₁ months₂ days₂ nanos₂
  | _, _ => .eq

theorem ValueClass.name_injective : Function.Injective ValueClass.name := by
  intro ce₁ ce₂ h
  cases ce₁ <;> cases ce₂ <;> first | rfl | exact absurd h (by decide)

theorem kindCompare_eq_iff (kind₁ kind₂ : Kind) :
    kindCompare kind₁ kind₂ = .eq ↔ kind₁ = kind₂ := by
  constructor
  · intro h
    obtain ⟨htype, hname⟩ := Ordering.then_eq_eq.mp h
    rw [Std.LawfulEqCmp.compare_eq_iff_eq] at htype hname
    cases kind₁ <;> cases kind₂ <;> simp_all [Kind.zType, Kind.className]
    exact ValueClass.name_injective hname
  · rintro rfl
    simp [kindCompare]

theorem kindCompare_order (s : Set Kind) : TotalPreorderOn kindCompare s :=
  (TotalPreorderOn.of_key Kind.zType s).andThen fun _ _ =>
    TotalPreorderOn.of_key Kind.className _

theorem compare_int64 (a b : Int64) : compare a b = compare a.toInt b.toInt := by
  simp only [compare, compareOfLessAndEq, Int64.lt_iff_toInt_lt, ← Int64.toInt_inj]

theorem compare_int32 (a b : Int32) : compare a b = compare a.toInt b.toInt := by
  simp only [compare, compareOfLessAndEq, Int32.lt_iff_toInt_lt, ← Int32.toInt_inj]

theorem compare_int16 (a b : Int16) : compare a b = compare a.toInt b.toInt := by
  simp only [compare, compareOfLessAndEq, Int16.lt_iff_toInt_lt, ← Int16.toInt_inj]

theorem compare_int8 (a b : Int8) : compare a b = compare a.toInt b.toInt := by
  simp only [compare, compareOfLessAndEq, Int8.lt_iff_toInt_lt, ← Int8.toInt_inj]

theorem compare_natCast (a b : Nat) : compare (a : Int) (b : Int) = compare a b := by
  simp only [compare, compareOfLessAndEq, Int.ofNat_lt, Int.natCast_inj]

theorem compare_uint64 (a b : UInt64) : compare a b = compare (a.toNat : Int) (b.toNat : Int) := by
  rw [compare_natCast]
  simp only [compare, compareOfLessAndEq, UInt64.lt_iff_toNat_lt, ← UInt64.toNat_inj]

theorem compare_uint32 (a b : UInt32) : compare a b = compare (a.toNat : Int) (b.toNat : Int) := by
  rw [compare_natCast]
  simp only [compare, compareOfLessAndEq, UInt32.lt_iff_toNat_lt, ← UInt32.toNat_inj]

theorem bitsCompare_eq_compare_rank {f : Format} {nan bits₁ bits₂ : Nat} (hnan : f.infinity < nan)
    (hfits₁ : f.Fits bits₁) (hfits₂ : f.Fits bits₂) :
    bitsCompare f nan bits₁ bits₂ = compare (f.rank bits₁) (f.rank bits₂) := by
  unfold bitsCompare
  split
  · next hlt =>
      exact (compare_lt_iff_lt.mpr (Format.rank_lt_of_less hlt)).symm
  · next hge =>
      split
      · next hgt =>
          exact (compare_gt_iff_gt.mpr (Format.rank_lt_of_less hgt)).symm
      · next hle =>
          exact (Format.compare_rank_of_not_less hnan hfits₁ hfits₂ hge hle).symm

theorem doubleCompare_eq_compare_rank (bits₁ bits₂ : UInt64) :
    doubleCompare bits₁ bits₂ = compare (binary64.rank bits₁.toNat) (binary64.rank bits₂.toNat) :=
  bitsCompare_eq_compare_rank (by decide) bits₁.toNat_lt bits₂.toNat_lt

theorem floatCompare_eq_compare_rank (bits₁ bits₂ : UInt32) :
    floatCompare bits₁ bits₂ = compare (binary32.rank bits₁.toNat) (binary32.rank bits₂.toNat) :=
  bitsCompare_eq_compare_rank (by decide) bits₁.toNat_lt bits₂.toNat_lt

/-- The numbers a value is ordered by, the most significant first. -/
def Atom.numbers : Atom → List Int
  | .long value => [value.toInt]
  | .double bits => [binary64.rank bits.toNat]
  | .bigint value => [value.toInt]
  | .smallint value => [value.toInt]
  | .tinyint value => [value.toInt]
  | .float bits => [binary32.rank bits.toNat]
  | .varint value => [value]
  | .decimal value scale => [scale.toInt, value]
  | .blob data => [data.length]
  | .inet address => [address.length]
  | .uuid timeAndVersion clockSeqAndNode =>
    [timeAndVersion.toNat, clockSeqAndNode.toNat]
  | .timeuuid timeAndVersion clockSeqAndNode =>
    [timeAndVersion.toNat, clockSeqAndNode.toNat]
  | .timestamp value => [value.toInt]
  | .date value => [value.toNat]
  | .time value => [value.toInt]
  | .duration months days nanos => [months.toInt, days.toInt, nanos.toInt]
  | _ => []

/-- The bytes a value is ordered by where its numbers decide nothing. -/
def Atom.bytes : Atom → Bytes
  | .string value => value
  | .blob data => data
  | .inet address => address
  | _ => []

theorem Atom.contentsCompare_eq {a b : Atom} (h : a.kind = b.kind) :
    a.contentsCompare b = (compare a.numbers b.numbers).then (compare a.bytes b.bytes) := by
  cases a <;> cases b <;> cases h <;>
    simp [Atom.contentsCompare, Atom.numbers, Atom.bytes,
      List.compare_cons_cons, compare_int64, compare_int32, compare_int16, compare_int8,
      compare_uint64, compare_uint32, compare_natCast, doubleCompare_eq_compare_rank,
      floatCompare_eq_compare_rank, decimalCompare, stringCompare, uuidCompare,
      durationCompare]

theorem Atom.contentsCompare_order (kind : Kind) :
    TotalPreorderOn Atom.contentsCompare {a | a.kind = kind} := by
  have hkeys : TotalPreorderOn
      (fun a b : Atom => (compare a.numbers b.numbers).then (compare a.bytes b.bytes))
      {a | a.kind = kind} :=
    (TotalPreorderOn.of_key Atom.numbers _).andThen fun _ _ =>
      TotalPreorderOn.of_key Atom.bytes _
  exact hkeys.congr fun a ha b hb => Atom.contentsCompare_eq (ha.trans hb.symm)

theorem canonicalBits_eq_of_bitsCompare_eq {f : Format} {nan bits₁ bits₂ : Nat}
    (h : bitsCompare f nan bits₁ bits₂ = .eq) :
    canonicalBits f nan bits₁ = canonicalBits f nan bits₂ := by
  unfold bitsCompare at h
  split at h
  · cases h
  · split at h
    · cases h
    · exact Std.LawfulEqCmp.eq_of_compare h

theorem doubleHash_eq_of_doubleCompare_eq {bits₁ bits₂ : UInt64}
    (h : doubleCompare bits₁ bits₂ = .eq) : doubleHash bits₁ = doubleHash bits₂ := by
  have hbits : doubleToBits bits₁ = doubleToBits bits₂ := canonicalBits_eq_of_bitsCompare_eq h
  rw [doubleHash, doubleHash, hbits]

theorem floatToBits_eq_of_floatCompare_eq {bits₁ bits₂ : UInt32}
    (h : floatCompare bits₁ bits₂ = .eq) : floatToBits bits₁ = floatToBits bits₂ :=
  canonicalBits_eq_of_bitsCompare_eq h

/-- Two values of one kind that compare equal have the same hash. Equal
floating-point numbers may differ in their bits, but not in the canonical ones
the hash is taken of. -/
theorem Atom.hash_eq_of_contentsCompare_eq (hashFunc : Bytes → UInt32) {a b : Atom}
    (hkind : a.kind = b.kind) (hcompare : a.contentsCompare b = .eq) :
    a.hash hashFunc = b.hash hashFunc := by
  cases a <;> cases b <;> cases hkind <;>
    simp only [Atom.contentsCompare, decimalCompare, stringCompare, uuidCompare,
      durationCompare, Ordering.then_eq_eq, Std.LawfulEqCmp.compare_eq_iff_eq]
      at hcompare <;>
    simp only [Atom.hash, hcompare]
  case double => exact doubleHash_eq_of_doubleCompare_eq hcompare
  case float => rw [floatToBits_eq_of_floatCompare_eq hcompare]

end Values
end ScyllaDriver
