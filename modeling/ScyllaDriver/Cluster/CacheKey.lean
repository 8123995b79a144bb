import ScyllaDriver.Library.CString
import ScyllaDriver.Library.PrefixCode

/-!
# Cache keys of the persistent list

A key of `EG(persistent_list)` is the 64-bit FNV-1a fingerprint of a byte
stream. The stream is mixed in field by field: a string with a closing zero
byte, an integer as its eight bytes, lowest first (the extension is built for
little-endian machines). A null string mixes in the closing byte alone, as the
empty string does.

The stream determines the fields as long as no string contains a zero byte; of
a null string it shows no more than that it has no bytes.
-/

namespace ScyllaDriver
namespace Cluster

open CString PrefixCode

/-- `php_scylladb_cache_key_init`. -/
def cacheKeyInit : UInt64 := 0xcbf29ce484222325

/-- `php_scylladb_cache_key_mix_byte`. -/
def cacheKeyMixByte (h : UInt64) (b : UInt8) : UInt64 :=
  (h ^^^ b.toUInt64) * 0x100000001b3

/-- `php_scylladb_cache_key_mix_bytes`. -/
def cacheKeyMixBytes (h : UInt64) (buf : Bytes) : UInt64 :=
  buf.foldl cacheKeyMixByte h

def littleEndian (v : UInt64) : Bytes :=
  (List.range 8).map fun i => UInt8.ofNat (v.toNat / 256 ^ i)

/-- `php_scylladb_cache_key_mix_int`. -/
def cacheKeyMixInt (h : UInt64) (v : Int64) : UInt64 :=
  cacheKeyMixBytes h (littleEndian v.toUInt64)

/-- `php_scylladb_cache_key_mix_ulong`. -/
def cacheKeyMixUlong (h : UInt64) (v : UInt64) : UInt64 :=
  cacheKeyMixBytes h (littleEndian v)

/-- `php_scylladb_cache_key_mix_zstr`. -/
def cacheKeyMixZstr (h : UInt64) : Option Bytes → UInt64
  | none => cacheKeyMixByte h 0
  | some s => cacheKeyMixByte (cacheKeyMixBytes h s) 0

/-- `php_scylladb_cache_key_mix_cstr`, of a string without zero bytes. -/
def cacheKeyMixCstr (h : UInt64) (s : Bytes) : UInt64 :=
  cacheKeyMixByte (cacheKeyMixBytes h s) 0

/-- One field as it is mixed into a key. -/
inductive Mixed where
  | zstr (s : Option Bytes)
  | int (v : Int64)
  | ulong (v : UInt64)

/-- What the stream shows of a field. -/
inductive Content where
  | text (s : Bytes)
  | word (v : UInt64)
  deriving DecidableEq

namespace Mixed

def mix (h : UInt64) : Mixed → UInt64
  | .zstr s => cacheKeyMixZstr h s
  | .int v => cacheKeyMixInt h v
  | .ulong v => cacheKeyMixUlong h v

def content : Mixed → Content
  | .zstr s => .text (s.getD [])
  | .int v => .word v.toUInt64
  | .ulong v => .word v

end Mixed

namespace Content

def bytes : Content → Bytes
  | .text s => s ++ [0]
  | .word v => littleEndian v

/-- Two fields of one sort; strings without zero bytes. -/
def Alike : Content → Content → Prop
  | .text s₁, .text s₂ => (0 : UInt8) ∉ s₁ ∧ (0 : UInt8) ∉ s₂
  | .word _, .word _ => True
  | _, _ => False

end Content

def streamOf (fields : List Mixed) : Bytes :=
  (fields.map Mixed.content).flatMap Content.bytes

theorem cacheKeyMixBytes_append (h : UInt64) (a b : Bytes) :
    cacheKeyMixBytes h (a ++ b) = cacheKeyMixBytes (cacheKeyMixBytes h a) b :=
  List.foldl_append

theorem Mixed.mix_eq (h : UInt64) (field : Mixed) :
    field.mix h = cacheKeyMixBytes h field.content.bytes := by
  cases field with
  | zstr s =>
    cases s with
    | none => rfl
    | some s => exact (cacheKeyMixBytes_append h s [0]).symm
  | int v => rfl
  | ulong v => rfl

/-- Mixing in the fields one by one is mixing in their stream. -/
theorem foldl_mix (h : UInt64) (fields : List Mixed) :
    fields.foldl Mixed.mix h = cacheKeyMixBytes h (streamOf fields) := by
  induction fields generalizing h with
  | nil => rfl
  | cons field fields ih =>
    rw [List.foldl_cons, ih, Mixed.mix_eq, ← cacheKeyMixBytes_append]
    rfl

theorem littleEndian_length (v : UInt64) : (littleEndian v).length = 8 := by
  simp [littleEndian]

theorem mod_pow_eq_of_bytes_eq (n : Nat) {a b : Nat}
    (h : ∀ i < n, a / 256 ^ i % 256 = b / 256 ^ i % 256) : a % 256 ^ n = b % 256 ^ n := by
  induction n with
  | zero => simp [Nat.mod_one]
  | succ n ih =>
    have hlow := ih fun i hi => h i (Nat.lt_succ_of_lt hi)
    have htop := h n (Nat.lt_succ_self n)
    rw [pow_succ, Nat.mod_mul, Nat.mod_mul, hlow, htop]

theorem littleEndian_injective : Function.Injective littleEndian := by
  intro v w h
  have hbytes : ∀ i < 8, v.toNat / 256 ^ i % 256 = w.toNat / 256 ^ i % 256 := by
    intro i hi
    have hget : (littleEndian v)[i]? = (littleEndian w)[i]? := by rw [h]
    simp only [littleEndian, List.getElem?_map, List.getElem?_range hi, Option.map_some,
      Option.some.injEq] at hget
    simpa using congrArg UInt8.toNat hget
  have hmod := mod_pow_eq_of_bytes_eq 8 hbytes
  have hpow : 256 ^ 8 = 2 ^ 64 := by norm_num
  rw [hpow, Nat.mod_eq_of_lt v.toNat_lt, Nat.mod_eq_of_lt w.toNat_lt] at hmod
  exact UInt64.toNat_inj.mp hmod

theorem separable_content : Separable Content.bytes Content.Alike := by
  intro a b halike r s h
  cases a with
  | text s₁ =>
    cases b with
    | text s₂ =>
      have htext : s₁ ++ 0 :: r = s₂ ++ 0 :: s := by
        simpa [Content.bytes] using h
      obtain ⟨hword, hrest⟩ := append_mark_inj halike.1 halike.2 htext
      exact ⟨by rw [hword], hrest⟩
    | word v => cases halike
  | word v =>
    cases b with
    | text s₂ => cases halike
    | word w =>
      obtain ⟨hword, hrest⟩ := List.append_inj h
        ((littleEndian_length v).trans (littleEndian_length w).symm)
      exact ⟨by rw [littleEndian_injective hword], hrest⟩

end Cluster
end ScyllaDriver
