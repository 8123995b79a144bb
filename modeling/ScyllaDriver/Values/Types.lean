import ScyllaDriver.Library.CString
import ScyllaDriver.Library.Comparator

/-!
# CQL types and their comparison

A `Cassandra\Type` object is a type code of the C driver with, for the nested
types, the types it is made of. `php_scylladb_type_compare` orders two of
them: by code, where `text` and `varchar` count as one, then part by part. A
user type whose keyspace or name has not been set yet agrees in it with every
other.

A C comparison function is modelled by the sign of its result, an `Ordering`.
-/

namespace ScyllaDriver
namespace Values

open CString

/-- The `CASS_VALUE_TYPE_*` codes that have no component types. -/
inductive ScalarType where
  | ascii
  | bigint
  | blob
  | boolean
  | counter
  | decimal
  | double
  | float
  | int
  | text
  | timestamp
  | uuid
  | varchar
  | varint
  | timeuuid
  | inet
  | date
  | time
  | smallint
  | tinyint
  | duration
  deriving DecidableEq, Repr

def ScalarType.code : ScalarType → Nat
  | .ascii => 0x0001
  | .bigint => 0x0002
  | .blob => 0x0003
  | .boolean => 0x0004
  | .counter => 0x0005
  | .decimal => 0x0006
  | .double => 0x0007
  | .float => 0x0008
  | .int => 0x0009
  | .text => 0x000A
  | .timestamp => 0x000B
  | .uuid => 0x000C
  | .varchar => 0x000D
  | .varint => 0x000E
  | .timeuuid => 0x000F
  | .inet => 0x0010
  | .date => 0x0011
  | .time => 0x0012
  | .smallint => 0x0013
  | .tinyint => 0x0014
  | .duration => 0x0015

/-- `php_scylladb_type`. A tuple lists its component types by position, a
user type its fields in order of declaration; keyspace and name of a user
type are null until `withKeyspace` and `withName` set them. -/
inductive CqlType where
  | scalar (type : ScalarType)
  | custom (className : Bytes)
  | list (valueType : CqlType)
  | map (keyType valueType : CqlType)
  | set (valueType : CqlType)
  | udt (keyspace typeName : Option Bytes) (types : List (Bytes × CqlType))
  | tuple (types : List CqlType)

namespace CqlType

def code : CqlType → Nat
  | .custom _ => 0x0000
  | .scalar type => type.code
  | .list _ => 0x0020
  | .map _ _ => 0x0021
  | .set _ => 0x0022
  | .udt _ _ _ => 0x0030
  | .tuple _ => 0x0031

/-- `is_string_type`. -/
def isStringType : CqlType → Bool
  | .scalar .varchar => true
  | .scalar .text => true
  | _ => false

end CqlType

/-- `php5to7_string_compare`: a shorter string comes first. -/
def stringCompare (s₁ s₂ : Bytes) : Ordering :=
  (compare s₁.length s₂.length).then (compare s₁ s₂)

/-- `udt_name_compare`: a name that is not set agrees with every name. -/
def udtNameCompare : Option Bytes → Option Bytes → Ordering
  | some name₁, some name₂ => stringCompare name₁ name₂
  | _, _ => .eq

/-- The order of two types of which at most one is nested, or which are nested
in different ways: by code, where varchar and text are aliases. Two custom
types have one code, whatever their classes. -/
def codeCompare (type₁ type₂ : CqlType) : Ordering :=
  if type₁.isStringType && type₂.isStringType then .eq
  else compare type₁.code type₂.code

mutual
/-- `php_scylladb_type_compare`. -/
def typeCompare : CqlType → CqlType → Ordering
  | .list value₁, .list value₂ => typeCompare value₁ value₂
  | .map key₁ value₁, .map key₂ value₂ =>
    (typeCompare key₁ key₂).then (typeCompare value₁ value₂)
  | .set value₁, .set value₂ => typeCompare value₁ value₂
  | .tuple types₁, .tuple types₂ =>
    (compare types₁.length types₂.length).then (typesCompare types₁ types₂)
  | .udt keyspace₁ name₁ types₁, .udt keyspace₂ name₂ types₂ =>
    (udtNameCompare keyspace₁ keyspace₂).then <|
      (udtNameCompare name₁ name₂).then <|
        (compare types₁.length types₂.length).then (fieldsCompare types₁ types₂)
  | type₁, type₂ => codeCompare type₁ type₂

/-- The loop of `tuple_compare`. -/
def typesCompare : List CqlType → List CqlType → Ordering
  | type₁ :: types₁, type₂ :: types₂ =>
    (typeCompare type₁ type₂).then (typesCompare types₁ types₂)
  | _, _ => .eq

/-- The loop of `user_type_compare`. -/
def fieldsCompare : List (Bytes × CqlType) → List (Bytes × CqlType) → Ordering
  | (key₁, type₁) :: types₁, (key₂, type₂) :: types₂ =>
    (stringCompare key₁ key₂).then <| (typeCompare type₁ type₂).then (fieldsCompare types₁ types₂)
  | _, _ => .eq

end

@[simp] theorem stringCompare_self (s : Bytes) : stringCompare s s = .eq := by
  simp [stringCompare]

theorem stringCompare_swap (s₁ s₂ : Bytes) : stringCompare s₂ s₁ = (stringCompare s₁ s₂).swap := by
  rw [stringCompare, stringCompare, Ordering.swap_then,
    ← Std.OrientedCmp.eq_swap, ← Std.OrientedCmp.eq_swap]

@[simp] theorem udtNameCompare_self (name : Option Bytes) : udtNameCompare name name = .eq := by
  cases name <;> simp [udtNameCompare]

theorem udtNameCompare_swap (name₁ name₂ : Option Bytes) :
    udtNameCompare name₂ name₁ = (udtNameCompare name₁ name₂).swap := by
  cases name₁ <;> cases name₂ <;> simp [udtNameCompare, ← stringCompare_swap]

@[simp] theorem codeCompare_self (type : CqlType) : codeCompare type type = .eq := by
  simp [codeCompare]

theorem codeCompare_swap (type₁ type₂ : CqlType) :
    codeCompare type₂ type₁ = (codeCompare type₁ type₂).swap := by
  unfold codeCompare
  rw [Bool.and_comm]
  split
  · rfl
  · exact Std.OrientedCmp.eq_swap

mutual
@[simp] theorem typeCompare_self : ∀ type : CqlType, typeCompare type type = .eq
  | .scalar type => by simp [typeCompare]
  | .custom _ => by simp [typeCompare]
  | .list value => by simp [typeCompare, typeCompare_self value]
  | .map key value => by
    simp [typeCompare, typeCompare_self key, typeCompare_self value]
  | .set value => by simp [typeCompare, typeCompare_self value]
  | .udt _ _ types => by simp [typeCompare, fieldsCompare_self types]
  | .tuple types => by simp [typeCompare, typesCompare_self types]

theorem typesCompare_self : ∀ types : List CqlType, typesCompare types types = .eq
  | [] => by simp [typesCompare]
  | type :: types => by
    simp [typesCompare, typeCompare_self type, typesCompare_self types]

theorem fieldsCompare_self : ∀ types : List (Bytes × CqlType), fieldsCompare types types = .eq
  | [] => by simp [fieldsCompare]
  | (_, type) :: types => by
    simp [fieldsCompare, typeCompare_self type, fieldsCompare_self types]

end

mutual
theorem typeCompare_swap : ∀ type₁ type₂ : CqlType,
    typeCompare type₂ type₁ = (typeCompare type₁ type₂).swap
  | .list value₁, type₂ => by
    cases type₂ with
    | list value₂ => simpa [typeCompare] using typeCompare_swap value₁ value₂
    | _ => simpa [typeCompare] using codeCompare_swap _ _
  | .map key₁ value₁, type₂ => by
    cases type₂ with
    | map key₂ value₂ =>
      simp [typeCompare, Ordering.swap_then, ← typeCompare_swap key₁ key₂,
        ← typeCompare_swap value₁ value₂]
    | _ => simpa [typeCompare] using codeCompare_swap _ _
  | .set value₁, type₂ => by
    cases type₂ with
    | set value₂ => simpa [typeCompare] using typeCompare_swap value₁ value₂
    | _ => simpa [typeCompare] using codeCompare_swap _ _
  | .udt keyspace₁ name₁ types₁, type₂ => by
    cases type₂ with
    | udt keyspace₂ name₂ types₂ =>
      simp [typeCompare, Ordering.swap_then, ← udtNameCompare_swap,
        ← fieldsCompare_swap types₁ types₂, ← Nat.compare_swap types₂.length]
    | _ => simpa [typeCompare] using codeCompare_swap _ _
  | .tuple types₁, type₂ => by
    cases type₂ with
    | tuple types₂ =>
      simp [typeCompare, Ordering.swap_then, ← typesCompare_swap types₁ types₂,
        ← Nat.compare_swap types₂.length]
    | _ => simpa [typeCompare] using codeCompare_swap _ _
  | .scalar _, type₂ => by
    cases type₂ <;> simpa [typeCompare] using codeCompare_swap _ _
  | .custom _, type₂ => by
    cases type₂ <;> simpa [typeCompare] using codeCompare_swap _ _

theorem typesCompare_swap : ∀ types₁ types₂ : List CqlType,
    typesCompare types₂ types₁ = (typesCompare types₁ types₂).swap
  | [], types₂ => by cases types₂ <;> simp [typesCompare]
  | type₁ :: types₁, [] => by simp [typesCompare]
  | type₁ :: types₁, type₂ :: types₂ => by
    simp [typesCompare, Ordering.swap_then, ← typeCompare_swap type₁ type₂,
      ← typesCompare_swap types₁ types₂]

theorem fieldsCompare_swap : ∀ types₁ types₂ : List (Bytes × CqlType),
    fieldsCompare types₂ types₁ = (fieldsCompare types₁ types₂).swap
  | [], types₂ => by cases types₂ <;> simp [fieldsCompare]
  | (key₁, type₁) :: types₁, [] => by simp [fieldsCompare]
  | (key₁, type₁) :: types₁, (key₂, type₂) :: types₂ => by
    simp [fieldsCompare, Ordering.swap_then, ← stringCompare_swap key₁ key₂,
      ← typeCompare_swap type₁ type₂, ← fieldsCompare_swap types₁ types₂]

end

end Values
end ScyllaDriver
