import ScyllaDriver.Values.HashLaw

/-!
# Values of a CQL type

`php_scylladb_validate_object` decides which values a container of a given
element type takes. `HasType` describes the values built that way, for one
type and at every depth: a container carries a type of its own, which has to
compare equal to the one declared for its place, and takes its members by its
own type. Null is a value of every type, but Sets and Maps take no null, and a
Collection only from `Type\Collection::create` or a result; a Tuple or user type
value holds the fields that have been set, in the order in which they were set.

The second half is about types with at most one value besides null. A Set or
Map with such keys has at most one entry.
-/

namespace ScyllaDriver
namespace Values

open CString

/-- The scalar cases of `php_scylladb_validate_object`. -/
def ScalarType.accepts : ScalarType → Atom → Bool
  | .varchar, .string _ => true
  | .text, .string _ => true
  | .ascii, .string _ => true
  | .double, .double _ => true
  | .int, .long _ => true
  | .boolean, .true => true
  | .boolean, .false => true
  | .float, .float _ => true
  | .counter, .bigint _ => true
  | .bigint, .bigint _ => true
  | .smallint, .smallint _ => true
  | .tinyint, .tinyint _ => true
  | .blob, .blob _ => true
  | .decimal, .decimal _ _ => true
  | .duration, .duration _ _ _ => true
  | .timestamp, .timestamp _ => true
  | .date, .date _ => true
  | .time, .time _ => true
  | .uuid, .uuid _ _ => true
  | .varint, .varint _ => true
  | .timeuuid, .timeuuid _ _ => true
  | .inet, .inet _ => true
  | _, _ => false

/-- A key is added to a table only when no stored key in its bucket compares
equal to it. -/
def Apart (hashFunc : Bytes → UInt32) (numBuckets : UInt32) (stored key : Value) : Prop :=
  valueHash hashFunc stored &&& (numBuckets - 1) = valueHash hashFunc key &&& (numBuckets - 1) →
    valueCompare hashFunc stored key ≠ .eq

/-- The values of a declared type. -/
inductive HasType (hashFunc : Bytes → UInt32) : CqlType → Value → Prop
  | null (type : CqlType) :
      HasType hashFunc type (.atom .null)
  | scalar {type : ScalarType} {a : Atom} (accepted : type.accepts a = true) :
      HasType hashFunc (.scalar type) (.atom a)
  | collection {type valueType : CqlType} {values : List Value} {hashv : Option UInt32}
      (carries : typeCompare (.list valueType) type = .eq)
      (typed : ∀ v ∈ values, HasType hashFunc valueType v) :
      HasType hashFunc type (.collection (.list valueType) values hashv)
  | set {type valueType : CqlType} {numBuckets : UInt32} {hashes : List UInt32}
      {values : List Value} {hashv : Option UInt32}
      (carries : typeCompare (.set valueType) type = .eq)
      (typed : ∀ v ∈ values, HasType hashFunc valueType v)
      (nonnull : ∀ v ∈ values, v ≠ .atom .null)
      (apart : values.Pairwise (Apart hashFunc numBuckets)) :
      HasType hashFunc type (.set (.set valueType) numBuckets hashes values hashv)
  | map {type keyType valueType : CqlType} {numBuckets : UInt32} {hashes : List UInt32}
      {keys values : List Value} {hashv : Option UInt32}
      (carries : typeCompare (.map keyType valueType) type = .eq)
      (typedKeys : ∀ v ∈ keys, HasType hashFunc keyType v)
      (nonnullKeys : ∀ v ∈ keys, v ≠ .atom .null)
      (typed : ∀ v ∈ values, HasType hashFunc valueType v)
      (nonnull : ∀ v ∈ values, v ≠ .atom .null)
      (apart : keys.Pairwise (Apart hashFunc numBuckets)) :
      HasType hashFunc type (.map (.map keyType valueType) numBuckets hashes keys values hashv)
  | tuple {type : CqlType} {types : List CqlType} {keys : List Nat} {values : List Value}
      {hashv : Option UInt32}
      (carries : typeCompare (.tuple types) type = .eq)
      (parallel : keys.length = values.length)
      (distinct : keys.Nodup)
      (declared : ∀ key ∈ keys, key < types.length)
      (typed : ∀ key v, (key, v) ∈ keys.zip values →
        ∀ type, types[key]? = some type → HasType hashFunc type v) :
      HasType hashFunc type (.tuple (.tuple types) keys values hashv)
  | userTypeValue {type : CqlType} {keyspace typeName : Option Bytes}
      {types : List (Bytes × CqlType)} {keys : List Bytes} {values : List Value}
      {hashv : Option UInt32}
      (carries : typeCompare (.udt keyspace typeName types) type = .eq)
      (parallel : keys.length = values.length)
      (distinct : keys.Nodup)
      (declared : ∀ key ∈ keys, (types.lookup key).isSome)
      (typed : ∀ key v, (key, v) ∈ keys.zip values →
        ∀ type, types.lookup key = some type → HasType hashFunc type v) :
      HasType hashFunc type
        (.userTypeValue (.udt keyspace typeName types) keys values hashv)

namespace CqlType

def containerClass : CqlType → Option ValueClass
  | .list _ => some .collection
  | .set _ => some .set
  | .map _ _ => some .map
  | .tuple _ => some .tuple
  | .udt _ _ _ => some .userTypeValue
  | .scalar _ => none
  | .custom _ => none

def isCustom : CqlType → Bool
  | .custom _ => true
  | _ => false

theorem containerClass_eq_code (type : CqlType) :
    type.containerClass =
      if type.code = 0x0020 then some .collection
      else if type.code = 0x0021 then some .map
      else if type.code = 0x0022 then some .set
      else if type.code = 0x0030 then some .userTypeValue
      else if type.code = 0x0031 then some .tuple
      else none := by
  cases type with
  | scalar scalarType => cases scalarType <;> rfl
  | _ => rfl

theorem isCustom_eq_code (type : CqlType) : type.isCustom = decide (type.code = 0x0000) := by
  cases type with
  | scalar scalarType => cases scalarType <;> rfl
  | _ => rfl

/-- Besides null, the only values of the type are empty containers. -/
def isLone : CqlType → Bool
  | .custom _ => true
  | .scalar _ => false
  | .list _ => false
  | .set valueType => valueType.isCustom
  | .map keyType valueType => keyType.isCustom || valueType.isCustom
  | .tuple types => types.isEmpty
  | .udt _ _ types => types.isEmpty

/-- Besides null, the type has at most one value: an empty container, and the types it may
carry agree with each other. They do not where a user type has no keyspace or name. -/
structure Solitary (type : CqlType) : Prop where
  lone : type.isLone = true
  agree : ∀ own₁ own₂, typeCompare own₁ type = .eq → typeCompare own₂ type = .eq →
    typeCompare own₁ own₂ = .eq

/-- An empty container; null for a type without containers. -/
def emptyValue (type : CqlType) : Value :=
  match type with
  | .list _ => .collection type [] none
  | .set _ => .set type 32 [] [] none
  | .map _ _ => .map type 32 [] [] [] none
  | .tuple _ => .tuple type [] [] none
  | .udt _ _ _ => .userTypeValue type [] [] none
  | .scalar _ => .atom .null
  | .custom _ => .atom .null

end CqlType

namespace Value

def type? : Value → Option CqlType
  | .atom _ => none
  | .collection type _ _ => some type
  | .set type _ _ _ _ => some type
  | .map type _ _ _ _ _ => some type
  | .tuple type _ _ _ => some type
  | .userTypeValue type _ _ _ => some type

def count : Value → Nat
  | .atom _ => 0
  | .collection _ values _ => values.length
  | .set _ _ _ values _ => values.length
  | .map _ _ _ keys _ _ => keys.length
  | .tuple _ _ values _ => values.length
  | .userTypeValue _ _ values _ => values.length

end Value

section

variable {hashFunc : Bytes → UInt32}

variable {type₁ type₂ type own : CqlType} {value : Value}

theorem codeCompare_eq_eq (h : codeCompare type₁ type₂ = .eq) :
    type₁.code = type₂.code ∨ (type₁.isStringType ∧ type₂.isStringType) := by
  unfold codeCompare at h
  split at h
  · next hstring => exact .inr (Bool.and_eq_true_iff.mp hstring)
  · exact .inl (Std.LawfulEqOrd.compare_eq_iff_eq.mp h)

theorem code_eq_of_typeCompare_eq (h : typeCompare type₁ type₂ = .eq) :
    type₁.code = type₂.code ∨ (type₁.isStringType ∧ type₂.isStringType) := by
  cases type₁ <;> cases type₂ <;>
    first
    | exact .inl rfl
    | exact codeCompare_eq_eq (by simpa [typeCompare] using h)

theorem CqlType.eq_scalar_of_isStringType (h : type.isStringType) :
    ∃ scalarType, type = .scalar scalarType := by
  cases type with
  | scalar scalarType => exact ⟨scalarType, rfl⟩
  | _ => cases h

/-- What depends on the code only, and not on which scalar it is, equal types share. -/
theorem congr_of_typeCompare_eq {β : Type} {f : CqlType → β}
    (hcode : ∀ type₁ type₂, type₁.code = type₂.code → f type₁ = f type₂)
    (hscalar : ∀ scalar₁ scalar₂, f (.scalar scalar₁) = f (.scalar scalar₂))
    (h : typeCompare type₁ type₂ = .eq) : f type₁ = f type₂ := by
  rcases code_eq_of_typeCompare_eq h with hsame | ⟨hstring₁, hstring₂⟩
  · exact hcode type₁ type₂ hsame
  · obtain ⟨scalar₁, rfl⟩ := CqlType.eq_scalar_of_isStringType hstring₁
    obtain ⟨scalar₂, rfl⟩ := CqlType.eq_scalar_of_isStringType hstring₂
    exact hscalar scalar₁ scalar₂

theorem containerClass_eq_of_typeCompare_eq (h : typeCompare type₁ type₂ = .eq) :
    type₁.containerClass = type₂.containerClass :=
  congr_of_typeCompare_eq (fun _ _ hcode => by simp only [CqlType.containerClass_eq_code, hcode])
    (fun _ _ => rfl) h

theorem isCustom_eq_of_typeCompare_eq (h : typeCompare type₁ type₂ = .eq) :
    type₁.isCustom = type₂.isCustom :=
  congr_of_typeCompare_eq (fun _ _ hcode => by simp only [CqlType.isCustom_eq_code, hcode])
    (fun _ _ => rfl) h

theorem isLone_eq_of_typeCompare_eq (h : typeCompare type₁ type₂ = .eq) :
    type₁.isLone = type₂.isLone := by
  have hclass := containerClass_eq_of_typeCompare_eq h
  have hcustom := isCustom_eq_of_typeCompare_eq h
  cases type₁ <;> cases type₂ <;>
    first | rfl | (cases hcustom; done) | (cases hclass; done) | skip
  case map.map =>
    rw [typeCompare, Ordering.then_eq_eq] at h
    simp only [CqlType.isLone, isCustom_eq_of_typeCompare_eq h.1,
      isCustom_eq_of_typeCompare_eq h.2]
  case set.set =>
    rw [typeCompare] at h
    exact isCustom_eq_of_typeCompare_eq h
  case udt.udt types₁ _ _ types₂ =>
    simp only [typeCompare, Ordering.then_eq_eq, Std.LawfulEqOrd.compare_eq_iff_eq] at h
    cases types₁ <;> cases types₂ <;> first | rfl | (simp at h)
  case tuple.tuple types₁ types₂ =>
    simp only [typeCompare, Ordering.then_eq_eq, Std.LawfulEqOrd.compare_eq_iff_eq] at h
    cases types₁ <;> cases types₂ <;> first | rfl | (simp at h)

theorem typeCompare_eq_comm : typeCompare type₁ type₂ = .eq ↔ typeCompare type₂ type₁ = .eq := by
  rw [typeCompare_swap type₂ type₁, Ordering.swap_eq_eq]

/-- The types that agree with one solitary type agree with those that agree with another. -/
theorem CqlType.Solitary.agree_of_agree
    (h₁ : type₁.Solitary)
    (h₂ : type₂.Solitary)
    (htypes : typeCompare type₁ type₂ = .eq)
    {own₁ own₂ : CqlType}
    (hown₁ : typeCompare own₁ type₁ = .eq)
    (hown₂ : typeCompare own₂ type₂ = .eq) :
    typeCompare own₁ own₂ = .eq :=
  h₂.agree own₁ own₂ (h₁.agree own₁ type₂ hown₁ (typeCompare_eq_comm.mp htypes)) hown₂

/-- A container is a value of every type that compares equal to its own. -/
theorem HasType.of_carried
    (h : HasType hashFunc own value)
    (hvalue : value.type? = some own)
    (hown : typeCompare own type = .eq) :
    HasType hashFunc type value := by
  cases h with
  | null => cases hvalue
  | scalar => cases hvalue
  | collection carries typed =>
    cases hvalue
    exact .collection hown typed
  | set carries typed nonnull apart =>
    cases hvalue
    exact .set hown typed nonnull apart
  | map carries typedKeys nonnullKeys typed nonnull apart =>
    cases hvalue
    exact .map hown typedKeys nonnullKeys typed nonnull apart
  | tuple carries parallel distinct declared typed =>
    cases hvalue
    exact .tuple hown parallel distinct declared typed
  | userTypeValue carries parallel distinct declared typed =>
    cases hvalue
    exact .userTypeValue hown parallel distinct declared typed

theorem HasType.emptyValue (type : CqlType) : HasType hashFunc type type.emptyValue := by
  cases type with
  | scalar type => exact .null _
  | custom className => exact .null _
  | list valueType => exact .collection (typeCompare_self _) (by simp)
  | map keyType valueType =>
    exact .map (typeCompare_self _) (by simp) (by simp) (by simp) (by simp) List.Pairwise.nil
  | set valueType => exact .set (typeCompare_self _) (by simp) (by simp) List.Pairwise.nil
  | udt keyspace typeName types =>
    exact .userTypeValue (typeCompare_self _) rfl List.nodup_nil (by simp) (by simp)
  | tuple types => exact .tuple (typeCompare_self _) rfl List.nodup_nil (by simp) (by simp)

theorem fresh_emptyValue (type : CqlType) : Fresh hashFunc type.emptyValue := by
  cases type <;> simp [CqlType.emptyValue, Fresh, AllFresh, valueHashes]

theorem emptyValue_container {ce : ValueClass} (hclass : type.containerClass = some ce) :
    type.emptyValue.kind = .object ce ∧ type.emptyValue.type? = some type ∧
      type.emptyValue.count = 0 := by
  cases type <;> cases hclass <;> exact ⟨rfl, rfl, rfl⟩

theorem ne_null_of_kind {ce : ValueClass} (h : value.kind = .object ce) :
    value ≠ .atom .null := by
  rintro rfl
  cases h

/-- Empty containers are compared by the types they carry. -/
theorem valueCompare_of_count_zero
    {value₁ value₂ : Value}
    (hkind : value₁.kind = value₂.kind)
    (htype₁ : value₁.type? = some type₁)
    (htype₂ : value₂.type? = some type₂)
    (hcount₁ : value₁.count = 0)
    (hcount₂ : value₂.count = 0) :
    valueCompare hashFunc value₁ value₂ = typeCompare type₁ type₂ := by
  cases value₁ <;> cases htype₁ <;> cases value₂ <;> cases htype₂ <;> cases hkind <;>
    simp_all [Value.count, valuesCompare, membersCompare, entriesCompare]

/-- A value of a nested type that is not null is a container of the type's class. -/
theorem HasType.container
    {ce : ValueClass}
    (h : HasType hashFunc type value)
    (hnonnull : value ≠ .atom .null)
    (hclass : type.containerClass = some ce) :
    value.kind = .object ce ∧ ∃ own, value.type? = some own ∧ typeCompare own type = .eq := by
  cases h with
  | null => exact absurd rfl hnonnull
  | scalar => cases hclass
  | collection carries | set carries | map carries | tuple carries | userTypeValue carries =>
    cases (containerClass_eq_of_typeCompare_eq carries).trans hclass
    exact ⟨rfl, _, rfl, carries⟩

theorem HasType.eq_null_of_custom (h : HasType hashFunc type value)
    (hcustom : type.isCustom = true) : value = .atom .null := by
  cases h with
  | null => rfl
  | scalar => cases hcustom
  | collection carries | set carries | map carries | tuple carries | userTypeValue carries =>
    cases (isCustom_eq_of_typeCompare_eq carries).trans hcustom

theorem eq_nil_of_custom
    {values : List Value}
    (hcustom : type.isCustom = true)
    (typed : ∀ v ∈ values, HasType hashFunc type v)
    (nonnull : ∀ v ∈ values, v ≠ .atom .null) :
    values = [] := by
  refine List.eq_nil_iff_forall_not_mem.mpr fun v hv => ?_
  exact nonnull v hv ((typed v hv).eq_null_of_custom hcustom)

/-- Besides null, the values of a lone type are empty containers. -/
theorem HasType.empty_of_lone
    (h : HasType hashFunc type value)
    (hfresh : Fresh hashFunc value)
    (hlone : type.isLone = true)
    (hnonnull : value ≠ .atom .null) :
    type.containerClass.isSome ∧ value.count = 0 := by
  cases h with
  | null => exact absurd rfl hnonnull
  | scalar => cases hlone
  | collection carries =>
    rw [← isLone_eq_of_typeCompare_eq carries] at hlone
    cases hlone
  | set carries typed nonnull apart =>
    rw [← isLone_eq_of_typeCompare_eq carries] at hlone
    rw [← containerClass_eq_of_typeCompare_eq carries]
    exact ⟨rfl, by simp [Value.count, eq_nil_of_custom hlone typed nonnull]⟩
  | map carries typedKeys nonnullKeys typed nonnull apart =>
    rw [← isLone_eq_of_typeCompare_eq carries] at hlone
    rw [← containerClass_eq_of_typeCompare_eq carries]
    refine ⟨rfl, ?_⟩
    rcases Bool.or_eq_true _ _ ▸ hlone with hkey | hvalue
    · simp [Value.count, eq_nil_of_custom hkey typedKeys nonnullKeys]
    · simp [Value.count, hfresh.1.2, eq_nil_of_custom hvalue typed nonnull]
  | @tuple _ types keys values hashv carries parallel distinct declared typed =>
    rw [← isLone_eq_of_typeCompare_eq carries] at hlone
    rw [← containerClass_eq_of_typeCompare_eq carries]
    have hkeys : keys = [] := by
      refine List.eq_nil_iff_forall_not_mem.mpr fun key hkey => ?_
      have hlt := declared key hkey
      rw [List.isEmpty_iff.mp hlone] at hlt
      exact absurd hlt (Nat.not_lt_zero key)
    exact ⟨rfl, by simp [Value.count, ← parallel, hkeys]⟩
  | @userTypeValue _ keyspace typeName types keys values hashv carries parallel _ declared typed =>
    rw [← isLone_eq_of_typeCompare_eq carries] at hlone
    rw [← containerClass_eq_of_typeCompare_eq carries]
    have hkeys : keys = [] := by
      refine List.eq_nil_iff_forall_not_mem.mpr fun key hkey => ?_
      have hsome := declared key hkey
      rw [List.isEmpty_iff.mp hlone] at hsome
      cases hsome
    exact ⟨rfl, by simp [Value.count, ← parallel, hkeys]⟩

theorem valueHash_of_count_zero (hfresh : Fresh hashFunc value) (htype : value.type?.isSome)
    (hcount : value.count = 0) : valueHash hashFunc value = 0 := by
  cases value with
  | atom a => cases htype
  | set type numBuckets hashes values hashv | map type numBuckets hashes keys values hashv =>
    rw [valueHash, getD_of_fresh hfresh.2.1, List.eq_nil_of_length_eq_zero hcount]
    rfl
  | collection type values hashv | tuple type keys values hashv
  | userTypeValue type keys values hashv =>
    rw [valueHash, getD_of_fresh hfresh.1, List.eq_nil_of_length_eq_zero hcount]
    rfl

/-- Two keys of solitary types that agree: the one is found under the hash of the
other. -/
theorem solitary_keys_agree
    {key₁ key₂ : Value}
    (htypes : typeCompare type₁ type₂ = .eq)
    (htyped₁ : HasType hashFunc type₁ key₁)
    (htyped₂ : HasType hashFunc type₂ key₂)
    (hfresh₁ : Fresh hashFunc key₁)
    (hfresh₂ : Fresh hashFunc key₂)
    (hsolitary₁ : type₁.Solitary)
    (hsolitary₂ : type₂.Solitary)
    (hnonnull₁ : key₁ ≠ .atom .null)
    (hnonnull₂ : key₂ ≠ .atom .null) :
    valueHash hashFunc key₁ = valueHash hashFunc key₂ ∧ valueCompare hashFunc key₁ key₂ = .eq := by
  obtain ⟨hclass₁, hcount₁⟩ := htyped₁.empty_of_lone hfresh₁ hsolitary₁.lone hnonnull₁
  obtain ⟨hclass₂, hcount₂⟩ := htyped₂.empty_of_lone hfresh₂ hsolitary₂.lone hnonnull₂
  obtain ⟨ce, hce₁⟩ := Option.isSome_iff_exists.mp hclass₁
  have hce₂ : type₂.containerClass = some ce := by
    rw [← containerClass_eq_of_typeCompare_eq htypes, hce₁]
  obtain ⟨hkind₁, own₁, htype₁, hown₁⟩ := htyped₁.container hnonnull₁ hce₁
  obtain ⟨hkind₂, own₂, htype₂, hown₂⟩ := htyped₂.container hnonnull₂ hce₂
  constructor
  · rw [valueHash_of_count_zero hfresh₁ (by simp [htype₁]) hcount₁,
      valueHash_of_count_zero hfresh₂ (by simp [htype₂]) hcount₂]
  · rw [valueCompare_of_count_zero (hkind₁.trans hkind₂.symm) htype₁ htype₂ hcount₁ hcount₂]
    exact hsolitary₁.agree_of_agree hsolitary₂ htypes hown₁ hown₂

/-- A Collection, Set, Map, Tuple or user type value of one member. -/
def singleCollection (valueType : CqlType) (value : Value) : Value :=
  .collection (.list valueType) [value] none

def singleSet (hashFunc : Bytes → UInt32) (valueType : CqlType) (value : Value) : Value :=
  .set (.set valueType) 32 [valueHash hashFunc value] [value] none

def singleMap (hashFunc : Bytes → UInt32) (keyType valueType : CqlType)
    (key value : Value) : Value :=
  .map (.map keyType valueType) 32 [valueHash hashFunc key] [key] [value] none

def singleTuple (types : List CqlType) (key : Nat) (value : Value) : Value :=
  .tuple (.tuple types) [key] [value] none

def singleUserTypeValue (keyspace typeName : Option Bytes)
    (types : List (Bytes × CqlType)) (key : Bytes) (value : Value) : Value :=
  .userTypeValue (.udt keyspace typeName types) [key] [value] none

section

variable {valueType keyType : CqlType} {value key : Value}

theorem HasType.singleCollection (h : HasType hashFunc valueType value) :
    HasType hashFunc (.list valueType) (singleCollection valueType value) :=
  .collection (typeCompare_self _) (by simpa using h)

theorem HasType.singleSet (h : HasType hashFunc valueType value) (hnonnull : value ≠ .atom .null) :
    HasType hashFunc (.set valueType) (singleSet hashFunc valueType value) :=
  .set (typeCompare_self _) (by simpa using h) (by simpa using hnonnull)
    (List.pairwise_singleton _ _)

theorem HasType.singleMap (hkey : HasType hashFunc keyType key) (hkeyNonnull : key ≠ .atom .null)
    (h : HasType hashFunc valueType value) (hnonnull : value ≠ .atom .null) :
    HasType hashFunc (.map keyType valueType) (singleMap hashFunc keyType valueType key value) :=
  .map (typeCompare_self _) (by simpa using hkey) (by simpa using hkeyNonnull)
    (by simpa using h) (by simpa using hnonnull) (List.pairwise_singleton _ _)

theorem HasType.singleTuple {types : List CqlType} {index : Nat}
    (hindex : types[index]? = some valueType) (h : HasType hashFunc valueType value) :
    HasType hashFunc (.tuple types) (singleTuple types index value) := by
  refine .tuple (typeCompare_self _) rfl (List.nodup_singleton index) ?_ ?_
  · simpa using (List.getElem?_eq_some_iff.mp hindex).1
  · simp only [List.zip_cons_cons, List.zip_nil_right, List.mem_singleton, Prod.mk.injEq]
    rintro _ _ ⟨rfl, rfl⟩ type htype
    rw [hindex] at htype
    cases htype
    exact h

theorem HasType.singleUserTypeValue {keyspace typeName : Option Bytes}
    {types : List (Bytes × CqlType)} {name : Bytes} (hname : types.lookup name = some valueType)
    (h : HasType hashFunc valueType value) :
    HasType hashFunc (.udt keyspace typeName types)
      (singleUserTypeValue keyspace typeName types name value) := by
  refine .userTypeValue (typeCompare_self _) rfl (List.nodup_singleton name) ?_ ?_
  · intro key hkey
    rw [List.mem_singleton.mp hkey, hname]
    rfl
  · simp only [List.zip_cons_cons, List.zip_nil_right, List.mem_singleton, Prod.mk.injEq]
    rintro _ _ ⟨rfl, rfl⟩ type htype
    rw [hname] at htype
    cases htype
    exact h

theorem fresh_singleCollection (h : Fresh hashFunc value) :
    Fresh hashFunc (singleCollection valueType value) := by
  simp [singleCollection, Fresh, AllFresh, h]

theorem fresh_singleSet (h : Fresh hashFunc value) :
    Fresh hashFunc (singleSet hashFunc valueType value) := by
  simp [singleSet, Fresh, AllFresh, valueHashes, h]

theorem fresh_singleMap (hkey : Fresh hashFunc key) (h : Fresh hashFunc value) :
    Fresh hashFunc (singleMap hashFunc keyType valueType key value) := by
  simp [singleMap, Fresh, AllFresh, valueHashes, hkey, h]

theorem fresh_singleTuple {types : List CqlType} {index : Nat} (h : Fresh hashFunc value) :
    Fresh hashFunc (singleTuple types index value) := by
  simp [singleTuple, Fresh, AllFresh, h]

theorem fresh_singleUserTypeValue {keyspace typeName : Option Bytes}
    {types : List (Bytes × CqlType)} {name : Bytes} (h : Fresh hashFunc value) :
    Fresh hashFunc (singleUserTypeValue keyspace typeName types name value) := by
  simp [singleUserTypeValue, Fresh, AllFresh, h]

end

/-- Two values of each scalar type. -/
def ScalarType.samples : ScalarType → Atom × Atom
  | .ascii => (.string [], .string [0])
  | .bigint => (.bigint 0, .bigint 1)
  | .blob => (.blob [], .blob [0])
  | .boolean => (.false, .true)
  | .counter => (.bigint 0, .bigint 1)
  | .decimal => (.decimal 0 0, .decimal 1 0)
  | .double => (.double 0, .double 1)
  | .float => (.float 0, .float 1)
  | .int => (.long 0, .long 1)
  | .text => (.string [], .string [0])
  | .timestamp => (.timestamp 0, .timestamp 1)
  | .uuid => (.uuid 0 0, .uuid 0 1)
  | .varchar => (.string [], .string [0])
  | .varint => (.varint 0, .varint 1)
  | .timeuuid => (.timeuuid 0 0, .timeuuid 0 1)
  | .inet => (.inet [0, 0, 0, 0], .inet [0, 0, 0, 1])
  | .date => (.date 0, .date 1)
  | .time => (.time 0, .time 1)
  | .smallint => (.smallint 0, .smallint 1)
  | .tinyint => (.tinyint 0, .tinyint 1)
  | .duration => (.duration 0 0 0, .duration 0 0 1)

theorem ScalarType.samples_accepted (type : ScalarType) :
    type.accepts type.samples.1 ∧ type.accepts type.samples.2 := by
  cases type <;> exact ⟨rfl, rfl⟩

theorem ScalarType.ne_null_of_accepts {type : ScalarType} {a : Atom} (h : type.accepts a) :
    a ≠ .null := by
  rintro rfl
  cases type <;> cases h

theorem ScalarType.samples_differ (type : ScalarType) :
    (type.samples.1.kind = type.samples.2.kind →
      type.samples.1.contentsCompare type.samples.2 ≠ .eq) ∧
    (type.samples.2.kind = type.samples.1.kind →
      type.samples.2.contentsCompare type.samples.1 ≠ .eq) := by
  cases type <;> decide

theorem exists_value (hcustom : type.isCustom = false) :
    ∃ value, HasType hashFunc type value ∧ Fresh hashFunc value ∧ value ≠ .atom .null := by
  cases type with
  | scalar scalarType =>
    have haccepted := scalarType.samples_accepted.1
    exact ⟨.atom scalarType.samples.1, .scalar haccepted, trivial,
      fun h => ScalarType.ne_null_of_accepts haccepted (Value.atom.inj h)⟩
  | custom className => cases hcustom
  | _ =>
    exact ⟨_, HasType.emptyValue _, fresh_emptyValue _, by simp [CqlType.emptyValue]⟩

theorem valueCompare_ne_of_count_ne {value₁ value₂ : Value} (htype : value₁.type?.isSome)
    (hcount : value₁.count ≠ value₂.count) : valueCompare hashFunc value₁ value₂ ≠ .eq := by
  intro h
  have hkind := kind_eq_of_valueCompare_eq h
  cases value₁ with
  | atom a => cases htype
  | _ =>
    cases value₂ with
    | atom a => cases a <;> cases hkind
    | _ => cases hkind <;> simp_all [Value.count]

/-- Two values of a type that are not null and compare unequal both ways. -/
def HasTwoValues (hashFunc : Bytes → UInt32) (type : CqlType) : Prop :=
  ∃ value₁ value₂,
    (HasType hashFunc type value₁ ∧ Fresh hashFunc value₁ ∧ value₁ ≠ .atom .null) ∧
    (HasType hashFunc type value₂ ∧ Fresh hashFunc value₂ ∧ value₂ ≠ .atom .null) ∧
    valueCompare hashFunc value₁ value₂ ≠ .eq ∧
    valueCompare hashFunc value₂ value₁ ≠ .eq

theorem hasTwoValues_of_single (hclass : type.containerClass.isSome)
    (htyped : HasType hashFunc type value) (hfresh : Fresh hashFunc value)
    (htype : value.type?.isSome) (hcount : value.count = 1) : HasTwoValues hashFunc type := by
  have hempty : type.emptyValue.type?.isSome ∧ type.emptyValue.count = 0 ∧
      type.emptyValue ≠ .atom .null := by
    cases type <;> first | (cases hclass; done) | exact ⟨rfl, rfl, by simp [CqlType.emptyValue]⟩
  refine ⟨type.emptyValue, value, ⟨HasType.emptyValue type, fresh_emptyValue type, hempty.2.2⟩,
    ⟨htyped, hfresh, ?_⟩, valueCompare_ne_of_count_ne hempty.1 ?_,
    valueCompare_ne_of_count_ne htype ?_⟩
  · rintro rfl
    cases htype
  · rw [hempty.2.1, hcount]
    decide
  · rw [hempty.2.1, hcount]
    decide

/-- A type that is not lone has two values that compare unequal. -/
theorem hasTwoValues_of_not_lone (hlone : type.isLone = false) : HasTwoValues hashFunc type := by
  cases type with
  | custom className => cases hlone
  | scalar scalarType =>
    obtain ⟨haccepted₁, haccepted₂⟩ := scalarType.samples_accepted
    obtain ⟨hdiffer₁, hdiffer₂⟩ := scalarType.samples_differ
    refine ⟨.atom scalarType.samples.1, .atom scalarType.samples.2,
      ⟨.scalar haccepted₁, trivial,
        fun h => ScalarType.ne_null_of_accepts haccepted₁ (Value.atom.inj h)⟩,
      ⟨.scalar haccepted₂, trivial,
        fun h => ScalarType.ne_null_of_accepts haccepted₂ (Value.atom.inj h)⟩, ?_, ?_⟩
    · intro h
      have hkind := kind_eq_of_valueCompare_eq h
      rw [valueCompare_atom hkind] at h
      exact hdiffer₁ hkind h
    · intro h
      have hkind := kind_eq_of_valueCompare_eq h
      rw [valueCompare_atom hkind] at h
      exact hdiffer₂ hkind h
  | list valueType =>
    exact hasTwoValues_of_single rfl (HasType.null valueType).singleCollection
      (fresh_singleCollection trivial) rfl rfl
  | set valueType =>
    obtain ⟨value, htyped, hfresh, hnonnull⟩ := exists_value hlone
    exact hasTwoValues_of_single rfl (htyped.singleSet hnonnull) (fresh_singleSet hfresh) rfl rfl
  | map keyType valueType =>
    obtain ⟨hkeyType, hvalueType⟩ := Bool.or_eq_false_iff.mp hlone
    obtain ⟨key, hkey, hkeyFresh, hkeyNonnull⟩ := exists_value hkeyType
    obtain ⟨value, htyped, hfresh, hnonnull⟩ := exists_value hvalueType
    exact hasTwoValues_of_single rfl (hkey.singleMap hkeyNonnull htyped hnonnull)
      (fresh_singleMap hkeyFresh hfresh) rfl rfl
  | tuple types =>
    cases types with
    | nil => cases hlone
    | cons type types =>
      exact hasTwoValues_of_single rfl
        (.singleTuple (show (type :: types)[0]? = some type from rfl) (.null type))
        (fresh_singleTuple trivial) rfl rfl
  | udt keyspace typeName types =>
    cases types with
    | nil => cases hlone
    | cons field types =>
      obtain ⟨name, type⟩ := field
      exact hasTwoValues_of_single rfl
        (.singleUserTypeValue
          (show ((name, type) :: types).lookup name = some type by simp) (.null type))
        (fresh_singleUserTypeValue trivial) rfl rfl

/-- A type that is not solitary has two values that compare unequal: if they are all empty
containers, two of them carry types that disagree. -/
theorem hasTwoValues_of_not_solitary (h : ¬ type.Solitary) : HasTwoValues hashFunc type := by
  by_cases hlone : type.isLone = true
  · obtain ⟨own₁, own₂, hown₁, hown₂, hne⟩ : ∃ own₁ own₂, typeCompare own₁ type = .eq ∧
        typeCompare own₂ type = .eq ∧ typeCompare own₁ own₂ ≠ .eq := by
      by_contra hagree
      exact h ⟨hlone, fun own₁ own₂ h₁ h₂ => by_contra fun hne => hagree ⟨own₁, own₂, h₁, h₂, hne⟩⟩
    have hclass₁ := containerClass_eq_of_typeCompare_eq hown₁
    have hclass₂ := containerClass_eq_of_typeCompare_eq hown₂
    cases hclass : type.containerClass with
    | none =>
      -- a custom type has no containers, and custom types agree
      cases type with
      | scalar => cases hlone
      | custom className =>
        have hcustom₁ := isCustom_eq_of_typeCompare_eq hown₁
        have hcustom₂ := isCustom_eq_of_typeCompare_eq hown₂
        cases own₁ <;> cases hcustom₁
        cases own₂ <;> cases hcustom₂
        exact absurd (by simp [typeCompare, codeCompare, CqlType.code]) hne
      | _ => cases hclass
    | some ce =>
      obtain ⟨hkind₁, htype₁, hcount₁⟩ := emptyValue_container (hclass₁.trans hclass)
      obtain ⟨hkind₂, htype₂, hcount₂⟩ := emptyValue_container (hclass₂.trans hclass)
      refine ⟨own₁.emptyValue, own₂.emptyValue,
        ⟨(HasType.emptyValue own₁).of_carried htype₁ hown₁, fresh_emptyValue own₁,
          ne_null_of_kind hkind₁⟩,
        ⟨(HasType.emptyValue own₂).of_carried htype₂ hown₂, fresh_emptyValue own₂,
          ne_null_of_kind hkind₂⟩, ?_, ?_⟩
      · rwa [valueCompare_of_count_zero (hkind₁.trans hkind₂.symm) htype₁ htype₂ hcount₁ hcount₂]
      · rw [valueCompare_of_count_zero (hkind₂.trans hkind₁.symm) htype₂ htype₁ hcount₂ hcount₁]
        exact mt typeCompare_eq_comm.mp hne
  · exact hasTwoValues_of_not_lone (Bool.not_eq_true _ ▸ hlone)

end

end Values
end ScyllaDriver
