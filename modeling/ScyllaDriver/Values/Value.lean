import ScyllaDriver.Values.Atoms

/-!
# Values of any nesting: hash and comparison

A Collection, Tuple or UserTypeValue keeps its members in a PHP array, in
order of insertion; a Set or Map keeps them in a uthash table, which is
iterated in order of insertion and searched by hash. A container also keeps
its type and a cached hash.

Each container is modelled by lists in iteration order. The lists of one
container run in parallel: the `i`-th stored hash belongs to the `i`-th key
and the `i`-th value. The cached hash is `none` while the dirty flag is set.

Objects are modelled by their contents, so what depends on the identity of an
object is not here: that `php_scylladb_value_compare` returns 0 at once for one
zval against itself, and that hashing a container leaves the hash in its cache.
-/

namespace ScyllaDriver
namespace Values

open CString

inductive Value where
  | atom (a : Atom)
  | collection (type : CqlType) (values : List Value) (hashv : Option UInt32)
  | set (type : CqlType) (numBuckets : UInt32) (hashes : List UInt32)
      (values : List Value) (hashv : Option UInt32)
  | map (type : CqlType) (numBuckets : UInt32) (hashes : List UInt32)
      (keys values : List Value) (hashv : Option UInt32)
  | tuple (type : CqlType) (keys : List Nat) (values : List Value) (hashv : Option UInt32)
  | userTypeValue (type : CqlType) (keys : List Bytes) (values : List Value) (hashv : Option UInt32)

def Value.kind : Value → Kind
  | .atom a => a.kind
  | .collection _ _ _ => .object .collection
  | .set _ _ _ _ _ => .object .set
  | .map _ _ _ _ _ _ => .object .map
  | .tuple _ _ _ _ => .object .tuple
  | .userTypeValue _ _ _ _ => .object .userTypeValue

/-- The hashes of keys and values in turn. -/
def interleave : List UInt32 → List UInt32 → List UInt32
  | key :: keys, value :: values => key :: value :: interleave keys values
  | _, _ => []

section

variable (hashFunc : Bytes → UInt32)

mutual
/-- `php_scylladb_value_hash`: a clean container returns its cached hash, a
dirty one combines the hashes of its members in iteration order. -/
def valueHash : Value → UInt32
  | .atom a => a.hash hashFunc
  | .collection _ values hashv =>
    hashv.getD ((valueHashes values).foldl combineHash 0)
  | .set _ _ _ values hashv =>
    hashv.getD ((valueHashes values).foldl combineHash 0)
  | .map _ _ _ keys values hashv =>
    hashv.getD ((interleave (valueHashes keys) (valueHashes values)).foldl combineHash 0)
  | .tuple _ _ values hashv =>
    hashv.getD ((valueHashes values).foldl combineHash 0)
  | .userTypeValue _ _ values hashv =>
    hashv.getD ((valueHashes values).foldl combineHash 0)

def valueHashes : List Value → List UInt32
  | [] => []
  | value :: values => valueHash value :: valueHashes values

end

mutual
/-- `php_scylladb_value_compare` and the `compare` handlers: values of
different kinds by kind, containers by type, then by number of members, then
by their members. -/
def valueCompare (value₁ value₂ : Value) : Ordering :=
  (kindCompare value₁.kind value₂.kind).then <| match value₁, value₂ with
    | .atom a₁, .atom a₂ => a₁.contentsCompare a₂
    | .collection type₁ values₁ _, .collection type₂ values₂ _ =>
      (typeCompare type₁ type₂).then <|
        (compare values₁.length values₂.length).then (valuesCompare values₁ values₂)
    | .set type₁ _ _ values₁ _, .set type₂ numBuckets hashes values₂ _ =>
      (typeCompare type₁ type₂).then <|
        (compare values₁.length values₂.length).then
          (membersCompare values₁ numBuckets hashes values₂)
    | .map type₁ _ _ keys₁ values₁ _, .map type₂ numBuckets hashes keys₂ values₂ _ =>
      (typeCompare type₁ type₂).then <|
        (compare keys₁.length keys₂.length).then
          (entriesCompare keys₁ values₁ numBuckets hashes keys₂ values₂)
    | .tuple type₁ _ values₁ _, .tuple type₂ _ values₂ _ =>
      (typeCompare type₁ type₂).then <|
        (compare values₁.length values₂.length).then (valuesCompare values₁ values₂)
    | .userTypeValue type₁ _ values₁ _, .userTypeValue type₂ _ values₂ _ =>
      (typeCompare type₁ type₂).then <|
        (compare values₁.length values₂.length).then (valuesCompare values₁ values₂)
    | _, _ => .eq
termination_by sizeOf value₁ + sizeOf value₂

/-- The loop of the collection, tuple and user type comparisons: position by
position, whatever keys the values are stored under. -/
def valuesCompare (values₁ values₂ : List Value) : Ordering :=
  match values₁, values₂ with
  | value₁ :: values₁, value₂ :: values₂ =>
    (valueCompare value₁ value₂).then (valuesCompare values₁ values₂)
  | _, _ => .eq
termination_by sizeOf values₁ + sizeOf values₂

/-- `HASH_FIND_ZVAL`: the position of the newest entry in the bucket of the key
that compares equal to it. A bucket is searched from its newest entry; doubling
the buckets can turn this around, which matters only if equal keys are stored. -/
def findEntry (numBuckets : UInt32) (hashes : List UInt32) (keys : List Value)
    (key : Value) : Option Nat :=
  match hashes, keys with
  | hashv :: hashes, stored :: keys =>
    match findEntry numBuckets hashes keys key with
    | some i => some (i + 1)
    | none =>
      if hashv &&& (numBuckets - 1) = valueHash hashFunc key &&& (numBuckets - 1) ∧
          valueCompare stored key = .eq then
        some 0
      else
        none
  | _, _ => none
termination_by sizeOf keys + sizeOf key

/-- The loop of `php_scylladb_set_compare`: a member of the first set that the
second one does not have makes the first one greater. -/
def membersCompare (values₁ : List Value) (numBuckets : UInt32) (hashes : List UInt32)
    (values₂ : List Value) : Ordering :=
  match values₁ with
  | [] => .eq
  | value₁ :: values₁ =>
    match findEntry numBuckets hashes values₂ value₁ with
    | none => .gt
    | some _ => membersCompare values₁ numBuckets hashes values₂
termination_by sizeOf values₁ + sizeOf values₂

/-- The loop of `php_scylladb_map_compare`: a key of the first map that the
second one does not have makes the first one greater, and of a common key the
values are compared. -/
def entriesCompare (keys₁ values₁ : List Value) (numBuckets : UInt32)
    (hashes : List UInt32) (keys₂ values₂ : List Value) : Ordering :=
  match keys₁, values₁ with
  | key₁ :: keys₁, value₁ :: values₁ =>
    match findEntry numBuckets hashes keys₂ key₁ with
    | none => .gt
    | some i =>
      match _h : values₂[i]? with
      | none => .gt
      | some value₂ =>
        (valueCompare value₁ value₂).then
          (entriesCompare keys₁ values₁ numBuckets hashes keys₂ values₂)
  | _, _ => .eq
termination_by sizeOf keys₁ + sizeOf values₁ + sizeOf keys₂ + sizeOf values₂
decreasing_by
  all_goals try simp_wf
  all_goals try (have hlt := List.sizeOf_lt_of_mem (List.mem_of_getElem? _h))
  all_goals omega

end

end

section

variable (hashFunc : Bytes → UInt32)

mutual
/-- Every hash kept anywhere in the value is the one its members now have: the
hash cached by a clean container, and those a table filed its keys under. The
lists of a table run in parallel. -/
def Fresh : Value → Prop
  | .atom _ => True
  | .collection _ values hashv =>
    (∀ cached ∈ hashv, cached = (valueHashes hashFunc values).foldl combineHash 0) ∧ AllFresh values
  | .set _ _ hashes values hashv =>
    hashes = valueHashes hashFunc values ∧
      (∀ cached ∈ hashv, cached = (valueHashes hashFunc values).foldl combineHash 0) ∧
        AllFresh values
  | .map _ _ hashes keys values hashv =>
    (hashes = valueHashes hashFunc keys ∧ keys.length = values.length) ∧
      (∀ cached ∈ hashv, cached =
        (interleave (valueHashes hashFunc keys) (valueHashes hashFunc values)).foldl
          combineHash 0) ∧
        AllFresh keys ∧ AllFresh values
  | .tuple _ _ values hashv =>
    (∀ cached ∈ hashv, cached = (valueHashes hashFunc values).foldl combineHash 0) ∧ AllFresh values
  | .userTypeValue _ _ values hashv =>
    (∀ cached ∈ hashv, cached = (valueHashes hashFunc values).foldl combineHash 0) ∧ AllFresh values

def AllFresh : List Value → Prop
  | [] => True
  | value :: values => Fresh value ∧ AllFresh values

end

end

theorem allFresh_iff {hashFunc : Bytes → UInt32} {values : List Value} :
    AllFresh hashFunc values ↔ ∀ v ∈ values, Fresh hashFunc v := by
  induction values with
  | nil => simp [AllFresh]
  | cons value values ih => simp [AllFresh, ih]

theorem getD_of_fresh {hashv : Option UInt32} {hash : UInt32}
    (h : ∀ cached ∈ hashv, cached = hash) : hashv.getD hash = hash := by
  cases hashv with
  | none => rfl
  | some cached => simpa using h cached rfl

/-- Induction over the nesting of a value. -/
theorem Value.members_induction {motive : Value → Prop} (atom : ∀ a, motive (.atom a))
    (collection : ∀ type values hashv,
      (∀ v ∈ values, motive v) → motive (.collection type values hashv))
    (set : ∀ type numBuckets hashes values hashv,
      (∀ v ∈ values, motive v) → motive (.set type numBuckets hashes values hashv))
    (map : ∀ type numBuckets hashes keys values hashv,
      (∀ v ∈ keys, motive v) → (∀ v ∈ values, motive v) →
        motive (.map type numBuckets hashes keys values hashv))
    (tuple : ∀ type keys values hashv,
      (∀ v ∈ values, motive v) → motive (.tuple type keys values hashv))
    (userTypeValue : ∀ type keys values hashv,
      (∀ v ∈ values, motive v) → motive (.userTypeValue type keys values hashv)) :
    ∀ value, motive value
  | .atom a => atom a
  | .collection type values hashv =>
    collection type values hashv fun v _ => members_induction atom collection set map
      tuple userTypeValue v
  | .set type numBuckets hashes values hashv =>
    set type numBuckets hashes values hashv fun v _ => members_induction atom collection
      set map tuple userTypeValue v
  | .map type numBuckets hashes keys values hashv =>
    map type numBuckets hashes keys values hashv
      (fun v _ => members_induction atom collection set map tuple userTypeValue v)
      (fun v _ => members_induction atom collection set map tuple userTypeValue v)
  | .tuple type keys values hashv =>
    tuple type keys values hashv fun v _ => members_induction atom collection set map
      tuple userTypeValue v
  | .userTypeValue type keys values hashv =>
    userTypeValue type keys values hashv fun v _ => members_induction atom collection
      set map tuple userTypeValue v

section

variable {hashFunc : Bytes → UInt32}

@[simp] theorem kindCompare_self (kind : Kind) : kindCompare kind kind = .eq :=
  (kindCompare_eq_iff kind kind).mpr rfl

theorem valueCompare_kind (value₁ value₂ : Value) :
    valueCompare hashFunc value₁ value₂ =
      (kindCompare value₁.kind value₂.kind).then
        (valueCompare hashFunc value₁ value₂) := by
  rw [valueCompare.eq_def]
  cases kindCompare value₁.kind value₂.kind <;> rfl

theorem kind_eq_of_valueCompare_eq {value₁ value₂ : Value}
    (h : valueCompare hashFunc value₁ value₂ = .eq) : value₁.kind = value₂.kind := by
  rw [valueCompare_kind] at h
  exact (kindCompare_eq_iff _ _).mp (Ordering.then_eq_eq.mp h).1

theorem valueCompare_atom {a₁ a₂ : Atom} (hkind : a₁.kind = a₂.kind) :
    valueCompare hashFunc (.atom a₁) (.atom a₂) = a₁.contentsCompare a₂ := by
  rw [valueCompare.eq_def]
  simp [Value.kind, hkind]

variable {value : Value}

theorem Value.eq_collection_of_kind (h : value.kind = .object .collection) :
    ∃ type values hashv, value = .collection type values hashv := by
  cases value with
  | atom a => cases a <;> cases h
  | collection type values hashv => exact ⟨type, values, hashv, rfl⟩
  | _ => cases h

theorem Value.eq_set_of_kind (h : value.kind = .object .set) :
    ∃ type numBuckets hashes values hashv, value = .set type numBuckets hashes values hashv := by
  cases value with
  | atom a => cases a <;> cases h
  | set type numBuckets hashes values hashv => exact ⟨type, numBuckets, hashes, values, hashv, rfl⟩
  | _ => cases h

theorem Value.eq_map_of_kind (h : value.kind = .object .map) :
    ∃ type numBuckets hashes keys values hashv,
      value = .map type numBuckets hashes keys values hashv := by
  cases value with
  | atom a => cases a <;> cases h
  | map type numBuckets hashes keys values hashv =>
    exact ⟨type, numBuckets, hashes, keys, values, hashv, rfl⟩
  | _ => cases h

theorem Value.eq_tuple_of_kind (h : value.kind = .object .tuple) :
    ∃ type keys values hashv, value = .tuple type keys values hashv := by
  cases value with
  | atom a => cases a <;> cases h
  | tuple type keys values hashv => exact ⟨type, keys, values, hashv, rfl⟩
  | _ => cases h

theorem Value.eq_userTypeValue_of_kind (h : value.kind = .object .userTypeValue) :
    ∃ type keys values hashv, value = .userTypeValue type keys values hashv := by
  cases value with
  | atom a => cases a <;> cases h
  | userTypeValue type keys values hashv => exact ⟨type, keys, values, hashv, rfl⟩
  | _ => cases h

variable (hashv₁ hashv₂ : Option UInt32) (type₁ type₂ : CqlType) (values₁ values₂ : List Value)

@[simp] theorem valueCompare_collection :
    valueCompare hashFunc (.collection type₁ values₁ hashv₁) (.collection type₂ values₂ hashv₂) =
      (typeCompare type₁ type₂).then
        ((compare values₁.length values₂.length).then
          (valuesCompare hashFunc values₁ values₂)) := by
  rw [valueCompare.eq_def]
  simp [Value.kind]

@[simp] theorem valueCompare_tuple (keys₁ keys₂ : List Nat) :
    valueCompare hashFunc (.tuple type₁ keys₁ values₁ hashv₁) (.tuple type₂ keys₂ values₂ hashv₂) =
      (typeCompare type₁ type₂).then
        ((compare values₁.length values₂.length).then
          (valuesCompare hashFunc values₁ values₂)) := by
  rw [valueCompare.eq_def]
  simp [Value.kind]

@[simp] theorem valueCompare_userTypeValue (keys₁ keys₂ : List Bytes) :
    valueCompare hashFunc (.userTypeValue type₁ keys₁ values₁ hashv₁)
        (.userTypeValue type₂ keys₂ values₂ hashv₂) =
      (typeCompare type₁ type₂).then
        ((compare values₁.length values₂.length).then
          (valuesCompare hashFunc values₁ values₂)) := by
  rw [valueCompare.eq_def]
  simp [Value.kind]

@[simp] theorem valueCompare_set (numBuckets₁ numBuckets₂ : UInt32)
    (hashes₁ hashes₂ : List UInt32) :
    valueCompare hashFunc (.set type₁ numBuckets₁ hashes₁ values₁ hashv₁)
        (.set type₂ numBuckets₂ hashes₂ values₂ hashv₂) =
      (typeCompare type₁ type₂).then
        ((compare values₁.length values₂.length).then
          (membersCompare hashFunc values₁ numBuckets₂ hashes₂ values₂)) := by
  rw [valueCompare.eq_def]
  simp [Value.kind]

@[simp] theorem valueCompare_map (numBuckets₁ numBuckets₂ : UInt32)
    (hashes₁ hashes₂ : List UInt32) (keys₁ keys₂ : List Value) :
    valueCompare hashFunc (.map type₁ numBuckets₁ hashes₁ keys₁ values₁ hashv₁)
        (.map type₂ numBuckets₂ hashes₂ keys₂ values₂ hashv₂) =
      (typeCompare type₁ type₂).then
        ((compare keys₁.length keys₂.length).then
          (entriesCompare hashFunc keys₁ values₁ numBuckets₂ hashes₂ keys₂ values₂)) := by
  rw [valueCompare.eq_def]
  simp [Value.kind]

theorem valuesCompare_eq_compareLists :
    valuesCompare hashFunc values₁ values₂ =
      Comparator.compareLists (valueCompare hashFunc) values₁ values₂ := by
  induction values₁ generalizing values₂ with
  | nil =>
    cases values₂ <;> simp [valuesCompare, Comparator.compareLists]
  | cons value₁ values₁ ih =>
    cases values₂ with
    | nil => simp [valuesCompare, Comparator.compareLists]
    | cons value₂ values₂ => simp [valuesCompare, Comparator.compareLists, ih]

theorem findEntry_ne_none_iff (numBuckets : UInt32) (keys : List Value) (key : Value) :
    findEntry hashFunc numBuckets (valueHashes hashFunc keys) keys key ≠ none ↔
      ∃ stored ∈ keys,
        valueHash hashFunc stored &&& (numBuckets - 1) =
            valueHash hashFunc key &&& (numBuckets - 1) ∧
          valueCompare hashFunc stored key = .eq := by
  induction keys with
  | nil => simp [findEntry]
  | cons stored keys ih =>
    simp only [valueHashes, findEntry, List.exists_mem_cons_iff, ← ih]
    cases findEntry hashFunc numBuckets (valueHashes hashFunc keys) keys key with
    | some i => simp
    | none => simp

/-- Two Sets of one size agree when each member of the first is found in the
second. -/
theorem membersCompare_eq_iff (numBuckets : UInt32) (hashes : List UInt32) :
    membersCompare hashFunc values₁ numBuckets hashes values₂ = .eq ↔
      ∀ v ∈ values₁, findEntry hashFunc numBuckets hashes values₂ v ≠ none := by
  induction values₁ with
  | nil => simp [membersCompare]
  | cons value₁ values₁ ih =>
    rw [membersCompare, List.forall_mem_cons, ← ih]
    cases findEntry hashFunc numBuckets hashes values₂ value₁ with
    | some i => simp
    | none => simp

@[simp] theorem valueCompare_atom_self (a : Atom) :
    valueCompare hashFunc (.atom a) (.atom a) = .eq := by
  rw [valueCompare_atom rfl]
  exact (Atom.contentsCompare_order a.kind).refl a rfl

end

end Values
end ScyllaDriver
