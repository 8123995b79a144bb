import ScyllaDriver.Library.OrderedTable
import ScyllaDriver.Values.Validate

/-!
# Tuples and user type values, built by `set`

A `Cassandra\Tuple` or `Cassandra\UserTypeValue` keeps the fields that have
been set in a PHP array, in the order in which they were first set; `values()`
reads them in the order of the type and gives null for a field that is not
there. The comparison walks the two arrays side by side and does not look at
their keys.

So for two objects whose types compare equal it tells them apart by their
fields only if the fields were set in one order: `compare_right_iff_same_order`.
-/

namespace ScyllaDriver
namespace Values

open CString OrderedTable

/-- The value of a field; a field that is not set reads as null. -/
def readField {κ : Type} [DecidableEq κ] (values : OrderedTable κ Value) (key : κ) : Value :=
  (values.find key).getD (.atom .null)

/-- `php_scylladb_tuple`; of its type the component types. -/
structure TupleObject where
  types : List CqlType
  values : OrderedTable Nat Value

namespace TupleObject

def new (types : List CqlType) : TupleObject where
  types := types
  values := .empty

def type (self : TupleObject) : CqlType :=
  .tuple self.types

/-- The checks of `Tuple::set`. -/
def check (types : List CqlType) (index : Int) (object : Value) : Except Refusal Unit :=
  if index < 0 ∨ types.length ≤ index then
    .error (.invalid "Index out of bounds")
  else
    match types[index.toNat]? with
    | none => .error .silent
    | some subType => validateObject object subType

/-- `Tuple::set`. -/
def set (self : TupleObject) (index : Int) (object : Value) : Except Refusal Unit × TupleObject :=
  match check self.types index object with
  | .error e => (.error e, self)
  | .ok () =>
    (.ok (), { self with values := self.values.update index.toNat object })

/-- `php_scylladb_tuple_populate`. -/
def populate (self : TupleObject) : List Value :=
  (List.range self.types.length).map (readField self.values)

/-- The object as a value; `set` leaves it dirty. -/
def toValue (self : TupleObject) : Value :=
  .tuple self.type self.values.keys self.values.values none

/-- The object after its `set` calls. -/
def after (types : List CqlType) (calls : List (Int × Value)) : TupleObject :=
  calls.foldl (fun self call => (self.set call.1 call.2).2) (.new types)

/-- The calls that were not refused. -/
def accepted (types : List CqlType) (calls : List (Int × Value)) : List (Nat × Value) :=
  calls.filterMap fun call =>
    match check types call.1 call.2 with
    | .error _ => none
    | .ok () => some (call.1.toNat, call.2)

/-- The fields that the calls set, in the order in which each was first set. -/
def order (types : List CqlType) (calls : List (Int × Value)) : List Nat :=
  firstKeys ((accepted types calls).map Prod.fst)

end TupleObject

/-- `php_scylladb_user_type_value`, with the fields of its type by name. -/
structure UserTypeValueObject where
  keyspace : Option Bytes
  typeName : Option Bytes
  types : OrderedTable Bytes CqlType
  values : OrderedTable Bytes Value

namespace UserTypeValueObject

def new (keyspace typeName : Option Bytes) (types : OrderedTable Bytes CqlType) :
    UserTypeValueObject where
  keyspace := keyspace
  typeName := typeName
  types := types
  values := .empty

def type (self : UserTypeValueObject) : CqlType :=
  .udt self.keyspace self.typeName self.types.entries

/-- The checks of `UserTypeValue::set`. -/
def check (types : OrderedTable Bytes CqlType) (name : Bytes) (object : Value) :
    Except Refusal Unit :=
  match types.find name with
  | none => .error (.invalid "Invalid name '%.*s'")
  | some subType => validateObject object subType

/-- `UserTypeValue::set`. -/
def set (self : UserTypeValueObject) (name : Bytes) (object : Value) :
    Except Refusal Unit × UserTypeValueObject :=
  match check self.types name object with
  | .error e => (.error e, self)
  | .ok () => (.ok (), { self with values := self.values.update name object })

/-- `php_scylladb_user_type_value_populate`. -/
def populate (self : UserTypeValueObject) : List (Bytes × Value) :=
  self.types.keys.map fun name => (name, readField self.values name)

/-- The object as a value; `set` leaves it dirty. -/
def toValue (self : UserTypeValueObject) : Value :=
  .userTypeValue self.type self.values.keys self.values.values none

/-- The object after its `set` calls. -/
def after (keyspace typeName : Option Bytes) (types : OrderedTable Bytes CqlType)
    (calls : List (Bytes × Value)) : UserTypeValueObject :=
  calls.foldl (fun self call => (self.set call.1 call.2).2) (.new keyspace typeName types)

/-- The calls that were not refused. -/
def accepted (types : OrderedTable Bytes CqlType) (calls : List (Bytes × Value)) :
    List (Bytes × Value) :=
  calls.filterMap fun call =>
    match check types call.1 call.2 with
    | .error _ => none
    | .ok () => some call

/-- The fields that the calls set, in the order in which each was first set. -/
def order (types : OrderedTable Bytes CqlType) (calls : List (Bytes × Value)) : List Bytes :=
  firstKeys ((accepted types calls).map Prod.fst)

end UserTypeValueObject

section

variable (hashFunc : Bytes → UInt32)

/-- The comparison of two Tuples says whether their types and their fields are
equal. -/
def TupleObject.ComparesRight (a b : TupleObject) : Prop :=
  valueCompare hashFunc a.toValue b.toValue = .eq ↔
    typeCompare a.type b.type = .eq ∧
      List.Forall₂ (fun v w => valueCompare hashFunc v w = .eq) a.populate b.populate

/-- The comparison of two user type values says whether their types and their
fields are equal. -/
def UserTypeValueObject.ComparesRight (a b : UserTypeValueObject) : Prop :=
  valueCompare hashFunc a.toValue b.toValue = .eq ↔
    typeCompare a.type b.type = .eq ∧
      List.Forall₂ (fun f g => f.1 = g.1 ∧ valueCompare hashFunc f.2 g.2 = .eq)
        a.populate b.populate

end

theorem TupleObject.foldl_set (calls : List (Int × Value)) (self : TupleObject) :
    calls.foldl (fun self call => (self.set call.1 call.2).2) self =
      { self with
        values := (accepted self.types calls).foldl
          (fun t entry => t.update entry.1 entry.2) self.values } := by
  induction calls generalizing self with
  | nil => rfl
  | cons call calls ih =>
    rw [List.foldl_cons, ih]
    cases h : check self.types call.1 call.2 <;> simp [set, accepted, h]

theorem TupleObject.after_eq (types : List CqlType) (calls : List (Int × Value)) :
    after types calls = ⟨types, ofUpdates (accepted types calls)⟩ :=
  foldl_set calls (.new types)

theorem UserTypeValueObject.foldl_set (calls : List (Bytes × Value)) (self : UserTypeValueObject) :
    calls.foldl (fun self call => (self.set call.1 call.2).2) self =
      { self with
        values := (accepted self.types calls).foldl
          (fun t entry => t.update entry.1 entry.2) self.values } := by
  induction calls generalizing self with
  | nil => rfl
  | cons call calls ih =>
    rw [List.foldl_cons, ih]
    cases h : check self.types call.1 call.2 <;> simp [set, accepted, h]

theorem UserTypeValueObject.after_eq (keyspace typeName : Option Bytes)
    (types : OrderedTable Bytes CqlType) (calls : List (Bytes × Value)) :
    after keyspace typeName types calls =
      ⟨keyspace, typeName, types, ofUpdates (accepted types calls)⟩ :=
  foldl_set calls (.new keyspace typeName types)

theorem TupleObject.lt_of_mem_accepted {types : List CqlType} {calls : List (Int × Value)}
    {key : Nat} (h : key ∈ (accepted types calls).map Prod.fst) : key < types.length := by
  obtain ⟨entry, hentry, rfl⟩ := List.mem_map.mp h
  obtain ⟨call, -, hcall⟩ := List.mem_filterMap.mp hentry
  by_cases hbounds : call.1 < 0 ∨ types.length ≤ call.1
  · simp [check, hbounds] at hcall
  · split at hcall
    · cases hcall
    · rw [← Option.some.inj hcall]
      simp only
      omega

theorem UserTypeValueObject.mem_keys_of_mem_accepted {types : OrderedTable Bytes CqlType}
    {calls : List (Bytes × Value)} {name : Bytes} (h : name ∈ (accepted types calls).map Prod.fst) :
    name ∈ types.keys := by
  obtain ⟨entry, hentry, rfl⟩ := List.mem_map.mp h
  obtain ⟨call, -, hcall⟩ := List.mem_filterMap.mp hentry
  by_contra hname
  have hnone : types.find entry.1 = none := find_eq_none_iff.mpr hname
  split at hcall
  · cases hcall
  · next hok =>
      cases hcall
      rw [check, hnone] at hok
      cases hok

section

variable {hashFunc : Bytes → UInt32}

theorem valuesCompare_eq_iff {values₁ values₂ : List Value} :
    (compare values₁.length values₂.length).then
        (valuesCompare hashFunc values₁ values₂) = .eq ↔
      List.Forall₂ (fun v w => valueCompare hashFunc v w = .eq) values₁ values₂ := by
  rw [Ordering.then_eq_eq, Std.LawfulEqCmp.compare_eq_iff_eq]
  induction values₁ generalizing values₂ with
  | nil => cases values₂ <;> simp [valuesCompare]
  | cons value₁ values₁ ih =>
    cases values₂ with
    | nil => simp
    | cons value₂ values₂ =>
      rw [List.forall₂_cons, ← ih, valuesCompare, Ordering.then_eq_eq]
      simp only [List.length_cons, Nat.add_right_cancel_iff]
      tauto

variable {κ : Type} [DecidableEq κ]

variable (hashFunc) in
/-- The comparison by position in the arrays is the comparison field by field. -/
def PositionsRight (t₁ t₂ : OrderedTable κ Value) (fields : List κ) : Prop :=
  List.Forall₂ (fun v w => valueCompare hashFunc v w = .eq) t₁.values t₂.values ↔
    ∀ key ∈ fields, valueCompare hashFunc (readField t₁ key) (readField t₂ key) = .eq

theorem positionsRight_of_same_order
    {sets₁ sets₂ : List (κ × Value)}
    {fields : List κ}
    (horder : firstKeys (sets₁.map Prod.fst) = firstKeys (sets₂.map Prod.fst))
    (hfields : ∀ key ∈ sets₁.map Prod.fst, key ∈ fields) :
    PositionsRight hashFunc (ofUpdates sets₁) (ofUpdates sets₂) fields := by
  rw [← keys_ofUpdates, ← keys_ofUpdates] at horder
  have hset : ∀ key ∈ (ofUpdates sets₁).keys, key ∈ fields := by
    intro key hkey
    rw [keys_ofUpdates, mem_firstKeys] at hkey
    exact hfields key hkey
  generalize ofUpdates sets₁ = t₁ at horder hset ⊢
  generalize ofUpdates sets₂ = t₂ at horder ⊢
  rw [PositionsRight, forall₂_values_iff horder]
  constructor
  · intro h key _
    cases h₁ : t₁.find key with
    | none =>
      have h₂ : t₂.find key = none := by
        rw [find_eq_none_iff, ← horder, ← find_eq_none_iff]
        exact h₁
      simp [readField, h₁, h₂]
    | some v₁ =>
      cases h₂ : t₂.find key with
      | none =>
        rw [find_eq_none_iff, ← horder, ← find_eq_none_iff, h₁] at h₂
        cases h₂
      | some v₂ =>
        simpa [readField, h₁, h₂] using h key v₁ v₂ h₁ h₂
  · intro h key v₁ v₂ h₁ h₂
    have hmem : key ∈ t₁.keys := by
      by_contra hnot
      rw [find_eq_none_iff.mpr hnot] at h₁
      cases h₁
    simpa [readField, h₁, h₂] using h key (hset key hmem)

/-- The value 1 for one field and null for the others. -/
def marked (mark : Option κ) (key : κ) : Value :=
  if mark = some key then .atom (.long 1) else .atom .null

/-- The fields set in this order, one of them marked. -/
def markedFields (fields : List κ) (mark : Option κ) : List (κ × Value) :=
  fields.map fun key => (key, marked mark key)

theorem map_fst_markedFields (fields : List κ) (mark : Option κ) :
    (markedFields fields mark).map Prod.fst = fields := by
  simp [markedFields, Function.comp_def]

theorem markedFields_const {fields : List κ} {mark : Option κ} :
    ∀ entry ∈ markedFields fields mark, entry.2 = marked mark entry.1 := by
  intro entry hentry
  obtain ⟨key, -, rfl⟩ := List.mem_map.mp hentry
  rfl

theorem values_markedFields (fields : List κ) (mark : Option κ) :
    (ofUpdates (markedFields fields mark)).values = (firstKeys fields).map (marked mark) := by
  rw [values_ofUpdates_const markedFields_const, map_fst_markedFields]

theorem readField_markedFields (fields : List κ) (mark : Option κ) (key : κ) :
    readField (ofUpdates (markedFields fields mark)) key =
      if key ∈ fields then marked mark key else .atom .null := by
  rw [readField, find_ofUpdates_const markedFields_const, map_fst_markedFields]
  split <;> rfl

theorem length_ne_or_exists_getElem_ne {keys₁ keys₂ : List κ} (h : keys₁ ≠ keys₂) :
    keys₁.length ≠ keys₂.length ∨
      keys₁.length = keys₂.length ∧
        ∃ (i : Nat) (h₁ : i < keys₁.length) (h₂ : i < keys₂.length), keys₁[i] ≠ keys₂[i] := by
  by_cases hlength : keys₁.length = keys₂.length
  · refine .inr ⟨hlength, ?_⟩
    by_contra hnone
    refine h (List.ext_getElem hlength fun i h₁ h₂ => ?_)
    by_contra hne
    exact hnone ⟨i, h₁, h₂, hne⟩
  · exact .inl hlength

variable (hashFunc) in
/-- With two orders of the fields there are values that the comparison by
position and the comparison by field judge differently. -/
theorem exists_marks {fields₁ fields₂ : List κ} (h : firstKeys fields₁ ≠ firstKeys fields₂) :
    ∃ mark₁ mark₂ : Option κ, ∀ fields : List κ, (∀ key ∈ fields₁, key ∈ fields) →
      ¬ PositionsRight hashFunc (ofUpdates (markedFields fields₁ mark₁))
        (ofUpdates (markedFields fields₂ mark₂)) fields := by
  rcases length_ne_or_exists_getElem_ne h with hlength | ⟨hlength, i, h₁, h₂, hne⟩
  · -- all fields are null: equal field by field, but not equally many are set
    refine ⟨none, none, fun fields _ hiff => hlength ?_⟩
    have hequal := hiff.mpr fun key _ => by
      simp [readField_markedFields, marked]
    simpa [values_markedFields] using hequal.length_eq
  · -- the fields at the first difference are the ones that are not null
    refine ⟨some (firstKeys fields₁)[i], some (firstKeys fields₂)[i], fun fields hfields hiff => ?_⟩
    have hequal : List.Forall₂ (fun v w => valueCompare hashFunc v w = .eq)
        ((firstKeys fields₁).map (marked (some (firstKeys fields₁)[i])))
        ((firstKeys fields₂).map (marked (some (firstKeys fields₂)[i]))) := by
      rw [List.forall₂_iff_get]
      refine ⟨by simpa using hlength, fun j hj₁ hj₂ => ?_⟩
      simp only [List.length_map] at hj₁ hj₂
      have hsame : ((firstKeys fields₁)[i] = (firstKeys fields₁)[j]) ↔
          (firstKeys fields₂)[i] = (firstKeys fields₂)[j] := by
        rw [(firstKeys_nodup fields₁).getElem_inj_iff, (firstKeys_nodup fields₂).getElem_inj_iff]
      by_cases hij : (firstKeys fields₁)[i] = (firstKeys fields₁)[j]
      · simp [marked, hij, hsame.mp hij]
      · simp [marked, hij, mt hsame.mpr hij]
    rw [← values_markedFields, ← values_markedFields] at hequal
    have hmem : (firstKeys fields₁)[i] ∈ fields₁ := mem_firstKeys.mp (List.getElem_mem h₁)
    have hread := hiff.mp hequal (firstKeys fields₁)[i] (hfields _ hmem)
    rw [readField_markedFields, readField_markedFields, if_pos hmem] at hread
    have hright : (if (firstKeys fields₁)[i] ∈ fields₂ then
        marked (some (firstKeys fields₂)[i]) (firstKeys fields₁)[i]
        else Value.atom .null) = .atom .null := by
      simp [marked, Ne.symm hne]
    rw [hright] at hread
    exact absurd (kind_eq_of_valueCompare_eq hread) (by simp [marked, Value.kind, Atom.kind])

namespace TupleObject

theorem comparesRight_iff {a b : TupleObject} :
    a.ComparesRight hashFunc b ↔
      (typeCompare a.type b.type = .eq →
        PositionsRight hashFunc a.values b.values (List.range a.types.length)) := by
  rw [ComparesRight, toValue, toValue, valueCompare_tuple, Ordering.then_eq_eq,
    valuesCompare_eq_iff]
  refine and_congr_right_iff.trans (imp_congr_right fun htype => ?_)
  have htypes : a.types.length = b.types.length := by
    rw [type, type, typeCompare, Ordering.then_eq_eq] at htype
    exact Std.LawfulEqCmp.compare_eq_iff_eq.mp htype.1
  rw [populate, populate, ← htypes, List.forall₂_map_left_iff, List.forall₂_map_right_iff,
    List.forall₂_same, PositionsRight]

theorem accepted_markedFields {n : Nat} {fields : List Nat} (hfields : ∀ key ∈ fields, key < n)
    (mark : Option Nat) :
    accepted (List.replicate n (.scalar .int))
        ((markedFields fields mark).map fun entry => ((entry.1 : Int), entry.2)) =
      markedFields fields mark := by
  induction fields with
  | nil => rfl
  | cons key fields ih =>
    have hkey : key < n := hfields key List.mem_cons_self
    have hcheck : check (List.replicate n (.scalar .int)) (key : Int)
        (marked mark key) = .ok () := by
      have hbounds : ¬((key : Int) < 0 ∨
          (List.replicate n (CqlType.scalar .int)).length ≤ (key : Int)) := by
        simp only [List.length_replicate]
        omega
      rw [check, if_neg hbounds]
      simp only [Int.toNat_natCast, List.getElem?_replicate, if_pos hkey]
      rw [marked]
      split <;> rfl
    have ih' := ih fun k hk => hfields k (List.mem_cons_of_mem _ hk)
    simp only [accepted, markedFields, List.map_cons, List.filterMap_cons,
      hcheck, Int.toNat_natCast] at ih' ⊢
    rw [ih']

/-- Two Tuples whose fields were set in one order, unless their types differ anyway. -/
theorem comparesRight_of_same_order
    {types₁ types₂ : List CqlType}
    {calls₁ calls₂ : List (Int × Value)}
    (h : typeCompare (.tuple types₁) (.tuple types₂) = .eq →
      order types₁ calls₁ = order types₂ calls₂) :
    (after types₁ calls₁).ComparesRight hashFunc (after types₂ calls₂) := by
  rw [comparesRight_iff, after_eq, after_eq]
  exact fun htypes => positionsRight_of_same_order (h htypes) fun key hkey =>
    List.mem_range.mpr (lt_of_mem_accepted hkey)

theorem comparesRight_iff_same_order (fields₁ fields₂ : List Nat) :
    (∀ types₁ types₂ calls₁ calls₂,
      (accepted types₁ calls₁).map Prod.fst = fields₁ →
      (accepted types₂ calls₂).map Prod.fst = fields₂ →
        (after types₁ calls₁).ComparesRight hashFunc (after types₂ calls₂)) ↔
      firstKeys fields₁ = firstKeys fields₂ := by
  constructor
  · intro hall
    by_contra hne
    obtain ⟨mark₁, mark₂, hmarks⟩ := exists_marks hashFunc hne
    obtain ⟨n, hn⟩ : ∃ n, ∀ key ∈ fields₁ ++ fields₂, key < n :=
      ⟨(fields₁ ++ fields₂).sum + 1, fun key hkey =>
        Nat.lt_succ_of_le (List.single_le_sum (by simp) key hkey)⟩
    have h₁ := accepted_markedFields (fun key hkey => hn key (List.mem_append_left _ hkey)) mark₁
    have h₂ := accepted_markedFields (fun key hkey => hn key (List.mem_append_right _ hkey)) mark₂
    have hright := hall _ _ _ _
      (by rw [h₁, map_fst_markedFields]) (by rw [h₂, map_fst_markedFields])
    rw [comparesRight_iff, after_eq, after_eq, h₁, h₂] at hright
    refine hmarks (List.range n) ?_ ?_
    · intro key hkey
      exact List.mem_range.mpr (hn key (List.mem_append_left _ hkey))
    · simpa using hright (typeCompare_self _)
  · intro hsame types₁ types₂ calls₁ calls₂ h₁ h₂
    refine comparesRight_of_same_order fun _ => ?_
    rw [order, order, h₁, h₂, hsame]

end TupleObject

namespace UserTypeValueObject

theorem map_fst_of_fieldsCompare {types₁ types₂ : List (Bytes × CqlType)}
    (hlength : types₁.length = types₂.length) (h : fieldsCompare types₁ types₂ = .eq) :
    types₁.map Prod.fst = types₂.map Prod.fst := by
  induction types₁ generalizing types₂ with
  | nil =>
    cases types₂ with
    | nil => rfl
    | cons => simp at hlength
  | cons entry₁ types₁ ih =>
    cases types₂ with
    | nil => simp at hlength
    | cons entry₂ types₂ =>
      rw [fieldsCompare, Ordering.then_eq_eq, Ordering.then_eq_eq,
        stringCompare, Ordering.then_eq_eq] at h
      obtain ⟨⟨-, hname⟩, -, hrest⟩ := h
      rw [List.map_cons, List.map_cons, Std.LawfulEqCmp.compare_eq_iff_eq.mp hname,
        ih (by simpa using hlength) hrest]

theorem comparesRight_iff {a b : UserTypeValueObject} :
    a.ComparesRight hashFunc b ↔
      (typeCompare a.type b.type = .eq →
        PositionsRight hashFunc a.values b.values a.types.keys) := by
  rw [ComparesRight, toValue, toValue, valueCompare_userTypeValue,
    Ordering.then_eq_eq, valuesCompare_eq_iff]
  refine and_congr_right_iff.trans (imp_congr_right fun htype => ?_)
  have htypes : a.types.keys = b.types.keys := by
    rw [type, type, typeCompare, Ordering.then_eq_eq, Ordering.then_eq_eq,
      Ordering.then_eq_eq] at htype
    exact map_fst_of_fieldsCompare (Std.LawfulEqCmp.compare_eq_iff_eq.mp htype.2.2.1) htype.2.2.2
  rw [populate, populate, ← htypes, List.forall₂_map_left_iff, List.forall₂_map_right_iff,
    List.forall₂_same, PositionsRight]
  simp only [true_and]

/-- A user type with integer fields of these names. -/
def intFields (fields : List Bytes) : OrderedTable Bytes CqlType :=
  ofUpdates (fields.map fun name => (name, .scalar .int))

theorem find_intFields {fields : List Bytes} {name : Bytes} (h : name ∈ fields) :
    (intFields fields).find name = some (.scalar .int) := by
  have hconst : ∀ entry ∈ fields.map fun name => (name, CqlType.scalar .int),
      entry.2 = (fun _ => CqlType.scalar .int) entry.1 := by
    intro entry hentry
    obtain ⟨field, -, rfl⟩ := List.mem_map.mp hentry
    rfl
  rw [intFields, find_ofUpdates_const (f := fun _ => .scalar .int) hconst, if_pos]
  simpa [Function.comp_def] using h

theorem accepted_markedFields {types : OrderedTable Bytes CqlType} {fields : List Bytes}
    (hfields : ∀ name ∈ fields, types.find name = some (.scalar .int)) (mark : Option Bytes) :
    accepted types (markedFields fields mark) = markedFields fields mark := by
  induction fields with
  | nil => rfl
  | cons name fields ih =>
    have hcheck : check types name (marked mark name) = .ok () := by
      rw [check, hfields name List.mem_cons_self, marked]
      simp only
      split <;> rfl
    have ih' := ih fun k hk => hfields k (List.mem_cons_of_mem _ hk)
    simp only [accepted, markedFields, List.map_cons, List.filterMap_cons, hcheck] at ih' ⊢
    rw [ih']

/-- Two user type values whose fields were set in one order, unless their types differ
anyway. -/
theorem comparesRight_of_same_order
    {keyspace₁ typeName₁ keyspace₂ typeName₂ : Option Bytes}
    {types₁ types₂ : OrderedTable Bytes CqlType}
    {calls₁ calls₂ : List (Bytes × Value)}
    (h : typeCompare (.udt keyspace₁ typeName₁ types₁.entries)
        (.udt keyspace₂ typeName₂ types₂.entries) = .eq →
      order types₁ calls₁ = order types₂ calls₂) :
    (after keyspace₁ typeName₁ types₁ calls₁).ComparesRight hashFunc
      (after keyspace₂ typeName₂ types₂ calls₂) := by
  rw [comparesRight_iff, after_eq, after_eq]
  exact fun htypes => positionsRight_of_same_order (h htypes) fun _ => mem_keys_of_mem_accepted

theorem comparesRight_iff_same_order (fields₁ fields₂ : List Bytes) :
    (∀ keyspace₁ typeName₁ types₁ calls₁ keyspace₂ typeName₂ types₂ calls₂,
      (accepted types₁ calls₁).map Prod.fst = fields₁ →
      (accepted types₂ calls₂).map Prod.fst = fields₂ →
        (after keyspace₁ typeName₁ types₁ calls₁).ComparesRight hashFunc
          (after keyspace₂ typeName₂ types₂ calls₂)) ↔
      firstKeys fields₁ = firstKeys fields₂ := by
  constructor
  · intro hall
    by_contra hne
    obtain ⟨mark₁, mark₂, hmarks⟩ := exists_marks hashFunc hne
    have hfound : ∀ name ∈ fields₁ ++ fields₂,
        (intFields (fields₁ ++ fields₂)).find name = some (.scalar .int) :=
      fun name hname => find_intFields hname
    have h₁ := accepted_markedFields
      (fun name hname => hfound name (List.mem_append_left _ hname)) mark₁
    have h₂ := accepted_markedFields
      (fun name hname => hfound name (List.mem_append_right _ hname)) mark₂
    have hright := hall none none _ _ none none _ _
      (by rw [h₁, map_fst_markedFields]) (by rw [h₂, map_fst_markedFields])
    rw [comparesRight_iff, after_eq, after_eq, h₁, h₂] at hright
    refine hmarks (intFields (fields₁ ++ fields₂)).keys ?_ (hright (typeCompare_self _))
    intro name hname
    by_contra hnot
    rw [← find_eq_none_iff, hfound name (List.mem_append_left _ hname)] at hnot
    cases hnot
  · intro hsame keyspace₁ typeName₁ types₁ calls₁ keyspace₂ typeName₂ types₂ calls₂ h₁ h₂
    refine comparesRight_of_same_order fun _ => ?_
    rw [order, order, h₁, h₂, hsame]

end UserTypeValueObject

end

/--
The comparison of two objects is right exactly if their types differ, or the values at the
same positions of their arrays agree exactly if those of the same fields do.

That is so if the fields were first set in one order. Of two other orders the comparison is
not right about all types and values.
-/
theorem compare_right_iff_same_order
    (hashFunc : Bytes → UInt32) :
    (∀ a b : TupleObject,
      a.ComparesRight hashFunc b ↔
        (typeCompare a.type b.type = .eq →
          PositionsRight hashFunc a.values b.values (List.range a.types.length))) ∧
    (∀ a b : UserTypeValueObject,
      a.ComparesRight hashFunc b ↔
        (typeCompare a.type b.type = .eq →
          PositionsRight hashFunc a.values b.values a.types.keys)) ∧
    (∀ types₁ types₂ calls₁ calls₂,
      (typeCompare (.tuple types₁) (.tuple types₂) = .eq →
        TupleObject.order types₁ calls₁ = TupleObject.order types₂ calls₂) →
      (TupleObject.after types₁ calls₁).ComparesRight hashFunc
        (TupleObject.after types₂ calls₂)) ∧
    (∀ keyspace₁ typeName₁ types₁ calls₁ keyspace₂ typeName₂ types₂ calls₂,
      (typeCompare (.udt keyspace₁ typeName₁ types₁.entries)
          (.udt keyspace₂ typeName₂ types₂.entries) = .eq →
        UserTypeValueObject.order types₁ calls₁ = UserTypeValueObject.order types₂ calls₂) →
      (UserTypeValueObject.after keyspace₁ typeName₁ types₁ calls₁).ComparesRight hashFunc
        (UserTypeValueObject.after keyspace₂ typeName₂ types₂ calls₂)) ∧
    (∀ fields₁ fields₂ : List Nat,
      (∀ types₁ types₂ calls₁ calls₂,
        (TupleObject.accepted types₁ calls₁).map Prod.fst = fields₁ →
        (TupleObject.accepted types₂ calls₂).map Prod.fst = fields₂ →
          (TupleObject.after types₁ calls₁).ComparesRight hashFunc
            (TupleObject.after types₂ calls₂)) ↔
        firstKeys fields₁ = firstKeys fields₂) ∧
    (∀ fields₁ fields₂ : List Bytes,
      (∀ keyspace₁ typeName₁ types₁ calls₁ keyspace₂ typeName₂ types₂ calls₂,
        (UserTypeValueObject.accepted types₁ calls₁).map Prod.fst = fields₁ →
        (UserTypeValueObject.accepted types₂ calls₂).map Prod.fst = fields₂ →
          (UserTypeValueObject.after keyspace₁ typeName₁ types₁
            calls₁).ComparesRight hashFunc
            (UserTypeValueObject.after keyspace₂ typeName₂ types₂ calls₂)) ↔
        firstKeys fields₁ = firstKeys fields₂) :=
  ⟨fun _ _ => TupleObject.comparesRight_iff, fun _ _ => UserTypeValueObject.comparesRight_iff,
    fun _ _ _ _ => TupleObject.comparesRight_of_same_order,
    fun _ _ _ _ _ _ _ _ => UserTypeValueObject.comparesRight_of_same_order,
    TupleObject.comparesRight_iff_same_order, UserTypeValueObject.comparesRight_iff_same_order⟩

def pairFromLeft : TupleObject :=
  .after [.scalar .int, .scalar .int] [(0, .atom (.long 1)), (1, .atom (.long 2))]

def pairFromRight : TupleObject :=
  .after [.scalar .int, .scalar .int] [(1, .atom (.long 2)), (0, .atom (.long 1))]

theorem compare_depends_on_order :
    pairFromLeft.populate = pairFromRight.populate ∧
      valueCompare (fun _ => 0) pairFromLeft.toValue pairFromRight.toValue =
        .lt := by
  refine ⟨rfl, ?_⟩
  have hfirst : valueCompare (fun _ => 0) (.atom (.long 1)) (.atom (.long 2)) = .lt := by
    rw [valueCompare_atom (show (Atom.long 1).kind = (Atom.long 2).kind from rfl)]
    decide
  rw [TupleObject.toValue, TupleObject.toValue, valueCompare_tuple]
  have hvalues : valuesCompare (fun _ => 0)
      [.atom (.long 1), .atom (.long 2)] [.atom (.long 2), .atom (.long 1)] =
      .lt := by
    rw [valuesCompare, hfirst]
    rfl
  exact hvalues

end Values
end ScyllaDriver
