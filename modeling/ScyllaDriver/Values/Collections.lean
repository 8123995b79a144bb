import ScyllaDriver.Library.OrderedTable
import ScyllaDriver.Values.Validate

/-!
# Collections and `Collection::find`

A `Cassandra\Collection` keeps its elements in a PHP array under numbers that are not given
twice. `find()` walks the array and asks PHP whether an element equals the argument; every
other operation on values goes by `php_scylladb_value_compare`.

For objects PHP asks the same handler, but takes an object to be equal to itself without
asking. For strings and doubles it has an equality of its own: strings are equal if they
denote the same number, a NaN does not equal a NaN, and the two zeros are equal.
-/

namespace ScyllaDriver
namespace Values

open CString FloatFormat

/-- A value with the handle of its object, which matters only if it is one. -/
structure Zval where
  value : Value
  object : Nat

/-- `php_scylladb_collection`; of its type the element type. -/
structure CollectionObject where
  valueType : CqlType
  values : OrderedTable Nat Zval
  /-- `nNextFreeElement`. -/
  nextFree : Nat

namespace CollectionObject

def new (valueType : CqlType) : CollectionObject where
  valueType := valueType
  values := .empty
  nextFree := 0

/-- `php_scylladb_collection_add`. -/
def append (self : CollectionObject) (object : Zval) : CollectionObject :=
  { self with
    values := self.values.update self.nextFree object
    nextFree := self.nextFree + 1 }

/-- `php_scylladb_collection_del`. -/
def del (self : CollectionObject) (index : Nat) : CollectionObject :=
  { self with values := self.values.erase index }

/-- Every element passed the check of the element type. -/
def Typed (self : CollectionObject) : Prop :=
  ∀ z ∈ self.values.values, validateObject z.value self.valueType = .ok ()

theorem typed_new (valueType : CqlType) : (new valueType).Typed :=
  fun _ hmem => (List.not_mem_nil hmem).elim

theorem Typed.append {self : CollectionObject} {object : Zval} (hself : self.Typed)
    (hobject : validateObject object.value self.valueType = .ok ()) :
    (self.append object).Typed := by
  intro z hmem
  rcases OrderedTable.mem_values_update hmem with rfl | hmem
  · exact hobject
  · exact hself z hmem

theorem Typed.del {self : CollectionObject} (hself : self.Typed) (index : Nat) :
    (self.del index).Typed := by
  intro z hmem
  obtain ⟨entry, hentry, rfl⟩ := List.mem_map.mp hmem
  exact hself _ (List.mem_map_of_mem (List.mem_of_mem_filter hentry))

end CollectionObject

/-- The values that equal null: the empty string, false and the zeros. -/
def isNullLike : Atom → Bool
  | .null | .false => true
  | .long value => value = 0
  | .double bits => binary64.position bits.toNat = 0
  | .string value => value = []
  | _ => false

/-- `==` of two doubles. -/
def doublesEqual (bits₁ bits₂ : UInt64) : Bool :=
  ¬ binary64.isNan bits₁.toNat ∧ ¬ binary64.isNan bits₂.toNat ∧
    binary64.position bits₁.toNat = binary64.position bits₂.toNat

/-- What PHP makes of two strings, and of two values of different kinds. A string equals
itself, and so do strings of digits that denote the same number. -/
structure LooseEquality where
  strings : Bytes → Bytes → Bool
  mixed : Atom → Atom → Bool
  strings_self : ∀ s, strings s s = true
  strings_digits : ∀ s t, s ≠ [] → t ≠ [] → s.all isdigit = true → t.all isdigit = true →
    Positional.value 10 (s.map digitValue) = Positional.value 10 (t.map digitValue) →
      strings s t = true

section Find

variable (hashFunc : Bytes → UInt32) (php : LooseEquality)

/-- `zend_compare` of two values that are not both objects, as far as it is equality. -/
def atomsEqual : Atom → Atom → Bool
  | .null, a => isNullLike a
  | a, .null => isNullLike a
  | .false, .false => true
  | .true, .true => true
  | .false, .true => false
  | .true, .false => false
  | .long value₁, .long value₂ => value₁ = value₂
  | .double bits₁, .double bits₂ => doublesEqual bits₁ bits₂
  | .string s, .string t => php.strings s t
  | a, b => php.mixed a b

def Value.isObject (value : Value) : Bool :=
  match value.kind with
  | .object _ => true
  | _ => false

/-- `is_equal_function`. -/
def isEqual (z₁ z₂ : Zval) : Bool :=
  if z₁.value.isObject && z₂.value.isObject then
    z₁.object = z₂.object ∨ valueCompare hashFunc z₁.value z₂.value = .eq
  else
    match z₁.value, z₂.value with
    | .atom a, .atom b => atomsEqual php a b
    | _, _ => false

/-- `php_scylladb_collection_find`. -/
def CollectionObject.find (self : CollectionObject) (object : Zval) : Option Nat :=
  (self.values.entries.find? fun entry => isEqual hashFunc php object entry.2).map Prod.fst

/-- The first element that compares equal. -/
def CollectionObject.firstEqual (self : CollectionObject) (object : Zval) : Option Nat :=
  (self.values.entries.find? fun entry =>
    valueCompare hashFunc object.value entry.2.value = .eq).map Prod.fst

/-- The pairs of values that PHP's equality and the comparison judge differently. -/
inductive Confused : Zval → Zval → Prop
  | strings {s t : Bytes} {o₁ o₂ : Nat} (hne : s ≠ t) (h : php.strings s t = true) :
      Confused ⟨.atom (.string s), o₁⟩ ⟨.atom (.string t), o₂⟩
  | nans {bits₁ bits₂ : UInt64} {o₁ o₂ : Nat}
      (h₁ : binary64.isNan bits₁.toNat) (h₂ : binary64.isNan bits₂.toNat) :
      Confused ⟨.atom (.double bits₁), o₁⟩ ⟨.atom (.double bits₂), o₂⟩
  | zeros {bits₁ bits₂ : UInt64} {o₁ o₂ : Nat} (hne : bits₁ ≠ bits₂)
      (h₁ : binary64.position bits₁.toNat = 0) (h₂ : binary64.position bits₂.toNat = 0) :
      Confused ⟨.atom (.double bits₁), o₁⟩ ⟨.atom (.double bits₂), o₂⟩
  | nullFirst {a : Atom} {o₁ o₂ : Nat} (hne : a ≠ .null) (h : isNullLike a = true) :
      Confused ⟨.atom .null, o₁⟩ ⟨.atom a, o₂⟩
  | nullSecond {a : Atom} {o₁ o₂ : Nat} (hne : a ≠ .null) (h : isNullLike a = true) :
      Confused ⟨.atom a, o₁⟩ ⟨.atom .null, o₂⟩
  | itself {v w : Value} {o : Nat} (hv : v.isObject = true) (hw : w.isObject = true)
      (h : valueCompare hashFunc v w ≠ .eq) :
      Confused ⟨v, o⟩ ⟨w, o⟩

end Find

/-- How PHP holds a value. -/
inductive Shape where
  | string
  | double
  | long
  | boolean
  | object
  | nothing
  deriving DecidableEq

def ScalarType.shape : ScalarType → Shape
  | .varchar | .text | .ascii => .string
  | .double => .double
  | .int => .long
  | .boolean => .boolean
  | _ => .object

def CqlType.shape : CqlType → Shape
  | .scalar type => type.shape
  | .custom _ => .nothing
  | _ => .object

def Value.shape (value : Value) : Shape :=
  match value.kind with
  | .string => .string
  | .double => .double
  | .long => .long
  | .true | .false => .boolean
  | .object _ => .object
  | .null => .nothing

theorem ScalarType.shape_of_accepts {type : ScalarType} {a : Atom} (h : type.accepts a = true) :
    (Value.atom a).shape = type.shape := by
  cases type <;> cases a <;> first | rfl | cases h

theorem shape_of_validateObject {value : Value} {type : CqlType}
    (h : validateObject value type = .ok ()) : value = .atom .null ∨ value.shape = type.shape := by
  by_cases hnull : value = .atom .null
  · exact .inl hnull
  refine .inr ?_
  cases hclass : type.containerClass with
  | some ce =>
    rw [validateObject_container hnull hclass, validateContainer] at h
    split at h
    · rename_i hkind
      rw [Value.shape, hkind]
      cases type <;> cases hclass <;> rfl
    · cases h
  | none =>
    cases type with
    | scalar scalarType =>
      cases value with
      | atom a =>
        rw [validateObject_scalar (fun ha => hnull (ha ▸ rfl))] at h
        split at h
        · rename_i haccepts
          exact ScalarType.shape_of_accepts haccepts
        · cases h
      | _ => cases h
    | custom name =>
      cases value with
      | atom a => cases a <;> first | exact absurd rfl hnull | cases h
      | _ => cases h
    | _ => cases hclass

section

variable {hashFunc : Bytes → UInt32} {php : LooseEquality}

theorem doublesEqual_iff {bits₁ bits₂ : UInt64} :
    (doublesEqual bits₁ bits₂ = true ↔ doubleCompare bits₁ bits₂ = .eq) ↔
      ¬ ((binary64.isNan bits₁.toNat ∧ binary64.isNan bits₂.toNat) ∨
        (bits₁ ≠ bits₂ ∧ binary64.position bits₁.toNat = 0 ∧
          binary64.position bits₂.toNat = 0)) := by
  rw [doubleCompare_eq_compare_rank, compare_eq_iff_eq, Ne, ← UInt64.toNat_inj, doublesEqual,
    decide_eq_true_eq]
  by_cases hnan₁ : binary64.isNan bits₁.toNat <;> by_cases hnan₂ : binary64.isNan bits₂.toNat
  · have hrank : binary64.rank bits₁.toNat = binary64.rank bits₂.toNat := by
      rw [Format.rank, if_pos hnan₁, Format.rank, if_pos hnan₂]
    simp [hnan₁, hnan₂, hrank]
  · have hrank := Format.rank_lt_of_isNan hnan₂ hnan₁
    simp [hnan₁, hnan₂, hrank.ne', Format.position_ne_zero_of_isNan hnan₁]
  · have hrank := Format.rank_lt_of_isNan hnan₁ hnan₂
    simp [hnan₁, hnan₂, hrank.ne, Format.position_ne_zero_of_isNan hnan₂]
  · rw [Format.rank_eq_iff hnan₁ hnan₂, Format.position_eq_iff]
    simp only [hnan₁, hnan₂, not_false_eq_true, true_and, false_and, false_or]
    tauto

/-- The equalities agree on two values. -/
def Agrees (hashFunc : Bytes → UInt32) (php : LooseEquality) (z₁ z₂ : Zval) : Prop :=
  isEqual hashFunc php z₁ z₂ = true ↔ valueCompare hashFunc z₁.value z₂.value = .eq

theorem valueCompare_ne_of_kind {v w : Value} (h : v.kind ≠ w.kind) :
    valueCompare hashFunc v w ≠ .eq :=
  fun heq => h (kind_eq_of_valueCompare_eq heq)

theorem compare_string_eq_iff {s t : Bytes} :
    valueCompare hashFunc (.atom (.string s)) (.atom (.string t)) = .eq ↔ s = t := by
  have hcompare : valueCompare hashFunc (.atom (.string s)) (.atom (.string t)) =
      compare s t := valueCompare_atom rfl
  rw [hcompare, Std.LawfulEqCmp.compare_eq_iff_eq]

theorem compare_long_eq_iff {m n : Int64} :
    valueCompare hashFunc (.atom (.long m)) (.atom (.long n)) = .eq ↔ m = n := by
  have hcompare : valueCompare hashFunc (.atom (.long m)) (.atom (.long n)) =
      compare m n := valueCompare_atom rfl
  rw [hcompare, compare_int64, compare_eq_iff_eq, Int64.toInt_inj]

variable {o₁ o₂ : Nat}

theorem agrees_doubles_iff {bits₁ bits₂ : UInt64} :
    Agrees hashFunc php ⟨.atom (.double bits₁), o₁⟩ ⟨.atom (.double bits₂), o₂⟩ ↔
      ¬ ((binary64.isNan bits₁.toNat ∧ binary64.isNan bits₂.toNat) ∨
        (bits₁ ≠ bits₂ ∧ binary64.position bits₁.toNat = 0 ∧
          binary64.position bits₂.toNat = 0)) := by
  have hcompare : valueCompare hashFunc (.atom (.double bits₁)) (.atom (.double bits₂)) =
      doubleCompare bits₁ bits₂ := valueCompare_atom rfl
  rw [Agrees, hcompare]
  exact doublesEqual_iff

theorem kind_ne_null {a : Atom} (ha : a ≠ .null) : a.kind ≠ .null := by
  cases a <;> first | exact absurd rfl ha | exact fun h => Kind.noConfusion h

/-- Of the values that are null to `==` on either side, the comparison takes only null itself
for null. -/
theorem agrees_null_iff {a : Atom} :
    (Agrees hashFunc php ⟨.atom .null, o₁⟩ ⟨.atom a, o₂⟩ ↔ ¬ (a ≠ .null ∧ isNullLike a = true)) ∧
      (Agrees hashFunc php ⟨.atom a, o₁⟩ ⟨.atom .null, o₂⟩ ↔
        ¬ (a ≠ .null ∧ isNullLike a = true)) := by
  have hfirst : isEqual hashFunc php ⟨.atom .null, o₁⟩ ⟨.atom a, o₂⟩ = isNullLike a := by
    cases a <;> rfl
  have hsecond : isEqual hashFunc php ⟨.atom a, o₁⟩ ⟨.atom .null, o₂⟩ = isNullLike a := by
    cases a <;> rfl
  rw [Agrees, Agrees, hfirst, hsecond]
  by_cases hnull : a = .null
  · subst hnull
    simp [isNullLike]
  · have hkind := kind_ne_null hnull
    simp [hnull, valueCompare_ne_of_kind (v := .atom a) (w := .atom .null) hkind,
      valueCompare_ne_of_kind (v := .atom .null) (w := .atom a) hkind.symm]

theorem Confused.not_agrees {z₁ z₂ : Zval} (h : Confused hashFunc php z₁ z₂) :
    ¬ Agrees hashFunc php z₁ z₂ := by
  cases h with
  | strings hne h => exact fun hagrees => hne (compare_string_eq_iff.mp (hagrees.mp h))
  | nans h₁ h₂ => exact fun hagrees => agrees_doubles_iff.mp hagrees (.inl ⟨h₁, h₂⟩)
  | zeros hne h₁ h₂ =>
    exact fun hagrees => agrees_doubles_iff.mp hagrees (.inr ⟨hne, h₁, h₂⟩)
  | nullFirst hne h => exact fun hagrees => agrees_null_iff.1.mp hagrees ⟨hne, h⟩
  | nullSecond hne h => exact fun hagrees => agrees_null_iff.2.mp hagrees ⟨hne, h⟩
  | itself hv hw hne =>
    intro hagrees
    exact hne (hagrees.mp (by simp [isEqual, hv, hw]))

theorem confused_of_objects {v w : Value} (hv : v.isObject = true) (hw : w.isObject = true)
    (h : ¬ Agrees hashFunc php ⟨v, o₁⟩ ⟨w, o₂⟩) :
    Confused hashFunc php ⟨v, o₁⟩ ⟨w, o₂⟩ := by
  have hequal : isEqual hashFunc php ⟨v, o₁⟩ ⟨w, o₂⟩ = true ↔
      o₁ = o₂ ∨ valueCompare hashFunc v w = .eq := by
    simp [isEqual, hv, hw]
  rw [Agrees, hequal] at h
  have hne : valueCompare hashFunc v w ≠ .eq := fun heq => h (iff_of_true (.inr heq) heq)
  have hsame : o₁ = o₂ := by
    by_contra hother
    exact h (iff_of_false (not_or.mpr ⟨hother, hne⟩) hne)
  subst hsame
  exact .itself hv hw hne

theorem confused_of_null_first {w : Value} (h : ¬ Agrees hashFunc php ⟨.atom .null, o₁⟩ ⟨w, o₂⟩) :
    Confused hashFunc php ⟨.atom .null, o₁⟩ ⟨w, o₂⟩ := by
  cases w with
  | atom a =>
    rw [agrees_null_iff.1, not_not] at h
    exact .nullFirst h.1 h.2
  | _ =>
    refine absurd (iff_of_false Bool.false_ne_true ?_) h
    exact valueCompare_ne_of_kind fun hkind => Kind.noConfusion hkind

theorem confused_of_null_second {v : Value} (h : ¬ Agrees hashFunc php ⟨v, o₁⟩ ⟨.atom .null, o₂⟩) :
    Confused hashFunc php ⟨v, o₁⟩ ⟨.atom .null, o₂⟩ := by
  cases v with
  | atom a =>
    rw [agrees_null_iff.2, not_not] at h
    exact .nullSecond h.1 h.2
  | _ =>
    refine absurd (iff_of_false Bool.false_ne_true ?_) h
    exact valueCompare_ne_of_kind fun hkind => Kind.noConfusion hkind

theorem confused_of_atoms {a b : Atom} (hshape : (Value.atom a).shape = (Value.atom b).shape)
    (hobject : (Value.atom a).shape ≠ .object)
    (h : ¬ Agrees hashFunc php ⟨.atom a, o₁⟩ ⟨.atom b, o₂⟩) :
    Confused hashFunc php ⟨.atom a, o₁⟩ ⟨.atom b, o₂⟩ := by
  have hself : ∀ c, b = c → a = c → isEqual hashFunc php ⟨.atom c, o₁⟩ ⟨.atom c, o₂⟩ = true →
      Confused hashFunc php ⟨.atom a, o₁⟩ ⟨.atom b, o₂⟩ := by
    rintro c rfl rfl hequal
    exact absurd (iff_of_true hequal (valueCompare_atom_self _)) h
  cases a with
  | null => exact confused_of_null_first h
  | false =>
    cases b with
    | false => exact hself _ rfl rfl rfl
    | true =>
      refine absurd (iff_of_false Bool.false_ne_true ?_) h
      exact valueCompare_ne_of_kind fun hkind => Kind.noConfusion hkind
    | _ => cases hshape
  | true =>
    cases b with
    | true => exact hself _ rfl rfl rfl
    | false =>
      refine absurd (iff_of_false Bool.false_ne_true ?_) h
      exact valueCompare_ne_of_kind fun hkind => Kind.noConfusion hkind
    | _ => cases hshape
  | long m =>
    cases b with
    | long n =>
      exact absurd (decide_eq_true_iff.trans compare_long_eq_iff.symm) h
    | _ => cases hshape
  | double bits₁ =>
    cases b with
    | double bits₂ =>
      rw [agrees_doubles_iff, not_not] at h
      rcases h with ⟨h₁, h₂⟩ | ⟨hne, h₁, h₂⟩
      · exact .nans h₁ h₂
      · exact .zeros hne h₁ h₂
    | _ => cases hshape
  | string s =>
    cases b with
    | string t =>
      have hne : s ≠ t := by
        rintro rfl
        exact h (iff_of_true (php.strings_self s) (valueCompare_atom_self _))
      refine .strings hne ?_
      by_contra hother
      exact h (iff_of_false hother (fun heq => hne (compare_string_eq_iff.mp heq)))
    | _ => cases hshape
  | _ => exact absurd rfl hobject

theorem Value.isObject_of_shape {value : Value} (h : value.shape = .object) :
    value.isObject = true := by
  cases value with
  | atom a => cases a <;> first | rfl | cases h
  | _ => rfl

theorem Value.exists_atom_of_shape {value : Value} (h : value.shape ≠ .object) :
    ∃ a, value = .atom a := by
  cases value with
  | atom a => exact ⟨a, rfl⟩
  | _ => exact absurd rfl h

/-- Two values of one type are confused exactly if the equalities differ on them. -/
theorem agrees_iff_not_confused {type : CqlType} {z₁ z₂ : Zval}
    (h₁ : validateObject z₁.value type = .ok ()) (h₂ : validateObject z₂.value type = .ok ()) :
    Agrees hashFunc php z₁ z₂ ↔ ¬ Confused hashFunc php z₁ z₂ := by
  refine ⟨fun hagrees hconfused => hconfused.not_agrees hagrees, fun hclear => ?_⟩
  by_contra hdiffer
  refine hclear ?_
  obtain ⟨v, o₁⟩ := z₁
  obtain ⟨w, o₂⟩ := z₂
  rcases shape_of_validateObject h₁ with hnull | hshape₁
  · obtain rfl : v = .atom .null := hnull
    exact confused_of_null_first hdiffer
  rcases shape_of_validateObject h₂ with hnull | hshape₂
  · obtain rfl : w = .atom .null := hnull
    exact confused_of_null_second hdiffer
  by_cases hobject : type.shape = .object
  · exact confused_of_objects (Value.isObject_of_shape (hshape₁.trans hobject))
      (Value.isObject_of_shape (hshape₂.trans hobject)) hdiffer
  · obtain ⟨a, rfl⟩ := Value.exists_atom_of_shape (hshape₁ ▸ hobject)
    obtain ⟨b, rfl⟩ := Value.exists_atom_of_shape (hshape₂ ▸ hobject)
    exact confused_of_atoms (hshape₁.trans hshape₂.symm) (hshape₁ ▸ hobject) hdiffer

/-- The first element that equals the argument in either way is not one of a confused pair. -/
def CollectionObject.Clear (hashFunc : Bytes → UInt32) (php : LooseEquality)
    (self : CollectionObject) (object : Zval) : Prop :=
  ∀ earlier entry later, self.values.entries = earlier ++ entry :: later →
    (∀ before ∈ earlier, isEqual hashFunc php object before.2 = false ∧
      valueCompare hashFunc object.value before.2.value ≠ .eq) →
        ¬ Confused hashFunc php object entry.2

/-- `find()` gives the index of the first element that compares equal to the argument, unless
an element that is confused with the argument comes first. -/
theorem find_right_iff
    {self : CollectionObject}
    {object : Zval}
    (hself : self.Typed)
    (hobject : validateObject object.value self.valueType = .ok ()) :
    self.find hashFunc php object = self.firstEqual hashFunc object ↔
      self.Clear hashFunc php object := by
  unfold CollectionObject.find CollectionObject.firstEqual CollectionObject.Clear
  rw [OrderedTable.map_fst_find_eq_iff self.values.distinct]
  refine forall_congr' fun earlier => forall_congr' fun entry => forall_congr' fun later =>
    forall_congr' fun heq => ?_
  have hmem : entry.2 ∈ self.values.values := by
    rw [OrderedTable.values, heq]
    exact List.mem_map_of_mem (List.mem_append_right _ List.mem_cons_self)
  have hagrees : Agrees hashFunc php object entry.2 ↔ ¬ Confused hashFunc php object entry.2 :=
    agrees_iff_not_confused hobject (hself _ hmem)
  rw [Agrees, ← decide_eq_true_iff (p := valueCompare _ _ _ = _), ← Bool.eq_iff_iff] at hagrees
  rw [hagrees]
  simp only [decide_eq_false_iff_not, ne_eq]

theorem clear_long (self : CollectionObject) {n : Int64} (hn : n ≠ 0) (o : Nat) :
    self.Clear hashFunc php ⟨.atom (.long n), o⟩ := by
  intro earlier entry later _ _ hconfused
  generalize entry.2 = z at hconfused
  cases hconfused with
  | nullSecond _ hlike => exact hn (of_decide_eq_true hlike)
  | itself hobject => cases hobject

end

/-- PHP's equality on strings of digits, and no more than that. -/
def digitEquality : LooseEquality where
  strings s t := s = t ∨ (s ≠ [] ∧ t ≠ [] ∧ s.all isdigit = true ∧ t.all isdigit = true ∧
    Positional.value 10 (s.map digitValue) = Positional.value 10 (t.map digitValue))
  mixed _ _ := false
  strings_self := by simp
  strings_digits s t hs ht hs' ht' h := by simp [hs, ht, hs', ht', h]

def twoNumbers : CollectionObject :=
  ((CollectionObject.new (.scalar .int)).append ⟨.atom (.long 1), 0⟩).append ⟨.atom (.long 2), 0⟩

theorem find_right_in_twoNumbers :
    twoNumbers.find (fun _ => 0) digitEquality ⟨.atom (.long 2), 0⟩ =
      twoNumbers.firstEqual (fun _ => 0) ⟨.atom (.long 2), 0⟩ :=
  (find_right_iff (((CollectionObject.typed_new _).append rfl).append rfl) rfl).mpr
    (clear_long _ (by decide) 0)

/-- The text `01` is found for the text `1`. -/
theorem find_takes_numeric_text :
    ((CollectionObject.new (.scalar .text)).append ⟨.atom (.string (ascii "01")), 0⟩).find
        (fun _ => 0) digitEquality ⟨.atom (.string (ascii "1")), 0⟩ = some 0 ∧
      ((CollectionObject.new (.scalar .text)).append
        ⟨.atom (.string (ascii "01")), 0⟩).firstEqual (fun _ => 0)
          ⟨.atom (.string (ascii "1")), 0⟩ = none := by
  have hne : valueCompare (fun _ => 0) (.atom (.string (ascii "1")))
      (.atom (.string (ascii "01"))) ≠ .eq := fun h =>
    absurd (compare_string_eq_iff.mp h) (by decide)
  refine ⟨by decide, congrArg (Option.map Prod.fst) (List.find?_cons_of_neg ?_)⟩
  simpa using hne

end Values
end ScyllaDriver
