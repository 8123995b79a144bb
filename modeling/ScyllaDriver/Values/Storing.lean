import ScyllaDriver.Values.Collections
import ScyllaDriver.Values.FieldObjects
import ScyllaDriver.Values.SetAndMap

/-!
# Values are stored or refused with an exception

The methods that put values into a container, `set()`, `add()` and the `create()` of the type
classes, make their checks one after the other and return as soon as one fails. They raise
no exception of their own when `php_scylladb_validate_object` fails, so the caller learns of
it only if that function raised one.

Each call is broken up here into its elementary checks; a call is silent exactly if the first
of them that fails is a container of the expected class with another type.
-/

namespace ScyllaDriver
namespace Values

open CString

/-- A loop of calls that ends with the first refusal. -/
def storeAll {σ α : Type} (store : σ → α → Except Refusal Unit × σ) :
    σ → List α → Except Refusal Unit × σ
  | self, [] => (.ok (), self)
  | self, a :: as =>
    match store self a with
    | (.error e, self) => (.error e, self)
    | (.ok (), self) => storeAll store self as

def checkAll {α : Type} (check : α → Except Refusal Unit) : List α → Except Refusal Unit
  | [] => .ok ()
  | a :: as =>
    match check a with
    | .error e => .error e
    | .ok () => checkAll check as

def argPairs {α : Type} : List α → List (α × α)
  | a :: b :: rest => (a, b) :: argPairs rest
  | _ => []

namespace CollectionObject

/-- The checks of `Collection::add`. -/
def checkElement (valueType : CqlType) (object : Zval) : Except Refusal Unit :=
  if object.value.kind = .null then
    .error (.invalid "Invalid value: null is not supported inside collections")
  else
    validateObject object.value valueType

/-- `Collection::add`: all arguments are checked before the first one is added. -/
def add (self : CollectionObject) (args : List Zval) : Except Refusal Unit × CollectionObject :=
  match checkAll (checkElement self.valueType) args with
  | .error e => (.error e, self)
  | .ok () => (.ok (), args.foldl append self)

/-- The loop body of `Type\Collection::create`, which takes null. -/
def createStep (self : CollectionObject) (object : Zval) : Except Refusal Unit × CollectionObject :=
  match validateObject object.value self.valueType with
  | .error e => (.error e, self)
  | .ok () => (.ok (), self.append object)

/-- `Type\Collection::create`. -/
def create (valueType : CqlType) (args : List Zval) : Except Refusal Unit × CollectionObject :=
  storeAll createStep (.new valueType) args

end CollectionObject

namespace TupleObject

/-- The loop body of `Type\Tuple::create`. -/
def createStep (self : TupleObject) (field : Value × Nat) : Except Refusal Unit × TupleObject :=
  match self.types[field.2]? with
  | none => (.error .silent, self)
  | some subType =>
    match validateObject field.1 subType with
    | .error e => (.error e, self)
    | .ok () => (.ok (), { self with values := self.values.update field.2 field.1 })

/-- `Type\Tuple::create`. -/
def create (types : List CqlType) (args : List Value) : Except Refusal Unit × TupleObject :=
  if args ≠ [] ∧ args.length ≠ types.length then
    (.error (.invalid "Invalid number of elements given. Expected %d arguments."), .new types)
  else
    storeAll createStep (.new types) args.zipIdx

end TupleObject

namespace UserTypeValueObject

/-- The loop body of `Type\UserType::create`. -/
def createStep (self : UserTypeValueObject) (field : Value × Value) :
    Except Refusal Unit × UserTypeValueObject :=
  match field.1 with
  | .atom (.string name) =>
    match self.types.find name with
    | none => (.error (.invalid "Invalid name '%s'"), self)
    | some subType =>
      match validateObject field.2 subType with
      | .error e => (.error e, self)
      | .ok () => (.ok (), { self with values := self.values.update name field.2 })
  | _ => (.error (.invalid "Argument %d is not a string"), self)

/-- `Type\UserType::create`. -/
def create (keyspace typeName : Option Bytes) (types : OrderedTable Bytes CqlType)
    (args : List Value) : Except Refusal Unit × UserTypeValueObject :=
  if args.length % 2 = 1 then
    (.error (.invalid ("Not enough name/value pairs, user_types can only be created " ++
      "from an even number of name/value pairs, where each odd " ++
      "argument is a name and each even argument is a value, " ++
      "e.g user_type(name, value, name, value, name, value)")), .new keyspace typeName types)
  else
    storeAll createStep (.new keyspace typeName types) (argPairs args)

end UserTypeValueObject

section Calls

variable (hashFunc : Bytes → UInt32)

/-- `Type\Set::create`. -/
def SetObject.create (valueType : CqlType) (args : List Value) : Except Refusal Unit × SetObject :=
  storeAll (SetObject.add hashFunc) (.new valueType) args

/-- `Type\Map::create`. -/
def MapObject.create (keyType valueType : CqlType) (args : List Value) :
    Except Refusal Unit × MapObject :=
  if args.length % 2 = 1 then
    (.error (.invalid ("Not enough values, maps can only be created " ++
      "from an even number of values, where each odd " ++
      "value is a key and each even value is a value, " ++
      "e.g create(key, value, key, value, key, value)")), .new keyType valueType)
  else
    storeAll (fun self entry => self.set hashFunc entry.1 entry.2) (.new keyType valueType)
      (argPairs args)

/-- `php_scylladb_validate_object` and its callers. -/
inductive Call where
  | validate (object : Value) (type : CqlType)
  | tupleSet (self : TupleObject) (index : Int) (object : Value)
  | userTypeValueSet (self : UserTypeValueObject) (name : Bytes) (object : Value)
  | setAdd (self : SetObject) (object : Value)
  | mapSet (self : MapObject) (key value : Value)
  | collectionAdd (self : CollectionObject) (args : List Zval)
  | createTuple (types : List CqlType) (args : List Value)
  | createUserType (keyspace typeName : Option Bytes) (types : OrderedTable Bytes CqlType)
      (args : List Value)
  | createSet (valueType : CqlType) (args : List Value)
  | createMap (keyType valueType : CqlType) (args : List Value)
  | createCollection (valueType : CqlType) (args : List Zval)

def Call.verdict : Call → Except Refusal Unit
  | .validate object type => validateObject object type
  | .tupleSet self index object => (self.set index object).1
  | .userTypeValueSet self name object => (self.set name object).1
  | .setAdd self object => (self.add hashFunc object).1
  | .mapSet self key value => (self.set hashFunc key value).1
  | .collectionAdd self args => (self.add args).1
  | .createTuple types args => (TupleObject.create types args).1
  | .createUserType keyspace typeName types args =>
    (UserTypeValueObject.create keyspace typeName types args).1
  | .createSet valueType args => (SetObject.create hashFunc valueType args).1
  | .createMap keyType valueType args => (MapObject.create hashFunc keyType valueType args).1
  | .createCollection valueType args => (CollectionObject.create valueType args).1

/-- The set has the value, or one that compares equal to it. -/
def SetObject.Has (self : SetObject) (object : Value) : Prop :=
  ∃ entry ∈ self.entries.items, entry.key = object ∨ sameValue hashFunc entry.key object = true

/-- The map has the value under the key, or under one that compares equal to it. -/
def MapObject.Has (self : MapObject) (entry : Value × Value) : Prop :=
  ∃ stored ∈ self.entries.items, (stored.key = entry.1 ∨
    sameValue hashFunc stored.key entry.1 = true) ∧ stored.value = entry.2

def TupleObject.Has (self : TupleObject) (field : Value × Nat) : Prop :=
  self.values.find field.2 = some field.1

def UserTypeValueObject.Has (self : UserTypeValueObject) (field : Value × Value) : Prop :=
  ∃ name, field.1 = .atom (.string name) ∧ self.values.find name = some field.2

def CollectionObject.Has (self : CollectionObject) (object : Zval) : Prop :=
  object ∈ self.values.values

/-- Every value is in the container after its turn. A later one may take its place, as the
same key or name may be given twice. -/
def StoredInTurn {σ α : Type} (store : σ → α → Except Refusal Unit × σ) (Has : σ → α → Prop) :
    σ → List α → Prop
  | _, [] => True
  | self, a :: as => Has (store self a).2 a ∧ StoredInTurn store Has (store self a).2 as

/-- The call stores all values that it was given. -/
def Call.Stores : Call → Prop
  | .validate _ _ => True
  | .tupleSet self index object => (self.set index object).2.Has (object, index.toNat)
  | .userTypeValueSet self name object =>
    (self.set name object).2.Has (.atom (.string name), object)
  | .setAdd self object => (self.add hashFunc object).2.Has hashFunc object
  | .mapSet self key value => (self.set hashFunc key value).2.Has hashFunc (key, value)
  | .collectionAdd self args => ∀ object ∈ args, (self.add args).2.Has object
  | .createTuple types args =>
    StoredInTurn TupleObject.createStep TupleObject.Has (.new types) args.zipIdx
  | .createUserType keyspace typeName types args =>
    StoredInTurn UserTypeValueObject.createStep UserTypeValueObject.Has
      (.new keyspace typeName types) (argPairs args)
  | .createSet valueType args =>
    StoredInTurn (SetObject.add hashFunc) (SetObject.Has hashFunc) (.new valueType) args
  | .createMap keyType valueType args =>
    StoredInTurn (fun self entry => self.set hashFunc entry.1 entry.2) (MapObject.Has hashFunc)
      (.new keyType valueType) (argPairs args)
  | .createCollection valueType args =>
    StoredInTurn CollectionObject.createStep CollectionObject.Has (.new valueType) args

/-- The call stores its values or ends with an exception. -/
def Call.Loud (call : Call) : Prop :=
  call.verdict hashFunc ≠ .error .silent ∧ (call.verdict hashFunc = .ok () → call.Stores hashFunc)

end Calls

/-- One check: an exception that is due anyway, or a value against its type. -/
inductive Check where
  | refuse (text : String)
  | validate (object : Value) (type : CqlType)

def Check.verdict : Check → Except Refusal Unit
  | .refuse text => .error (.invalid text)
  | .validate object type => validateObject object type

/-- Null is refused in this place. -/
def notNull (object : Value) (text : String) : List Check :=
  if object.kind = .null then [.refuse text] else []

def SetObject.checks (valueType : CqlType) (object : Value) : List Check :=
  notNull object "Invalid value: null is not supported inside sets" ++ [.validate object valueType]

def MapObject.checks (keyType valueType : CqlType) (entry : Value × Value) : List Check :=
  notNull entry.1 "Invalid key: null is not supported inside maps" ++
    notNull entry.2 "Invalid value: null is not supported inside maps" ++
      [.validate entry.1 keyType, .validate entry.2 valueType]

def CollectionObject.checks (valueType : CqlType) (object : Zval) : List Check :=
  notNull object.value "Invalid value: null is not supported inside collections" ++
    [.validate object.value valueType]

def TupleObject.checks (types : List CqlType) (field : Value × Nat) : List Check :=
  match types[field.2]? with
  | none => [.refuse "Index out of bounds"]
  | some subType => [.validate field.1 subType]

def UserTypeValueObject.checks (types : OrderedTable Bytes CqlType) (text : String)
    (name : Bytes) (object : Value) : List Check :=
  match types.find name with
  | none => [.refuse text]
  | some subType => [.validate object subType]

def UserTypeValueObject.createChecks (types : OrderedTable Bytes CqlType)
    (field : Value × Value) : List Check :=
  match field.1 with
  | .atom (.string name) => checks types "Invalid name '%s'" name field.2
  | _ => [.refuse "Argument %d is not a string"]

/-- The checks of a call in their order. -/
def Call.checks : Call → List Check
  | .validate object type => [.validate object type]
  | .tupleSet self index object =>
    if index < 0 then [.refuse "Index out of bounds"]
    else TupleObject.checks self.types (object, index.toNat)
  | .userTypeValueSet self name object =>
    UserTypeValueObject.checks self.types "Invalid name '%.*s'" name object
  | .setAdd self object => SetObject.checks self.valueType object
  | .mapSet self key value => MapObject.checks self.keyType self.valueType (key, value)
  | .collectionAdd self args => args.flatMap (CollectionObject.checks self.valueType)
  | .createTuple types args =>
    if args ≠ [] ∧ args.length ≠ types.length then
      [.refuse "Invalid number of elements given. Expected %d arguments."]
    else args.zipIdx.flatMap (TupleObject.checks types)
  | .createUserType _ _ types args =>
    if args.length % 2 = 1 then
      [.refuse ("Not enough name/value pairs, user_types can only be created " ++
        "from an even number of name/value pairs, where each odd " ++
        "argument is a name and each even argument is a value, " ++
        "e.g user_type(name, value, name, value, name, value)")]
    else (argPairs args).flatMap (UserTypeValueObject.createChecks types)
  | .createSet valueType args => args.flatMap (SetObject.checks valueType)
  | .createMap keyType valueType args =>
    if args.length % 2 = 1 then
      [.refuse ("Not enough values, maps can only be created " ++
        "from an even number of values, where each odd " ++
        "value is a key and each even value is a value, " ++
        "e.g create(key, value, key, value, key, value)")]
    else (argPairs args).flatMap (MapObject.checks keyType valueType)
  | .createCollection valueType args =>
    args.flatMap fun object => [.validate object.value valueType]

/-- A container of the class that the type calls for, with a type of its own that differs. -/
def Mismatched (object : Value) (type : CqlType) : Prop :=
  ∃ ce own, type.containerClass = some ce ∧ object.kind = .object ce ∧
    object.type? = some own ∧ typeCompare own type ≠ .eq

/-- What a type takes: null, a value of the kind of a scalar type, or a container of the class
and the type of a nested one. -/
inductive Takes : Value → CqlType → Prop
  | null (type : CqlType) : Takes (.atom .null) type
  | scalar {a : Atom} {type : ScalarType} (h : type.accepts a = true) :
      Takes (.atom a) (.scalar type)
  | container {object : Value} {type own : CqlType} {ce : ValueClass}
      (hclass : type.containerClass = some ce) (hkind : object.kind = .object ce)
      (hown : object.type? = some own) (h : typeCompare own type = .eq) :
      Takes object type

/-- The check raises no exception and finds nothing to refuse. -/
def Check.Passes : Check → Prop
  | .refuse _ => False
  | .validate object type => Takes object type

/-- No argument is a container of another type, unless a check before it fails. -/
def Call.NoMismatch (call : Call) : Prop :=
  ∀ earlier object type later, call.checks = earlier ++ .validate object type :: later →
    (∀ check ∈ earlier, check.Passes) → ¬ Mismatched object type

variable {ce : ValueClass} {object : Value} {type : CqlType}

theorem validateContainer_eq_ok_iff :
    validateContainer object type ce = .ok () ↔
      object.kind = .object ce ∧ ∃ own, object.type? = some own ∧ typeCompare own type = .eq := by
  unfold validateContainer
  split
  · rename_i hkind
    rw [← Option.map_eq_some_iff]
    split <;> simp_all
  · rename_i hkind
    simp [hkind]

theorem exists_type_of_kind (hclass : type.containerClass = some ce)
    (hkind : object.kind = .object ce) :
    ∃ own, object.type? = some own := by
  cases object with
  | atom a => cases type <;> cases hclass <;> cases a <;> cases hkind
  | collection own | set own | map own | tuple own | userTypeValue own => exact ⟨own, rfl⟩

theorem validateContainer_eq_silent_iff (hclass : type.containerClass = some ce) :
    validateContainer object type ce = .error .silent ↔
      object.kind = .object ce ∧ ∃ own, object.type? = some own ∧ typeCompare own type ≠ .eq := by
  unfold validateContainer
  split
  · rename_i hkind
    obtain ⟨own, hown⟩ := exists_type_of_kind hclass hkind
    simp [hkind, hown]
  · rename_i hkind
    simp [hkind]

theorem validateObject_null (type : CqlType) : validateObject (.atom .null) type = .ok () := by
  cases type <;> rfl

theorem validateObject_simple (hnull : object ≠ .atom .null) (hclass : type.containerClass = none) :
    (∃ a scalarType, object = .atom a ∧ type = .scalar scalarType ∧
        scalarType.accepts a = true ∧ validateObject object type = .ok ()) ∨
      ((∀ a scalarType, object = .atom a → type = .scalar scalarType →
          scalarType.accepts a = false) ∧
        ∃ expected, validateObject object type = .error (.expecting expected)) := by
  cases type with
  | scalar scalarType =>
    cases object with
    | atom a =>
      rw [validateObject_scalar (fun h => hnull (congrArg _ h))]
      cases haccepts : scalarType.accepts a with
      | true => exact .inl ⟨a, scalarType, rfl, rfl, haccepts, rfl⟩
      | false =>
        refine .inr ⟨?_, _, rfl⟩
        rintro _ _ ⟨⟩ ⟨⟩
        exact haccepts
    | _ => exact .inr ⟨fun _ _ h => (nomatch h), _, rfl⟩
  | custom name =>
    refine .inr ⟨fun _ _ _ h => (nomatch h), "a simple Cassandra value", ?_⟩
    cases object with
    | atom a => cases a <;> first | rfl | exact absurd rfl hnull
    | _ => rfl
  | _ => cases hclass

theorem validateObject_eq_ok_iff :
    validateObject object type = .ok () ↔ Takes object type := by
  by_cases hnull : object = .atom .null
  · subst hnull
    exact iff_of_true (validateObject_null type) (.null type)
  cases hclass : type.containerClass with
  | some ce =>
    rw [validateObject_container hnull hclass, validateContainer_eq_ok_iff]
    constructor
    · rintro ⟨hkind, own, hown, h⟩
      exact .container hclass hkind hown h
    · intro h
      cases h with
      | null => exact absurd rfl hnull
      | scalar => cases hclass
      | container hclass' hkind hown h =>
        cases hclass.symm.trans hclass'
        exact ⟨hkind, _, hown, h⟩
  | none =>
    obtain ⟨a, scalarType, rfl, rfl, haccepts, hok⟩ | ⟨hrefused, expected, herror⟩ :=
      validateObject_simple hnull hclass
    · exact iff_of_true hok (.scalar haccepts)
    · refine iff_of_false (by simp [herror]) ?_
      intro h
      cases h with
      | null => exact hnull rfl
      | scalar haccepts => exact absurd haccepts (by simp [hrefused _ _ rfl rfl])
      | container hclass' => cases hclass.symm.trans hclass'

theorem validateObject_eq_silent_iff :
    validateObject object type = .error .silent ↔ Mismatched object type := by
  unfold Mismatched
  by_cases hnull : object = .atom .null
  · subst hnull
    refine iff_of_false (by simp [validateObject_null]) ?_
    rintro ⟨ce, own, -, hkind, -⟩
    cases hkind
  cases hclass : type.containerClass with
  | some ce =>
    rw [validateObject_container hnull hclass, validateContainer_eq_silent_iff hclass]
    constructor
    · rintro ⟨hkind, own, hown⟩
      exact ⟨ce, own, rfl, hkind, hown⟩
    · rintro ⟨_, own, ⟨⟩, hkind, hown⟩
      exact ⟨hkind, own, hown⟩
  | none =>
    refine iff_of_false ?_ (by simp)
    obtain ⟨a, scalarType, -, -, -, hok⟩ | ⟨-, expected, herror⟩ :=
      validateObject_simple hnull hclass
    · simp [hok]
    · simp [herror]

theorem Check.verdict_eq_ok_iff (check : Check) : check.verdict = .ok () ↔ check.Passes := by
  cases check with
  | refuse text => simp [Check.verdict, Check.Passes]
  | validate object type => exact validateObject_eq_ok_iff

theorem Check.verdict_eq_silent_iff (check : Check) :
    check.verdict = .error .silent ↔
      ∃ object type, check = .validate object type ∧ Mismatched object type := by
  cases check with
  | refuse text => simp [Check.verdict]
  | validate object type => simp [Check.verdict, validateObject_eq_silent_iff]

section InARow

variable {α : Type} {check : α → Except Refusal Unit}

@[simp] theorem checkAll_append (as bs : List α) :
    checkAll check (as ++ bs) =
      match checkAll check as with
      | .error e => .error e
      | .ok () => checkAll check bs := by
  induction as with
  | nil => rfl
  | cons a as ih =>
    rw [List.cons_append, checkAll, checkAll]
    cases check a with
    | error e => rfl
    | ok => exact ih

theorem checkAll_eq_error_iff (as : List α) (e : Refusal) :
    checkAll check as = .error e ↔
      ∃ earlier a later, as = earlier ++ a :: later ∧
        (∀ b ∈ earlier, check b = .ok ()) ∧ check a = .error e := by
  induction as with
  | nil => simp [checkAll]
  | cons b bs ih =>
    rw [checkAll]
    constructor
    · intro h
      cases hb : check b with
      | error e' =>
        rw [hb] at h
        exact ⟨[], b, bs, rfl, by simp, hb.trans h⟩
      | ok =>
        rw [hb] at h
        obtain ⟨earlier, a, later, rfl, hok, ha⟩ := ih.mp h
        exact ⟨b :: earlier, a, later, rfl, by simpa using ⟨hb, hok⟩, ha⟩
    · rintro ⟨earlier, a, later, heq, hok, ha⟩
      cases earlier with
      | nil =>
        cases heq
        rw [ha]
      | cons c earlier =>
        cases heq
        rw [hok b List.mem_cons_self]
        exact ih.mpr ⟨earlier, a, later, rfl, fun d hd => hok d (.tail _ hd), ha⟩

theorem storeAll_fst {σ : Type} {store : σ → α → Except Refusal Unit × σ} {checks : α → List Check}
    {I : σ → Prop} (as : List α)
    (hround : ∀ self, I self → ∀ a ∈ as,
      (store self a).1 = checkAll Check.verdict (checks a) ∧ I (store self a).2) {self : σ}
    (hinv : I self) : (storeAll store self as).1 = checkAll Check.verdict (as.flatMap checks) := by
  induction as generalizing self with
  | nil => rfl
  | cons a as ih =>
    obtain ⟨hverdict, hnext⟩ := hround self hinv a List.mem_cons_self
    rw [storeAll, List.flatMap_cons, checkAll_append, ← hverdict]
    generalize store self a = result at hnext ⊢
    obtain ⟨verdict, next⟩ := result
    cases verdict with
    | error e => rfl
    | ok => exact ih (fun self hinv b hb => hround self hinv b (.tail _ hb)) hnext

/-- A loop that is not left early has stored every value in its turn. -/
theorem storedInTurn {σ : Type} {store : σ → α → Except Refusal Unit × σ} {Has : σ → α → Prop}
    (hround : ∀ self a, (store self a).1 = .ok () → Has (store self a).2 a) {self : σ} {as : List α}
    (hok : (storeAll store self as).1 = .ok ()) : StoredInTurn store Has self as := by
  induction as generalizing self with
  | nil => trivial
  | cons a as ih =>
    have hhas := hround self a
    rw [storeAll] at hok
    rw [StoredInTurn]
    generalize store self a = result at hok hhas ⊢
    obtain ⟨verdict, next⟩ := result
    cases verdict with
    | error e => cases hok
    | ok => exact ⟨hhas rfl, ih hok⟩

end InARow

theorem checkAll_notNull (object : Value) (text : String) :
    checkAll Check.verdict (notNull object text) =
      if object.kind = .null then .error (.invalid text) else .ok () := by
  unfold notNull
  split
  · rfl
  · rfl

theorem checkAll_validate (object : Value) (type : CqlType) :
    checkAll Check.verdict [.validate object type] = validateObject object type := by
  rw [checkAll, Check.verdict]
  cases validateObject object type with
  | error e => rfl
  | ok => rfl

section Methods

variable (hashFunc : Bytes → UInt32)

theorem SetObject.add_fst (self : SetObject) (object : Value) :
    (self.add hashFunc object).1 = checkAll Check.verdict (checks self.valueType object) := by
  rw [SetObject.checks, checkAll_append, checkAll_notNull, checkAll_validate, SetObject.add]
  split
  · rfl
  · cases validateObject object self.valueType with
    | error e => rfl
    | ok => dsimp only; split <;> rfl

theorem SetObject.add_valueType (self : SetObject) (object : Value) :
    (self.add hashFunc object).2.valueType = self.valueType := by
  unfold SetObject.add
  repeat' split
  all_goals rfl

theorem SetObject.has_add (self : SetObject) (object : Value)
    (hok : (self.add hashFunc object).1 = .ok ()) :
    (self.add hashFunc object).2.Has hashFunc object := by
  unfold SetObject.add at hok ⊢
  split at hok
  · cases hok
  split at hok
  · cases hok
  rename_i hkind _ hvalid
  rw [if_neg hkind]
  split
  · rename_i entry hfind
    obtain ⟨hmem, hsame⟩ := ChainedTable.mem_of_find hfind
    exact ⟨entry, hmem, .inr hsame⟩
  · refine ⟨⟨self.entries.fresh, object, (), valueHash hashFunc object⟩, ?_, .inl rfl⟩
    rw [ChainedTable.items_add]
    exact List.mem_append_right _ List.mem_cons_self

theorem MapObject.set_fst (self : MapObject) (key value : Value) :
    (self.set hashFunc key value).1 =
      checkAll Check.verdict (checks self.keyType self.valueType (key, value)) := by
  rw [MapObject.checks, checkAll_append, checkAll_append, checkAll_notNull, checkAll_notNull,
    checkAll, checkAll_validate, Check.verdict, MapObject.set]
  split
  · rfl
  split
  · rfl
  cases validateObject key self.keyType with
  | error e => rfl
  | ok =>
    cases validateObject value self.valueType with
    | error e => rfl
    | ok => dsimp only; split <;> rfl

theorem MapObject.set_types (self : MapObject) (key value : Value) :
    (self.set hashFunc key value).2.keyType = self.keyType ∧
      (self.set hashFunc key value).2.valueType = self.valueType := by
  unfold MapObject.set
  repeat' split
  all_goals exact ⟨rfl, rfl⟩

theorem MapObject.has_set (self : MapObject) (key value : Value)
    (hok : (self.set hashFunc key value).1 = .ok ()) :
    (self.set hashFunc key value).2.Has hashFunc (key, value) := by
  unfold MapObject.set at hok ⊢
  split at hok
  · cases hok
  split at hok
  · cases hok
  split at hok
  · cases hok
  · cases hok
  rename_i hkey hvalue _ _ _ _
  rw [if_neg hkey, if_neg hvalue]
  split
  · refine ⟨⟨self.entries.fresh, key, value, valueHash hashFunc key⟩, ?_, .inl rfl, rfl⟩
    rw [ChainedTable.items_add]
    exact List.mem_append_right _ List.mem_cons_self
  · rename_i entry hfind
    obtain ⟨hmem, hsame⟩ := ChainedTable.mem_of_find hfind
    refine ⟨{ entry with value }, List.mem_map.mpr ⟨entry, hmem, ?_⟩, .inr hsame, rfl⟩
    exact if_pos rfl

end Methods

theorem TupleObject.set_fst (self : TupleObject) (index : Int) (object : Value) :
    (self.set index object).1 =
      checkAll Check.verdict
        (if index < 0 then [.refuse "Index out of bounds"]
          else checks self.types (object, index.toNat)) := by
  unfold TupleObject.set TupleObject.check TupleObject.checks
  by_cases hneg : index < 0
  · rw [if_pos (.inl hneg), if_pos hneg]
    rfl
  rw [if_neg hneg]
  by_cases hlength : index.toNat < self.types.length
  · rw [if_neg (by omega), List.getElem?_eq_getElem hlength]
    dsimp only
    rw [checkAll_validate]
    cases validateObject object self.types[index.toNat] with
    | error e => rfl
    | ok => rfl
  · rw [if_pos (by omega), List.getElem?_eq_none (by omega)]
    rfl

theorem TupleObject.has_set (self : TupleObject) (index : Int) (object : Value)
    (hok : (self.set index object).1 = .ok ()) :
    (self.set index object).2.Has (object, index.toNat) := by
  unfold TupleObject.set at hok ⊢
  split at hok
  · cases hok
  · exact (OrderedTable.find_update ..).trans (if_pos rfl)

theorem TupleObject.createStep_fst (self : TupleObject) {field : Value × Nat}
    (hfield : field.2 < self.types.length) :
    (self.createStep field).1 = checkAll Check.verdict (checks self.types field) := by
  rw [TupleObject.createStep, TupleObject.checks, List.getElem?_eq_getElem hfield]
  dsimp only
  rw [checkAll_validate]
  cases validateObject field.1 self.types[field.2] with
  | error e => rfl
  | ok => rfl

theorem TupleObject.createStep_types (self : TupleObject) (field : Value × Nat) :
    (self.createStep field).2.types = self.types := by
  unfold TupleObject.createStep
  repeat' split
  all_goals rfl

theorem TupleObject.has_createStep (self : TupleObject) (field : Value × Nat)
    (hok : (self.createStep field).1 = .ok ()) : (self.createStep field).2.Has field := by
  unfold TupleObject.createStep at hok ⊢
  split at hok
  · cases hok
  split at hok
  · cases hok
  · exact (OrderedTable.find_update ..).trans (if_pos rfl)

theorem UserTypeValueObject.set_fst (self : UserTypeValueObject) (name : Bytes) (object : Value) :
    (self.set name object).1 =
      checkAll Check.verdict (checks self.types "Invalid name '%.*s'" name object) := by
  unfold UserTypeValueObject.set UserTypeValueObject.check UserTypeValueObject.checks
  cases self.types.find name with
  | none => rfl
  | some subType =>
    dsimp only
    rw [checkAll_validate]
    cases validateObject object subType with
    | error e => rfl
    | ok => rfl

theorem UserTypeValueObject.has_set (self : UserTypeValueObject) (name : Bytes) (object : Value)
    (hok : (self.set name object).1 = .ok ()) :
    (self.set name object).2.Has (.atom (.string name), object) := by
  unfold UserTypeValueObject.set at hok ⊢
  split at hok
  · cases hok
  · exact ⟨name, rfl, (OrderedTable.find_update ..).trans (if_pos rfl)⟩

theorem UserTypeValueObject.createStep_fst (self : UserTypeValueObject) (field : Value × Value) :
    (self.createStep field).1 = checkAll Check.verdict (createChecks self.types field) := by
  unfold UserTypeValueObject.createStep UserTypeValueObject.createChecks
  split
  · rename_i name hname
    unfold UserTypeValueObject.checks
    cases self.types.find name with
    | none => rfl
    | some subType =>
      dsimp only
      rw [checkAll_validate]
      cases validateObject field.2 subType with
      | error e => rfl
      | ok => rfl
  · rfl

theorem UserTypeValueObject.createStep_types (self : UserTypeValueObject) (field : Value × Value) :
    (self.createStep field).2.types = self.types := by
  unfold UserTypeValueObject.createStep
  repeat' split
  all_goals rfl

theorem UserTypeValueObject.has_createStep (self : UserTypeValueObject) (field : Value × Value)
    (hok : (self.createStep field).1 = .ok ()) : (self.createStep field).2.Has field := by
  unfold UserTypeValueObject.createStep at hok ⊢
  split at hok
  · rename_i name hname
    split at hok
    · cases hok
    split at hok
    · cases hok
    · exact ⟨name, hname, (OrderedTable.find_update ..).trans (if_pos rfl)⟩
  · cases hok

namespace CollectionObject

theorem checkElement_eq (valueType : CqlType) (object : Zval) :
    checkElement valueType object = checkAll Check.verdict (checks valueType object) := by
  rw [CollectionObject.checks, checkAll_append, checkAll_notNull, checkAll_validate, checkElement]
  split
  · rfl
  · rfl

theorem add_fst (self : CollectionObject) (args : List Zval) :
    (self.add args).1 = checkAll Check.verdict (args.flatMap (checks self.valueType)) := by
  have hchecks : checkAll (checkElement self.valueType) args =
      checkAll Check.verdict (args.flatMap (checks self.valueType)) := by
    induction args with
    | nil => rfl
    | cons a args ih => rw [checkAll, List.flatMap_cons, checkAll_append, ih, checkElement_eq]
  rw [CollectionObject.add, ← hchecks]
  cases checkAll (checkElement self.valueType) args with
  | error e => rfl
  | ok => rfl

theorem find_foldl_append (self : CollectionObject) (args : List Zval) {index : Nat}
    (hindex : index < self.nextFree) :
    (args.foldl append self).values.find index = self.values.find index := by
  induction args generalizing self with
  | nil => rfl
  | cons a args ih =>
    rw [List.foldl_cons, ih (self.append a) (Nat.lt_succ_of_lt hindex)]
    exact (OrderedTable.find_update ..).trans (if_neg hindex.ne)

theorem has_foldl_append (self : CollectionObject) {args : List Zval} {object : Zval}
    (hmem : object ∈ args) : (args.foldl append self).Has object := by
  induction args generalizing self with
  | nil => cases hmem
  | cons a args ih =>
    rcases List.mem_cons.mp hmem with rfl | hmem
    · have hfind : ((object :: args).foldl append self).values.find self.nextFree =
          some object := by
        rw [List.foldl_cons, find_foldl_append _ _ (Nat.lt_succ_self _)]
        exact (OrderedTable.find_update ..).trans (if_pos rfl)
      exact OrderedTable.mem_values_of_find hfind
    · exact ih (self.append a) hmem

theorem has_add (self : CollectionObject) (args : List Zval) (hok : (self.add args).1 = .ok ())
    {object : Zval} (hmem : object ∈ args) : (self.add args).2.Has object := by
  unfold CollectionObject.add at hok ⊢
  split at hok
  · cases hok
  · exact has_foldl_append self hmem

theorem createStep_fst (self : CollectionObject) (object : Zval) :
    (self.createStep object).1 =
      checkAll Check.verdict [.validate object.value self.valueType] := by
  rw [checkAll_validate, createStep]
  cases validateObject object.value self.valueType with
  | error e => rfl
  | ok => rfl

theorem createStep_valueType (self : CollectionObject) (object : Zval) :
    (self.createStep object).2.valueType = self.valueType := by
  unfold createStep
  split
  · rfl
  · rfl

theorem has_createStep (self : CollectionObject) (object : Zval)
    (hok : (self.createStep object).1 = .ok ()) : (self.createStep object).2.Has object := by
  unfold createStep at hok ⊢
  split at hok
  · cases hok
  · have hmem : object ∈ [object] := List.mem_cons_self
    exact has_foldl_append self hmem

end CollectionObject

section Loudness

variable (hashFunc : Bytes → UInt32)

theorem Call.verdict_eq (call : Call) :
    call.verdict hashFunc = checkAll Check.verdict call.checks := by
  cases call with
  | validate object type => exact (checkAll_validate object type).symm
  | tupleSet self index object => exact self.set_fst index object
  | userTypeValueSet self name object => exact self.set_fst name object
  | setAdd self object => exact self.add_fst hashFunc object
  | mapSet self key value => exact self.set_fst hashFunc key value
  | collectionAdd self args => exact self.add_fst args
  | createTuple types args =>
    rw [Call.verdict, Call.checks, TupleObject.create]
    split
    · rfl
    rename_i hlength
    refine storeAll_fst (I := fun self => self.types = types) _ ?_ rfl
    rintro self rfl field hfield
    refine ⟨self.createStep_fst ?_, self.createStep_types field⟩
    have := List.snd_lt_of_mem_zipIdx hfield
    have hne : args ≠ [] := by
      rintro rfl
      cases hfield
    have := not_and.mp hlength hne
    omega
  | createUserType keyspace typeName types args =>
    rw [Call.verdict, Call.checks, UserTypeValueObject.create]
    split
    · rfl
    refine storeAll_fst (I := fun self => self.types = types) _ ?_ rfl
    rintro self rfl field -
    exact ⟨self.createStep_fst field, self.createStep_types field⟩
  | createSet valueType args =>
    refine storeAll_fst (I := fun self => self.valueType = valueType) _ ?_ rfl
    rintro self rfl object -
    exact ⟨self.add_fst hashFunc object, self.add_valueType hashFunc object⟩
  | createMap keyType valueType args =>
    rw [Call.verdict, Call.checks, MapObject.create]
    split
    · rfl
    refine storeAll_fst
      (I := fun self => self.keyType = keyType ∧ self.valueType = valueType) _ ?_ ⟨rfl, rfl⟩
    rintro self ⟨rfl, rfl⟩ entry -
    exact ⟨self.set_fst hashFunc entry.1 entry.2, self.set_types hashFunc entry.1 entry.2⟩
  | createCollection valueType args =>
    refine storeAll_fst (I := fun self => self.valueType = valueType) _ ?_ rfl
    rintro self rfl object -
    exact ⟨self.createStep_fst object, self.createStep_valueType object⟩

/-- A call that goes through stores what it was given. -/
theorem Call.stores_of_ok (call : Call) (hok : call.verdict hashFunc = .ok ()) :
    call.Stores hashFunc := by
  cases call with
  | validate object type => trivial
  | tupleSet self index object => exact self.has_set index object hok
  | userTypeValueSet self name object => exact self.has_set name object hok
  | setAdd self object => exact self.has_add hashFunc object hok
  | mapSet self key value => exact self.has_set hashFunc key value hok
  | collectionAdd self args => exact fun object hmem => self.has_add args hok hmem
  | createTuple types args =>
    rw [Call.verdict, TupleObject.create] at hok
    split at hok
    · cases hok
    · exact storedInTurn TupleObject.has_createStep hok
  | createUserType keyspace typeName types args =>
    rw [Call.verdict, UserTypeValueObject.create] at hok
    split at hok
    · cases hok
    · exact storedInTurn UserTypeValueObject.has_createStep hok
  | createSet valueType args => exact storedInTurn (SetObject.has_add hashFunc) hok
  | createMap keyType valueType args =>
    rw [Call.verdict, MapObject.create] at hok
    split at hok
    · cases hok
    · exact storedInTurn (fun self entry => self.has_set hashFunc entry.1 entry.2) hok
  | createCollection valueType args => exact storedInTurn CollectionObject.has_createStep hok

/-- A value is stored or refused with an exception, unless it is a container of the expected
class with another type. -/
theorem loud_iff
    (call : Call) :
    call.Loud hashFunc ↔ call.NoMismatch := by
  unfold Call.Loud Call.NoMismatch
  rw [and_iff_left (call.stores_of_ok hashFunc), Call.verdict_eq, Ne, checkAll_eq_error_iff]
  simp only [Check.verdict_eq_ok_iff, Check.verdict_eq_silent_iff]
  constructor
  · intro h earlier object type later heq hpass hmismatched
    exact h ⟨earlier, _, later, heq, hpass, object, type, rfl, hmismatched⟩
  · rintro h ⟨earlier, _, later, heq, hpass, object, type, rfl, hmismatched⟩
    exact h earlier object type later heq hpass hmismatched

/-- A list of integers is left out of a tuple that wants a list of texts. -/
theorem tuple_leaves_out_list :
    ¬ (Call.tupleSet (.new [.list (.scalar .text)]) 0
        (.collection (.list (.scalar .int)) [] none)).Loud (fun _ => 0) ∧
      ((TupleObject.new [.list (.scalar .text)]).set 0
        (.collection (.list (.scalar .int)) [] none)).2.values.entries = [] := by
  refine ⟨fun hloud => hloud.1 ?_, by decide⟩
  decide

end Loudness

end Values
end ScyllaDriver
