import ScyllaDriver.Library.ChainedTable
import ScyllaDriver.Library.MapHistory
import ScyllaDriver.Values.Validate

/-!
# Sets and Maps as tables

`Cassandra\Set` and `Cassandra\Map` keep their members and keys in a uthash
table, with `php_scylladb_value_hash` and `php_scylladb_value_compare`. A call
checks its arguments against the declared types, then searches the table; `add`
leaves a member alone that it finds, `set` gives its value to the entry it finds.

The last part says what it is for a container to be the set or the finite map
of the history of its calls.
-/

namespace ScyllaDriver
namespace Values

open CString ChainedTable MapHistory

/-- `HASH_KEYCOMPARE`. -/
def sameValue (hashFunc : Bytes → UInt32) (stored key : Value) : Bool :=
  valueCompare hashFunc stored key = .eq

/-- `php_scylladb_set`; of its type the element type. -/
structure SetObject where
  valueType : CqlType
  entries : Table Value Unit
  dirty : Bool
  iterTemp : Option Nat

/-- `php_scylladb_map`; of its type the key and the value type. -/
structure MapObject where
  keyType : CqlType
  valueType : CqlType
  entries : Table Value Value
  dirty : Bool
  iterTemp : Option Nat

/-- The address of the entry after the given one. -/
def nextAddress {ν : Type} : List (Handle Value ν) → Nat → Option Nat
  | [], _ => none
  | h :: rest, address =>
    if h.address = address then rest.head?.map Handle.address else nextAddress rest address

/-- The look-ahead of the iteration moves on from an entry that is deleted. -/
def skipped {ν : Type} (entries : Table Value ν) (iterTemp : Option Nat) (removed : Nat) :
    Option Nat :=
  if iterTemp = some removed then nextAddress entries.items removed else iterTemp

section

variable (hashFunc : Bytes → UInt32)

namespace SetObject

def new (valueType : CqlType) : SetObject where
  valueType := valueType
  entries := .empty 0
  dirty := true
  iterTemp := none

/-- `php_scylladb_set_add`. -/
def add (self : SetObject) (object : Value) : Except Refusal Unit × SetObject :=
  if object.kind = .null then
    (.error (.invalid "Invalid value: null is not supported inside sets"), self)
  else
    match validateObject object self.valueType with
    | .error e => (.error e, self)
    | .ok () =>
      match self.entries.find (valueHash hashFunc) (sameValue hashFunc) object with
      | some _ => (.ok (), self)
      | none =>
        (.ok (), { self with
          dirty := true
          entries := self.entries.add (valueHash hashFunc) object () })

/-- `php_scylladb_set_del`. -/
def del (self : SetObject) (object : Value) : Except Refusal Bool × SetObject :=
  match validateObject object self.valueType with
  | .error e => (.error e, self)
  | .ok () =>
    match self.entries.find (valueHash hashFunc) (sameValue hashFunc) object with
    | none => (.ok false, self)
    | some entry =>
      (.ok true, { self with
        dirty := true
        iterTemp := skipped self.entries self.iterTemp entry.address
        entries := self.entries.delete entry })

/-- `php_scylladb_set_has`. -/
def has (self : SetObject) (object : Value) : Except Refusal Bool :=
  match validateObject object self.valueType with
  | .error e => .error e
  | .ok () =>
    .ok (self.entries.find (valueHash hashFunc) (sameValue hashFunc) object).isSome

/-- `php_scylladb_set_populate`. -/
def values (self : SetObject) : List Value :=
  self.entries.items.map Handle.key

/-- `HASH_COUNT`. -/
def count (self : SetObject) : Nat :=
  self.entries.numItems

end SetObject

namespace MapObject

def new (keyType valueType : CqlType) : MapObject where
  keyType := keyType
  valueType := valueType
  entries := .empty 0
  dirty := true
  iterTemp := none

/-- `php_scylladb_map_set`. -/
def set (self : MapObject) (key value : Value) : Except Refusal Unit × MapObject :=
  if key.kind = .null then
    (.error (.invalid "Invalid key: null is not supported inside maps"), self)
  else if value.kind = .null then
    (.error (.invalid "Invalid value: null is not supported inside maps"), self)
  else
    match validateObject key self.keyType, validateObject value self.valueType with
    | .error e, _ => (.error e, self)
    | .ok (), .error e => (.error e, self)
    | .ok (), .ok () =>
      match self.entries.find (valueHash hashFunc) (sameValue hashFunc) key with
      | none =>
        (.ok (), { self with
          dirty := true
          entries := self.entries.add (valueHash hashFunc) key value })
      | some entry =>
        (.ok (), { self with
          dirty := true
          entries := self.entries.setValue entry.address value })

/-- `php_scylladb_map_get`. -/
def get (self : MapObject) (key : Value) : Except Refusal (Option Value) :=
  match validateObject key self.keyType with
  | .error e => .error e
  | .ok () =>
    .ok ((self.entries.find (valueHash hashFunc) (sameValue hashFunc) key).map Handle.value)

/-- `php_scylladb_map_del`. -/
def del (self : MapObject) (key : Value) : Except Refusal Bool × MapObject :=
  match validateObject key self.keyType with
  | .error e => (.error e, self)
  | .ok () =>
    match self.entries.find (valueHash hashFunc) (sameValue hashFunc) key with
    | none => (.ok false, self)
    | some entry =>
      (.ok true, { self with
        dirty := true
        iterTemp := skipped self.entries self.iterTemp entry.address
        entries := self.entries.delete entry })

/-- `php_scylladb_map_has`. -/
def has (self : MapObject) (key : Value) : Except Refusal Bool :=
  match validateObject key self.keyType with
  | .error e => .error e
  | .ok () => .ok (self.entries.find (valueHash hashFunc) (sameValue hashFunc) key).isSome

/-- `php_scylladb_map_populate_keys`. -/
def keys (self : MapObject) : List Value :=
  self.entries.items.map Handle.key

/-- `php_scylladb_map_populate_values`. -/
def values (self : MapObject) : List Value :=
  self.entries.items.map Handle.value

/-- `HASH_COUNT`. -/
def count (self : MapObject) : Nat :=
  self.entries.numItems

end MapObject

end

/-- A call on a Set with an atomic argument. -/
inductive SetCall where
  | add (object : Atom)
  | remove (object : Atom)
  | has (object : Atom)

/-- A call on a Map with an atomic key. -/
inductive MapCall where
  | set (key : Atom) (value : Value)
  | remove (key : Atom)
  | has (key : Atom)
  | get (key : Atom)

section

variable (hashFunc : Bytes → UInt32)

def SetObject.after (self : SetObject) : SetCall → SetObject
  | .add object => (self.add hashFunc (.atom object)).2
  | .remove object => (self.del hashFunc (.atom object)).2
  | .has _ => self

def MapObject.after (self : MapObject) : MapCall → MapObject
  | .set key value => (self.set hashFunc (.atom key) value).2
  | .remove key => (self.del hashFunc (.atom key)).2
  | .has _ => self
  | .get _ => self

end

/-- What a call does to the set: a value that is taken is added. -/
def SetCall.events (valueType : CqlType) : SetCall → List (Event Value Unit)
  | .add object =>
    if object ≠ .null ∧ validateObject (.atom object) valueType = .ok () then
      [.put (.atom object) ()]
    else []
  | .remove object => [.drop (.atom object)]
  | .has _ => []

/-- What a call does to the map. -/
def MapCall.events (keyType valueType : CqlType) : MapCall → List (Event Value Value)
  | .set key value =>
    if (key ≠ .null ∧ validateObject (.atom key) keyType = .ok ()) ∧
        (value.kind ≠ .null ∧ validateObject value valueType = .ok ()) then
      [.put (.atom key) value]
    else []
  | .remove key => [.drop (.atom key)]
  | .has _ => []
  | .get _ => []

def setAfter (hashFunc : Bytes → UInt32) (valueType : CqlType) (calls : List SetCall) : SetObject :=
  calls.foldl (SetObject.after hashFunc) (.new valueType)

def mapAfter (hashFunc : Bytes → UInt32) (keyType valueType : CqlType) (calls : List MapCall) :
    MapObject :=
  calls.foldl (MapObject.after hashFunc) (.new keyType valueType)

/-- The Set is the set of a history. -/
structure SetObject.Is (hashFunc : Bytes → UInt32) (self : SetObject)
    (history : List (Event Value Unit)) : Prop where
  apart : self.values.Pairwise fun v w => valueCompare hashFunc v w ≠ .eq
  has : ∀ a, self.has hashFunc (.atom a) = .ok true ↔
    (current (sameValue hashFunc) history (.atom a)).isSome
  count : self.count = self.values.length
  values : self.values = firstInsertions (sameValue hashFunc) history

/-- The Map is the finite map of a history. -/
structure MapObject.Is (hashFunc : Bytes → UInt32) (self : MapObject)
    (history : List (Event Value Value)) : Prop where
  apart : self.keys.Pairwise fun v w => valueCompare hashFunc v w ≠ .eq
  has : ∀ a, self.has hashFunc (.atom a) = .ok true ↔
    (current (sameValue hashFunc) history (.atom a)).isSome
  get : ∀ a value, self.get hashFunc (.atom a) = .ok (some value) ↔
    current (sameValue hashFunc) history (.atom a) = some value
  count : self.count = self.keys.length
  keys : self.keys = firstInsertions (sameValue hashFunc) history
  values : self.values.map some = self.keys.map (current (sameValue hashFunc) history)

end Values
end ScyllaDriver
