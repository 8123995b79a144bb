import ScyllaDriver.Values.Typed

/-!
# Which values a container takes

`php_scylladb_validate_object` checks a value against the declared type of the
place it is meant for. Null passes. A scalar type asks for a PHP scalar or for
a class, a nested type for a container whose own type compares equal. What does
not pass is refused with an exception that says what was expected, except for a
container of another type: there the function returns false and nothing else.
-/

namespace ScyllaDriver
namespace Values

inductive Refusal where
  /-- An `InvalidArgumentException` with this text. -/
  | invalid (text : String)
  /-- `throw_invalid_argument(object, "argument", expected)`. -/
  | expecting (expected : String)
  /-- False is returned without an exception. -/
  | silent
  deriving DecidableEq, Repr

def ValueClass.expected (ce : ValueClass) : String :=
  "an instance of " ++ ce.name

def ScalarType.expected : ScalarType → String
  | .varchar | .text | .ascii => "a string"
  | .double => "a float"
  | .int => "an int"
  | .boolean => "a boolean"
  | .float => ValueClass.float.expected
  | .counter | .bigint => ValueClass.bigint.expected
  | .smallint => ValueClass.smallint.expected
  | .tinyint => ValueClass.tinyint.expected
  | .blob => ValueClass.blob.expected
  | .decimal => ValueClass.decimal.expected
  | .duration => ValueClass.duration.expected
  | .timestamp => ValueClass.timestamp.expected
  | .date => ValueClass.date.expected
  | .time => ValueClass.time.expected
  | .uuid => ValueClass.uuid.expected
  | .varint => ValueClass.varint.expected
  | .timeuuid => ValueClass.timeuuid.expected
  | .inet => ValueClass.inet.expected

/-- The nested cases of `php_scylladb_validate_object`: a container of the class,
whose type compares equal. -/
def validateContainer (object : Value) (type : CqlType) (ce : ValueClass) : Except Refusal Unit :=
  if object.kind = .object ce then
    if (object.type?.map fun own => typeCompare own type) = some .eq then .ok ()
    else .error .silent
  else .error (.expecting ce.expected)

/-- `php_scylladb_validate_object`. -/
def validateObject (object : Value) (type : CqlType) : Except Refusal Unit :=
  match object, type with
  | .atom .null, _ => .ok ()
  | .atom a, .scalar scalarType =>
    if scalarType.accepts a then .ok () else .error (.expecting scalarType.expected)
  | _, .scalar scalarType => .error (.expecting scalarType.expected)
  | object, .map _ _ => validateContainer object type .map
  | object, .set _ => validateContainer object type .set
  | object, .list _ => validateContainer object type .collection
  | object, .tuple _ => validateContainer object type .tuple
  | object, .udt _ _ _ => validateContainer object type .userTypeValue
  | _, .custom _ => .error (.expecting "a simple Cassandra value")

theorem ScalarType.accepts_congr (type : ScalarType) {a b : Atom} (hkind : a.kind = b.kind) :
    type.accepts a = type.accepts b := by
  cases a <;> cases b <;> cases hkind <;> cases type <;> rfl

theorem validateObject_scalar {a : Atom} (hnull : a ≠ .null) (type : ScalarType) :
    validateObject (.atom a) (.scalar type) =
      if type.accepts a then .ok () else .error (.expecting type.expected) := by
  cases a <;> first | rfl | exact absurd rfl hnull

theorem validateObject_container {value : Value} {type : CqlType} {ce : ValueClass}
    (hnull : value ≠ .atom .null) (hclass : type.containerClass = some ce) :
    validateObject value type = validateContainer value type ce := by
  cases type <;> cases hclass <;> cases value <;>
    first | rfl | (rename_i a; cases a <;> first | rfl | exact absurd rfl hnull)

/-- Whether a value that holds no other values is taken depends on its kind. -/
theorem validateObject_congr {a b : Atom} (hkind : a.kind = b.kind) (type : CqlType) :
    validateObject (.atom a) type = validateObject (.atom b) type := by
  by_cases hnull : a = .null
  · subst hnull
    cases b <;> first | rfl | cases hkind
  · have hnull' : b ≠ .null := by
      rintro rfl
      cases a <;> first | exact hnull rfl | cases hkind
    cases type with
    | scalar scalarType =>
      rw [validateObject_scalar hnull, validateObject_scalar hnull', scalarType.accepts_congr hkind]
    | _ => cases a <;> cases b <;> cases hkind <;> rfl

end Values
end ScyllaDriver
