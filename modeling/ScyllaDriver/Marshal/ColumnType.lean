import ScyllaDriver.Marshal.ClassName
import ScyllaDriver.Values.Types

/-!
# From class names to column types

`php_scylladb_parse_column_type` parses a class name, takes the outer
`ReversedType`, `FrozenType` and `CompositeType` off, and builds the
`Cassandra\Type` of what is left. Class names are looked up with `strncmp`
over the length of the node's name.

A `struct node_s *` is a forest: the node, its children and the siblings after
it. `createType` gives nothing where the C code would follow a null pointer.
-/

namespace ScyllaDriver
namespace Marshal

open CString
open Values (ScalarType)

def marshalClass (className : String) : Bytes :=
  ascii ("org.apache.cassandra.db.marshal." ++ className)

/-- `strncmp(className, node->name, node->name_length) == 0`. -/
def isNamed (className : String) (name : Bytes) : Bool :=
  strncmpEq name.length (marshalClass className) name

/-- The types `php_scylladb_lookup_type` tells apart. -/
inductive ClassKind
  | scalar (type : ScalarType)
  | map
  | set
  | list
  | tuple
  | udt
  | custom
  deriving DecidableEq, Repr

/-- The comparisons of `php_scylladb_lookup_type`, in its order. -/
def lookupTable : List (String × ClassKind) :=
  [("AsciiType", .scalar .ascii),
    ("LongType", .scalar .bigint),
    ("ShortType", .scalar .smallint),
    ("ByteType", .scalar .tinyint),
    ("BytesType", .scalar .blob),
    ("BooleanType", .scalar .boolean),
    ("CounterColumnType", .scalar .counter),
    ("DecimalType", .scalar .decimal),
    ("DurationType", .scalar .duration),
    ("DoubleType", .scalar .double),
    ("FloatType", .scalar .float),
    ("InetAddressType", .scalar .inet),
    ("Int32Type", .scalar .int),
    ("UTF8Type", .scalar .varchar),
    ("TimestampType", .scalar .timestamp),
    ("DateType", .scalar .timestamp),
    ("SimpleDateType", .scalar .date),
    ("TimeType", .scalar .time),
    ("UUIDType", .scalar .uuid),
    ("IntegerType", .scalar .varint),
    ("TimeUUIDType", .scalar .timeuuid),
    ("MapType", .map),
    ("SetType", .set),
    ("ListType", .list),
    ("TupleType", .tuple),
    ("UserType", .udt)]

/-- `php_scylladb_lookup_type`. -/
def lookupType (name : Bytes) : ClassKind :=
  match lookupTable.find? fun entry => isNamed entry.1 name with
  | some entry => entry.2
  | none => .custom

/-- The classes `php_scylladb_create_type` looks through. -/
def isWrapper (name : Bytes) : Bool :=
  isNamed "FrozenType" name || isNamed "ReversedType" name || isNamed "CompositeType" name

/-- `hex_value`, which is -1 for any other character. -/
def hexValue (c : UInt8) : Option Nat :=
  if isxdigit c then some (digitValue c) else none

/-- `php_scylladb_from_hex`, which is null for a text that is not hex. -/
def fromHex : Bytes → Option Bytes
  | [] => some []
  | [_] => none
  | c₀ :: c₁ :: hex => do
      let half₀ ← hexValue c₀
      let half₁ ← hexValue c₁
      let rest ← fromHex hex
      return UInt8.ofNat (half₀ * 16 + half₁) :: rest

/-- `php_scylladb_node_dump_to`. -/
def nodeDumpTo : Forest Bytes → Bytes
  | .nil => []
  | .cons name firstChild nextSibling =>
    name ++
      (if firstChild.isNil then []
        else chr '(' :: nodeDumpTo firstChild ++ [chr ')']) ++
      (if nextSibling.isNil then []
        else chr ',' :: chr ' ' :: nodeDumpTo nextSibling)

/-- A type as the builder returns it: a zval that may be undefined. -/
inductive ParsedType
  | undef
  | scalar (type : ScalarType)
  | custom (className : Bytes)
  | list (valueType : ParsedType)
  | map (keyType valueType : ParsedType)
  | set (valueType : ParsedType)
  | udt (keyspace typeName : Option Bytes) (types : List (Bytes × ParsedType))
  | tuple (types : List ParsedType)

/-- The type's object, whose fields are read through a pointer. -/
def ParsedType.deref : ParsedType → Option ParsedType
  | .undef => none
  | type => some type

/-- `zend_hash_add`: a key that is there keeps its value. -/
def hashAdd (types : List (Bytes × ParsedType)) (name : Bytes)
    (type : ParsedType) : List (Bytes × ParsedType) :=
  if types.any fun entry => entry.1 = name then types else types ++ [(name, type)]

mutual
/-- `php_scylladb_create_type`, in a build with or without custom types.
Without them `php_scylladb_type_custom` throws and returns an undefined
value. -/
def createType (customTypes : Bool) : Forest Bytes → Option ParsedType
  | .nil => some .undef
  | .cons name firstChild nextSibling =>
    if isWrapper name then
      createType customTypes firstChild
    else
      match lookupType name with
      | .scalar type => some (.scalar type)
      | .custom =>
        some (if customTypes then
          .custom (nodeDumpTo (.cons name firstChild nextSibling))
        else .undef)
      | .map =>
        match firstChild with
        | .nil => some (.map .undef .undef)
        | .cons key children value => do
            let keyType ← createType customTypes (.cons key children value)
            let valueType ← createType customTypes value
            return .map keyType valueType
      | .list => do return .list (← createType customTypes firstChild)
      | .set => do return .set (← createType customTypes firstChild)
      | .tuple => do return .tuple (← tupleFromNode customTypes firstChild [])
      | .udt =>
        match firstChild with
        | .nil => some (.udt none none [])
        | .cons keyspace _ .nil => some (.udt (some keyspace) none [])
        | .cons keyspace _ (.cons typeName _ fields) => do
            let types ← userTypeFromNode customTypes fields []
            return .udt (some keyspace) (fromHex typeName) types
termination_by node => (sizeOf node, 0)

/-- The loop of `php_scylladb_tuple_from_node`. -/
def tupleFromNode (customTypes : Bool) : Forest Bytes → List ParsedType → Option (List ParsedType)
  | .nil, types => some types
  | .cons name firstChild nextSibling, types => do
      let subType ← createType customTypes (.cons name firstChild nextSibling)
      let subType ← subType.deref
      tupleFromNode customTypes nextSibling (types ++ [subType])
termination_by node => (sizeOf node, 1)

/-- The loop of `php_scylladb_user_type_from_node` over the fields. -/
def userTypeFromNode (customTypes : Bool) :
    Forest Bytes → List (Bytes × ParsedType) → Option (List (Bytes × ParsedType))
  | .nil, types => some types
  | .cons fieldName _ .nil, types => do
      let _ ← fromHex fieldName
      return types
  | .cons fieldName _ (.cons name firstChild nextSibling), types => do
      let subType ← createType customTypes (.cons name firstChild nextSibling)
      let name ← fromHex fieldName
      let subType ← subType.deref
      userTypeFromNode customTypes nextSibling (hashAdd types name subType)
termination_by node => (sizeOf node, 1)

end

/-- The loop of `php_scylladb_parse_column_type` over the outer classes: the
two flags and the node that is left. -/
def skipOuter : Forest Bytes → Bool → Bool → Bool × Bool × Forest Bytes
  | .nil, reversed, frozen => (reversed, frozen, .nil)
  | .cons name firstChild nextSibling, reversed, frozen =>
    if isNamed "ReversedType" name then
      skipOuter firstChild true frozen
    else if isNamed "FrozenType" name then
      skipOuter firstChild reversed true
    else if isNamed "CompositeType" name then
      skipOuter firstChild reversed frozen
    else
      (reversed, frozen, .cons name firstChild nextSibling)

inductive ColumnResult
  | parsed (reversed frozen : Bool) (type : ParsedType)
  | refused (r : Refusal)
  | crashed

/-- The part of `php_scylladb_parse_column_type` after the parser. -/
def columnOfRoot (customTypes : Bool) (node : Forest Bytes) : ColumnResult :=
  match skipOuter node false false with
  | (_, _, .nil) => .refused .invalidType
  | (reversed, frozen, node) =>
    match createType customTypes node with
    | some type => .parsed reversed frozen type
    | none => .crashed

/-- `php_scylladb_parse_column_type`. -/
def parseColumnType (customTypes : Bool) (validator : Bytes) : Option ColumnResult :=
  (parseClassName validator).map fun
    | .parsed node => columnOfRoot customTypes node
    | .refused r => .refused r
    | .crashed => .crashed

end Marshal
end ScyllaDriver
