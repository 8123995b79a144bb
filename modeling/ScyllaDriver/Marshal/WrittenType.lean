import ScyllaDriver.Marshal.ClassNameLaw
import ScyllaDriver.Marshal.ColumnType

/-!
# Types in class-name notation

`Written` is a CQL type as Cassandra writes it in its class-name notation: a
class of the marshal package with the classes it is made of in parentheses, a
user type with its keyspace, its name in hex and its fields with their names
in hex, any other class by its own text, and `FrozenType` or `ReversedType`
around any of them. `Written.text` is the notation, `Written.type` the type.

`Written.Readable` says which of them the driver reads back.
-/

namespace ScyllaDriver
namespace Marshal

open CString
open Values (ScalarType CqlType)

/-- The class of a scalar type. `text` and `varchar` are one type, and
`timestamp` has an old class beside its present one. -/
def scalarClasses : ScalarType → List String
  | .ascii => ["AsciiType"]
  | .bigint => ["LongType"]
  | .blob => ["BytesType"]
  | .boolean => ["BooleanType"]
  | .counter => ["CounterColumnType"]
  | .decimal => ["DecimalType"]
  | .double => ["DoubleType"]
  | .float => ["FloatType"]
  | .int => ["Int32Type"]
  | .text => ["UTF8Type"]
  | .timestamp => ["TimestampType", "DateType"]
  | .uuid => ["UUIDType"]
  | .varchar => ["UTF8Type"]
  | .varint => ["IntegerType"]
  | .timeuuid => ["TimeUUIDType"]
  | .inet => ["InetAddressType"]
  | .date => ["SimpleDateType"]
  | .time => ["TimeType"]
  | .smallint => ["ShortType"]
  | .tinyint => ["ByteType"]
  | .duration => ["DurationType"]

/-- `text` is another word for `varchar`. -/
def scalarAlias : ScalarType → ScalarType
  | .text => .varchar
  | type => type

/-- The name of a class: any text without the marks of the notation. -/
structure ClassName where
  text : Bytes
  plain : Plain text

/-- The name of a keyspace: letters, digits and underscores. -/
structure KeyspaceName where
  text : Bytes
  letters : ∀ c ∈ text, isalnum c = true ∨ c = chr '_'

def hexDigit (n : Nat) : UInt8 :=
  if n < 10 then UInt8.ofNat (48 + n) else UInt8.ofNat (87 + n)

/-- A name in hex, two digits for each byte. -/
def hexText (name : Bytes) : Bytes :=
  name.flatMap fun c => [hexDigit (c.toNat / 16), hexDigit (c.toNat % 16)]

/-- A class with its arguments, and the classes after it. -/
def classText : Forest ClassName → Bytes
  | .nil => []
  | .cons name args next =>
    name.text ++ (if args.isNil then [] else chr '(' :: classText args ++ [chr ')']) ++
      (if next.isNil then [] else chr ',' :: classText next)

/-- A type in class-name notation. -/
inductive Written
  | scalar (type : ScalarType) (className : String) (h : className ∈ scalarClasses type)
  | custom (name : ClassName) (args : Forest ClassName)
  | list (value : Written)
  | set (value : Written)
  | map (key value : Written)
  | tuple (first : Written) (rest : List Written)
  | udt (keyspace : KeyspaceName) (typeName : Bytes) (fields : List (Bytes × Written))
  | frozen (inner : Written)
  | reversed (inner : Written)

/-- A class with what stands in its parentheses. -/
def applied (className : String) (arguments : Bytes) : Bytes :=
  marshalClass className ++ chr '(' :: arguments ++ [chr ')']

namespace Written

mutual
def text : Written → Bytes
  | .scalar _ className _ => marshalClass className
  | .custom name args => classText (.cons name args .nil)
  | .list value => applied "ListType" value.text
  | .set value => applied "SetType" value.text
  | .map key value => applied "MapType" (key.text ++ chr ',' :: value.text)
  | .tuple first rest => applied "TupleType" (first.text ++ restText rest)
  | .udt keyspace typeName fields =>
    applied "UserType" (keyspace.text ++ chr ',' :: hexText typeName ++ fieldsText fields)
  | .frozen inner => applied "FrozenType" inner.text
  | .reversed inner => applied "ReversedType" inner.text

def restText : List Written → Bytes
  | [] => []
  | w :: ws => chr ',' :: w.text ++ restText ws

def fieldsText : List (Bytes × Written) → Bytes
  | [] => []
  | (name, w) :: fields =>
    chr ',' :: hexText name ++ chr ':' :: w.text ++ fieldsText fields

end

mutual
def type : Written → CqlType
  | .scalar type _ _ => .scalar (scalarAlias type)
  | .custom name args => .custom (classText (.cons name args .nil))
  | .list value => .list value.type
  | .set value => .set value.type
  | .map key value => .map key.type value.type
  | .tuple first rest => .tuple (first.type :: types rest)
  | .udt keyspace typeName fields =>
    .udt (some keyspace.text) (some typeName) (fieldTypes fields)
  | .frozen inner => inner.type
  | .reversed inner => inner.type

def types : List Written → List CqlType
  | [] => []
  | w :: ws => w.type :: types ws

def fieldTypes : List (Bytes × Written) → List (Bytes × CqlType)
  | [] => []
  | (name, w) :: fields => (name, w.type) :: fieldTypes fields

end

/-- Whether one of the outer classes is `ReversedType`. -/
def isReversed : Written → Bool
  | .reversed _ => true
  | .frozen inner => inner.isReversed
  | _ => false

/-- Whether one of the outer classes is `FrozenType`. -/
def isFrozen : Written → Bool
  | .frozen _ => true
  | .reversed inner => inner.isFrozen
  | _ => false

/-- A custom class that stands by itself. -/
def isCustom : Written → Bool
  | .custom _ _ => true
  | _ => false

mutual
/-- Every name is one the tokenizer takes for a name: none is empty, and there
are only letters, digits and, in a class name, dots. -/
def Legible : Written → Prop
  | .scalar _ _ _ => True
  | .custom name args => IsName name.text ∧ args.All fun arg => IsName arg.text
  | .list value => value.Legible
  | .set value => value.Legible
  | .map key value => key.Legible ∧ value.Legible
  | .tuple first rest => first.Legible ∧ LegibleRest rest
  | .udt keyspace typeName fields =>
    keyspace.text ≠ [] ∧ chr '_' ∉ keyspace.text ∧ typeName ≠ [] ∧ LegibleFields fields
  | .frozen inner => inner.Legible
  | .reversed inner => inner.Legible

def LegibleRest : List Written → Prop
  | [] => True
  | w :: ws => w.Legible ∧ LegibleRest ws

def LegibleFields : List (Bytes × Written) → Prop
  | [] => True
  | (name, w) :: fields => name ≠ [] ∧ w.Legible ∧ LegibleFields fields

end

/-- The class names that stand for a type or a wrapper. -/
def knownClasses : List String :=
  ["FrozenType", "ReversedType", "CompositeType"] ++ lookupTable.map Prod.fst

/-- The name is the beginning of a known class name. -/
def BeginsKnown (name : Bytes) : Prop :=
  ∃ className ∈ knownClasses, name <+: marshalClass className

/-- No class has more than one argument. -/
def OneArgument : Forest ClassName → Prop
  | .nil => True
  | .cons _ args next => OneArgument args ∧ next = .nil

mutual
/-- The builder gives the type back: custom types are built in, the name of a
custom class is not the beginning of a known one, neither it nor one of its
arguments has two arguments, nothing stands after it inside the same
parentheses, and no two fields of a user type have one name. -/
def Builds (customTypes : Bool) : Written → Prop
  | .scalar _ _ _ => True
  | .custom name args =>
    customTypes = true ∧ ¬BeginsKnown name.text ∧ OneArgument args
  | .list value => value.Builds customTypes
  | .set value => value.Builds customTypes
  | .map key value =>
    key.isCustom = false ∧ key.Builds customTypes ∧ value.Builds customTypes
  | .tuple first rest =>
    (rest ≠ [] → first.isCustom = false) ∧ first.Builds customTypes ∧ BuildsRest customTypes rest
  | .udt _ _ fields =>
    (fields.map Prod.fst).Nodup ∧ BuildsFields customTypes fields
  | .frozen inner => inner.Builds customTypes
  | .reversed inner => inner.Builds customTypes

def BuildsRest (customTypes : Bool) : List Written → Prop
  | [] => True
  | w :: ws =>
    (ws ≠ [] → w.isCustom = false) ∧ w.Builds customTypes ∧ BuildsRest customTypes ws

def BuildsFields (customTypes : Bool) : List (Bytes × Written) → Prop
  | [] => True
  | (_, w) :: fields =>
    (fields ≠ [] → w.isCustom = false) ∧ w.Builds customTypes ∧ BuildsFields customTypes fields

end

/-- The driver reads the type back. -/
def Readable (customTypes : Bool) (w : Written) : Prop :=
  w.Legible ∧ w.Builds customTypes

mutual
/-- The notation as a tree, with the mark before it and the siblings after. -/
def tree : Written → Separator → Forest Label → Forest Label
  | .scalar _ className _, mark, next =>
    .cons ⟨mark, marshalClass className⟩ .nil next
  | .custom name args, mark, next =>
    .cons ⟨mark, name.text⟩ (args.map fun arg => ⟨.comma, arg.text⟩) next
  | .list value, mark, next =>
    .cons ⟨mark, marshalClass "ListType"⟩ (value.tree .comma .nil) next
  | .set value, mark, next =>
    .cons ⟨mark, marshalClass "SetType"⟩ (value.tree .comma .nil) next
  | .map key value, mark, next =>
    .cons ⟨mark, marshalClass "MapType"⟩ (key.tree .comma (value.tree .comma .nil)) next
  | .tuple first rest, mark, next =>
    .cons ⟨mark, marshalClass "TupleType"⟩ (first.tree .comma (restTree rest)) next
  | .udt keyspace typeName fields, mark, next =>
    .cons ⟨mark, marshalClass "UserType"⟩
      (.cons ⟨.comma, keyspace.text⟩ .nil
        (.cons ⟨.comma, hexText typeName⟩ .nil (fieldsTree fields))) next
  | .frozen inner, mark, next =>
    .cons ⟨mark, marshalClass "FrozenType"⟩ (inner.tree .comma .nil) next
  | .reversed inner, mark, next =>
    .cons ⟨mark, marshalClass "ReversedType"⟩ (inner.tree .comma .nil) next

def restTree : List Written → Forest Label
  | [] => .nil
  | w :: ws => w.tree .comma (restTree ws)

def fieldsTree : List (Bytes × Written) → Forest Label
  | [] => .nil
  | (name, w) :: fields =>
    .cons ⟨.comma, hexText name⟩ .nil (w.tree .colon (fieldsTree fields))

end

end Written

end Marshal
end ScyllaDriver
