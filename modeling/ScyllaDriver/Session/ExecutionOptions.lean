import ScyllaDriver.Async.DriverFuture
import ScyllaDriver.Cluster.ProfileSettings
import ScyllaDriver.Numbers.NumberParser

/-!
# Execution options

`Cassandra\ExecutionOptions` and the arrays that stand for it. The options are checked one
after the other. A consistency is checked by its low 32 bits and kept whole, a page size is
checked whole and kept in 32 bits; a field that is negative counts as not given.
-/

namespace ScyllaDriver
namespace Session

open CString Cluster FloatFormat

/-- A PHP value given as an option: a double by its bits, an object by its address. The
arguments of a statement have the type `α`. -/
inductive OptionValue (α : Type) where
  | null
  | bool (b : Bool)
  | long (n : Int64)
  | double (x : UInt64)
  | string (s : Bytes)
  | array (arguments : List α)
  | retryPolicy (policy : UInt64)
  | object (address : UInt64)

inductive Thrown where
  | invalidArgument (argument : InvalidArgument)
  | number (e : Numbers.Thrown)
  | runtime (message : String)
  | driver (e : CassError)
  deriving DecidableEq

/-- `php_scylladb_execution_options`; what is not set is none, for the numbers it is the
value of `init_execution_options`. -/
structure ExecutionOptions (α : Type) where
  consistency : Int64
  serialConsistency : Int64
  pageSize : Int32
  pagingStateToken : Option Bytes
  timeout : Option (OptionValue α)
  arguments : Option (List α)
  retryPolicy : Option UInt64
  timestamp : Int64
  idempotent : Option Bool

variable {α : Type}

/-- `init_execution_options`. -/
def ExecutionOptions.init : ExecutionOptions α where
  consistency := -1
  serialConsistency := -1
  pageSize := -1
  pagingStateToken := none
  timeout := none
  arguments := none
  retryPolicy := none
  timestamp := Int64.minValue
  idempotent := none

/-- `throw_invalid_argument`. -/
def refuse {β : Type} (name expected : String) : Except Thrown β :=
  .error (.invalidArgument ⟨name, expected⟩)

namespace ExecutionOptions

variable (self : ExecutionOptions α)

def setConsistency : OptionValue α → Except Thrown (ExecutionOptions α)
  | .long n =>
    if validateConsistency n.toUInt64.toUInt32 = -1 then
      refuse "consistency" "one of Cassandra::CONSISTENCY_*"
    else .ok { self with consistency := n }
  | _ => refuse "consistency" "one of Cassandra::CONSISTENCY_*"

def setSerialConsistency : OptionValue α → Except Thrown (ExecutionOptions α)
  | .long n =>
    if validateSerialConsistency n.toUInt64.toUInt32 = -1 then
      refuse "serial_consistency"
        "either Cassandra::CONSISTENCY_SERIAL or Cassandra::CASS_CONSISTENCY_LOCAL_SERIAL"
    else .ok { self with serialConsistency := n }
  | _ =>
    refuse "serial_consistency"
      "either Cassandra::CONSISTENCY_SERIAL or Cassandra::CASS_CONSISTENCY_LOCAL_SERIAL"

def setPageSize : OptionValue α → Except Thrown (ExecutionOptions α)
  | .long n =>
    if n ≤ 0 then refuse "page_size" "greater than zero"
    else .ok { self with pageSize := n.toInt32 }
  | _ => refuse "page_size" "greater than zero"

def setPagingStateToken : OptionValue α → Except Thrown (ExecutionOptions α)
  | .string token => .ok { self with pagingStateToken := some token }
  | _ => refuse "paging_state_token" "a string"

/-- The timeout may be a number that is greater than zero, or null. -/
def positiveOrNull : OptionValue α → Bool
  | .long n => decide (0 < n)
  | .double x => decide (binary64.less 0 x.toNat)
  | .null => true
  | _ => false

def setTimeout (timeout : OptionValue α) : Except Thrown (ExecutionOptions α) :=
  if positiveOrNull timeout then .ok { self with timeout := some timeout }
  else refuse "timeout" "a number of seconds greater than zero or null"

def setArguments : OptionValue α → Except Thrown (ExecutionOptions α)
  | .array arguments => .ok { self with arguments := some arguments }
  | _ => refuse "arguments" "an array"

def setRetryPolicy : OptionValue α → Except Thrown (ExecutionOptions α)
  | .retryPolicy policy => .ok { self with retryPolicy := some policy }
  | _ => refuse "retry_policy" "an instance of Cassandra\\RetryPolicy"

/-- A timestamp that `php_scylladb_parse_bigint` has read. -/
def setParsed : Except Numbers.Thrown Int → Except Thrown (ExecutionOptions α)
  | .error e => .error (.number e)
  | .ok n => .ok { self with timestamp := Int64.ofInt n }

def setTimestamp : OptionValue α → Except Thrown (ExecutionOptions α)
  | .long n => .ok { self with timestamp := n }
  | .string s => self.setParsed (Numbers.parseBigint s)
  | _ => refuse "timestamp" "an integer or integer string"

def setIdempotent : OptionValue α → Except Thrown (ExecutionOptions α)
  | .bool b => .ok { self with idempotent := some b }
  | _ => refuse "idempotent" "a boolean"

/-- The options in the order of the checks, with what the check does. -/
def fields :
    List (String × (ExecutionOptions α → OptionValue α → Except Thrown (ExecutionOptions α))) :=
  [("consistency", setConsistency), ("serial_consistency", setSerialConsistency),
    ("page_size", setPageSize), ("paging_state_token", setPagingStateToken),
    ("timeout", setTimeout), ("arguments", setArguments), ("retry_policy", setRetryPolicy),
    ("timestamp", setTimestamp), ("idempotent", setIdempotent)]

def readField (options : String → Option (OptionValue α)) (self : ExecutionOptions α)
    (field : String × (ExecutionOptions α → OptionValue α → Except Thrown (ExecutionOptions α))) :
    Except Thrown (ExecutionOptions α) :=
  match options field.1 with
  | none => .ok self
  | some value => field.2 self value

/-- `build_from_array`, with what the array holds under a name. -/
def buildFromArray (options : String → Option (OptionValue α)) :
    Except Thrown (ExecutionOptions α) :=
  fields.foldlM (readField options) self

end ExecutionOptions

end Session
end ScyllaDriver
