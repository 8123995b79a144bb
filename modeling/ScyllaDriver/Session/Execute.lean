import ScyllaDriver.Session.ExecutionOptions

/-!
# Statements, from the session to the driver

`execute` and `executeAsync` settle what a request is made of: an option wins over what the
statement and the session have. Then the statement or batch is made, set up and handed to
the driver. `execute` waits and makes the `Rows`; `executeAsync` returns a `FutureRows`,
whose `get` does.

What a setter of the driver returns and what becomes of an argument are parameters.
-/

namespace ScyllaDriver
namespace Session

open CString Cluster

inductive BatchType where
  | logged
  | unlogged
  | counter
  deriving DecidableEq, Repr

/-- The data of `php_scylladb_statement`; the statements of a batch are CQL or objects, and
have their arguments with them. -/
inductive StatementData (α : Type) where
  | simple (cql : Bytes)
  | prepared (prepared : UInt64)
  | batch (type : BatchType) (entries : List ((Bytes ⊕ StatementData α) × Option (List α)))

structure Statement (α : Type) where
  data : StatementData α
  idempotent : Option Bool

/-- `php_scylladb_session`. -/
structure DefaultSession where
  session : UInt64
  defaultConsistency : Int64
  defaultPageSize : Int32

inductive Query where
  | cql (text : Bytes) (parameters : Nat)
  | prepared (prepared : UInt64)
  deriving DecidableEq

inductive Setting where
  | consistency (consistency : UInt32)
  | serialConsistency (consistency : UInt32)
  | pagingSize (size : Int32)
  | pagingStateToken (token : Bytes)
  | retryPolicy (policy : Option UInt64)
  | timestamp (timestamp : Int64)
  | isIdempotent (idempotent : Bool)
  | executionProfile (name : Bytes)
  deriving DecidableEq

structure CassStatement (β : Type) where
  query : Query
  values : List β
  settings : List Setting
  deriving DecidableEq

structure CassBatch (β : Type) where
  type : BatchType
  statements : List (CassStatement β)
  settings : List Setting
  deriving DecidableEq

/-- The argument of `cass_session_execute` or of `cass_session_execute_batch`. -/
inductive Request (β : Type) where
  | single (single : CassStatement β)
  | batch (batch : CassBatch β)
  deriving DecidableEq

/-- The driver, as far as a request can fail before it is handed over. -/
structure Driver (α β : Type) where
  /-- `cass_statement_new_n` or `cass_prepared_bind` returns a statement. -/
  newStatement : Query → Bool
  newBatch : BatchType → Bool
  /-- `bind_argument_by_name` or `bind_argument_by_index`. -/
  bindArgument : Query → α → Except Thrown β
  /-- What a setter returns, unless it is `CASS_OK`. -/
  refuses : Setting → Option CassError

variable {α β ρ : Type}

/-- `(CassConsistency)consistency`. -/
def toCassConsistency (consistency : Int64) : UInt32 :=
  consistency.toUInt64.toUInt32

/-- The setters that `create_single` calls, in their order. -/
def singleSettings (consistency : UInt32) (serialConsistency : Int64) (pageSize : Int32)
    (pagingStateToken : Option Bytes) (retryPolicy : Option UInt64) (timestamp : Int64)
    (idempotent : Option Bool) : List Setting :=
  [.consistency consistency] ++
    (if 0 ≤ serialConsistency then
      [.serialConsistency (toCassConsistency serialConsistency)] else []) ++
    (if 0 ≤ pageSize then [.pagingSize pageSize] else []) ++
    pagingStateToken.toList.map .pagingStateToken ++
    retryPolicy.toList.map (fun policy => .retryPolicy (some policy)) ++
    (if timestamp ≠ Int64.minValue then [.timestamp timestamp] else []) ++
    idempotent.toList.map .isIdempotent

/-- The setters that `create_batch` calls, in their order. -/
def batchSettings (consistency : UInt32) (retryPolicy : Option UInt64) (timestamp : Int64)
    (idempotent : Option Bool) : List Setting :=
  [.consistency consistency, .retryPolicy retryPolicy] ++
    (if timestamp ≠ Int64.minValue then [.timestamp timestamp] else []) ++
    idempotent.toList.map .isIdempotent

section Create

variable (driver : Driver α β)

/-- Setters called one after the other, until one fails. -/
def setAll (settings : List Setting) : Except Thrown (List Setting) :=
  match settings.findSome? driver.refuses with
  | some e => .error (.driver e)
  | none => .ok settings

/-- `create_statement`. -/
def createStatement (data : StatementData α) (arguments : Option (List α)) :
    Except Thrown (CassStatement β) := do
  let query ← match data with
    | .simple cql => .ok (.cql cql (arguments.elim 0 List.length))
    | .prepared prepared => .ok (.prepared prepared)
    | .batch _ _ => .error (.runtime "Unsupported statement type.")
  if driver.newStatement query then
    let values ← (arguments.getD []).mapM (driver.bindArgument query)
    return ⟨query, values, []⟩
  else
    .error (.runtime "Failed to allocate a CassStatement")

/-- `create_batch`. -/
def createBatch (type : BatchType)
    (entries : List ((Bytes ⊕ StatementData α) × Option (List α))) (consistency : UInt32)
    (retryPolicy : Option UInt64) (timestamp : Int64) (idempotent : Option Bool) :
    Except Thrown (CassBatch β) := do
  if driver.newBatch type then
    let statements ← entries.mapM fun entry =>
      createStatement driver (entry.1.elim .simple id) entry.2
    let settings ← setAll driver (batchSettings consistency retryPolicy timestamp idempotent)
    return ⟨type, statements, settings⟩
  else
    .error (.runtime "Failed to allocate a CassBatch")

/-- `create_single`. -/
def createSingle (data : StatementData α) (arguments : Option (List α)) (consistency : UInt32)
    (serialConsistency : Int64) (pageSize : Int32) (pagingStateToken : Option Bytes)
    (retryPolicy : Option UInt64) (timestamp : Int64) (idempotent : Option Bool) :
    Except Thrown (CassStatement β) := do
  let stmt ← createStatement driver data arguments
  let settings ← setAll driver (singleSettings consistency serialConsistency pageSize
    pagingStateToken retryPolicy timestamp idempotent)
  return { stmt with settings }

end Create

inductive StatementArgument (α : Type) where
  | string (cql : Bytes)
  | statement (statement : Statement α)
  | other

inductive OptionsArgument (α : Type) where
  | null
  | array (options : String → Option (OptionValue α))
  | object (options : ExecutionOptions α)
  | other

inductive ProfileArgument where
  | null
  | string (name : Bytes)
  /-- An enum case, with its value if the enum is backed by strings. -/
  | enumCase (value : Option Bytes) (name : Bytes)
  | other

/-- `php_scylladb_name_from_string_or_enum`. -/
def ProfileArgument.name : ProfileArgument → Option Bytes
  | .string name => some name
  | .enumCase value name => some (value.getD name)
  | _ => none

def readProfile : ProfileArgument → Except Thrown (Option Bytes)
  | .null => .ok none
  | profile =>
    match profile.name with
    | none | some [] =>
      refuse "executionProfile"
        "a non-empty string or an enum case naming a profile registered on the cluster"
    | some name => .ok (some name)

def readStatement : StatementArgument α → Except Thrown (Statement α)
  | .string cql => .ok ⟨.simple cql, none⟩
  | .statement statement => .ok statement
  | .other => refuse "statement" "a string or an instance of Cassandra\\Statement"

def readOptions : OptionsArgument α → Except Thrown (Option (ExecutionOptions α))
  | .null => .ok none
  | .array options => (ExecutionOptions.init.buildFromArray options).map some
  | .object options => .ok (some options)
  | .other => refuse "options" "an instance of Cassandra\\ExecutionOptions or an array or null"

/-- What `php_scylladb_get_result` and `cass_result_has_more_pages` say of a result. -/
structure CassResult (ρ : Type) where
  rows : Except Thrown ρ
  hasMorePages : Bool

/-- How the driver settles a future: an error, or a result that may be missing. -/
abbrev Answer (ρ : Type) := Except CassError (Option (CassResult ρ))

structure Rows (β ρ : Type) where
  rows : ρ
  statement : Option (CassStatement β)
  result : Option (CassResult ρ)
  session : Option (DefaultSession)

/-- How a method ends. -/
inductive Ending (β ρ : Type) where
  | returns (rows : Rows β ρ)
  | throws (e : Thrown)
  /-- A null pointer is followed. -/
  | crashes

/-- The loop at the end of `execute`. -/
def finish (self : DefaultSession) (single : Option (CassStatement β)) : Answer ρ → Ending β ρ
  | .error e => .throws (.driver e)
  | .ok none => .throws (.runtime "Future doesn't contain a result.")
  | .ok (some result) =>
    match result.rows with
    | .error e => .throws e
    | .ok rows =>
      if single.isSome && result.hasMorePages then
        .returns ⟨rows, single, some result, some self⟩
      else
        .returns ⟨rows, none, none, none⟩

section Methods

variable (driver : Driver α β) (self : DefaultSession) (statement : StatementArgument α)
  (options : OptionsArgument α) (profile : ProfileArgument)

/-- `DefaultSession::execute`: the request, and how the method goes on. -/
def execute : Except Thrown (Request β × (Answer ρ → Ending β ρ)) := do
  let executionProfile ← readProfile profile
  let stmt ← readStatement statement
  let opts ← readOptions options
  let arguments := opts.bind (·.arguments)
  let consistency := match opts with
    | some opts =>
      if 0 ≤ opts.consistency then toCassConsistency opts.consistency
      else toCassConsistency self.defaultConsistency
    | none => toCassConsistency self.defaultConsistency
  let pageSize := match opts with
    | some opts => if 0 ≤ opts.pageSize then opts.pageSize else self.defaultPageSize
    | none => self.defaultPageSize
  let pagingStateToken := opts.bind (·.pagingStateToken)
  let serialConsistency := match opts with
    | some opts => if 0 ≤ opts.serialConsistency then opts.serialConsistency else -1
    | none => -1
  let retryPolicy := opts.bind (·.retryPolicy)
  let timestamp := opts.elim Int64.minValue (·.timestamp)
  let idempotent := (opts.bind (·.idempotent)).or stmt.idempotent
  match stmt.data with
  | .batch type entries =>
    let batch ← createBatch driver type entries consistency retryPolicy timestamp idempotent
    let batch := { batch with
      settings := batch.settings ++ executionProfile.toList.map .executionProfile }
    return (.batch batch, finish self none)
  | data =>
    let single ← createSingle driver data arguments consistency serialConsistency pageSize
      pagingStateToken retryPolicy timestamp idempotent
    let single := { single with
      settings := single.settings ++ executionProfile.toList.map .executionProfile }
    return (.single single, finish self (some single))

/-- `php_scylladb_future_rows`, without the future itself. -/
structure FutureRows (β ρ : Type) where
  statement : Option (CassStatement β)
  session : Option (DefaultSession)
  result : Option (CassResult ρ)
  rows : Option ρ

/-- `DefaultSession::executeAsync`: the request, and what is returned. -/
def executeAsync : Except Thrown (Request β × FutureRows β ρ) := do
  let executionProfile ← readProfile profile
  let stmt ← readStatement statement
  let opts ← readOptions options
  let arguments := opts.bind (·.arguments)
  let consistency := match opts with
    | some opts =>
      if 0 ≤ opts.consistency then toCassConsistency opts.consistency
      else toCassConsistency self.defaultConsistency
    | none => toCassConsistency self.defaultConsistency
  let pageSize := match opts with
    | some opts => if 0 ≤ opts.pageSize then opts.pageSize else self.defaultPageSize
    | none => self.defaultPageSize
  let pagingStateToken := opts.bind (·.pagingStateToken)
  let serialConsistency := match opts with
    | some opts => if 0 ≤ opts.serialConsistency then opts.serialConsistency else -1
    | none => -1
  let retryPolicy := opts.bind (·.retryPolicy)
  let timestamp := opts.elim Int64.minValue (·.timestamp)
  let idempotent := (opts.bind (·.idempotent)).or stmt.idempotent
  match stmt.data with
  | .batch type entries =>
    let batch ← createBatch driver type entries consistency retryPolicy timestamp idempotent
    let batch := { batch with
      settings := batch.settings ++ executionProfile.toList.map .executionProfile }
    return (.batch batch, ⟨none, none, none, none⟩)
  | data =>
    let single ← createSingle driver data arguments consistency serialConsistency pageSize
      pagingStateToken retryPolicy timestamp idempotent
    let single := { single with
      settings := single.settings ++ executionProfile.toList.map .executionProfile }
    return (.single single, ⟨some single, some self, none, none⟩)

end Methods

namespace FutureRows

/-- `php_scylladb_future_rows_get_result`. -/
def getResult (self : FutureRows β ρ) (answer : Answer ρ) : Except Thrown (CassResult ρ) :=
  match self.result, answer with
  | some result, _ => .ok result
  | none, .error e => .error (.driver e)
  | none, .ok none => .error (.runtime "Future doesn't contain a result.")
  | none, .ok (some result) => .ok result

/-- `FutureRows::get`. -/
def get (self : FutureRows β ρ) (answer : Answer ρ) : Ending β ρ × FutureRows β ρ :=
  match self.getResult answer with
  | .error e => (.throws e, self)
  | .ok result =>
    match (self.rows.map Except.ok).getD result.rows with
    | .error e => (.throws e, { self with result := some result })
    | .ok rows =>
      if result.hasMorePages then
        match self.statement with
        | none => (.crashes, { self with result := some result, rows := some rows })
        | some statement =>
          (.returns ⟨rows, some statement, some result, self.session⟩,
            { self with result := none, rows := some rows })
      else
        (.returns ⟨rows, none, none, none⟩, { self with result := some result, rows := some rows })

end FutureRows

end Session
end ScyllaDriver
