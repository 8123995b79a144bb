import ScyllaDriver.Session.Execute

/-!
# What a request is made of

`execute` and `executeAsync` make the same request or throw the same exception. The rows
differ in one case: `FutureRows::get` takes over the statement of a result with more pages
without asking if there is one, and for a batch there is none.

The integers of the options reach the driver as they are, if they fit in the 32 bits of the
check or of the field, and the statement is no batch.
-/

namespace ScyllaDriver
namespace Session

open CString Cluster

variable {α β ρ : Type}

theorem bind_eq_ok_iff {ε γ δ : Type} {x : Except ε γ} {f : γ → Except ε δ} {d : δ} :
    (x >>= f) = .ok d ↔ ∃ c, x = .ok c ∧ f c = .ok d := by
  cases x with
  | error e | ok c => simp [bind, Except.bind]

def FutureRows.new (self : DefaultSession) : Request β → FutureRows β ρ
  | .single single => ⟨some single, some self, none, none⟩
  | .batch _ => ⟨none, none, none, none⟩

/-- How `execute` goes on with a request. -/
def finishWith (self : DefaultSession) : Request β → Answer ρ → Ending β ρ
  | .single single => finish self (some single)
  | .batch _ => finish self none

/-! An option counts if it is not negative. -/

def consistencyOf (self : DefaultSession) : Option (ExecutionOptions α) → UInt32
  | some opts =>
    if 0 ≤ opts.consistency then toCassConsistency opts.consistency
    else toCassConsistency self.defaultConsistency
  | none => toCassConsistency self.defaultConsistency

def serialConsistencyOf : Option (ExecutionOptions α) → Int64
  | some opts => if 0 ≤ opts.serialConsistency then opts.serialConsistency else -1
  | none => -1

def pageSizeOf (self : DefaultSession) : Option (ExecutionOptions α) → Int32
  | some opts => if 0 ≤ opts.pageSize then opts.pageSize else self.defaultPageSize
  | none => self.defaultPageSize

def requestOf (driver : Driver α β) (self : DefaultSession) (statement : StatementArgument α)
    (options : OptionsArgument α) (profile : ProfileArgument) : Except Thrown (Request β) := do
  let name ← readProfile profile
  let stmt ← readStatement statement
  let opts ← readOptions options
  let retryPolicy := opts.bind (·.retryPolicy)
  let timestamp := opts.elim Int64.minValue (·.timestamp)
  let idempotent := (opts.bind (·.idempotent)).or stmt.idempotent
  match stmt.data with
  | .batch type entries =>
    let batch ← createBatch driver type entries (consistencyOf self opts) retryPolicy timestamp
      idempotent
    return .batch { batch with settings := batch.settings ++ name.toList.map .executionProfile }
  | data =>
    let single ← createSingle driver data (opts.bind (·.arguments)) (consistencyOf self opts)
      (serialConsistencyOf opts) (pageSizeOf self opts) (opts.bind (·.pagingStateToken))
      retryPolicy timestamp idempotent
    return .single { single with settings := single.settings ++ name.toList.map .executionProfile }

section Methods

variable {driver : Driver α β} {self : DefaultSession} {statement : StatementArgument α}
  {options : OptionsArgument α} {profile : ProfileArgument}

/-- Both methods make one request. -/
theorem execute_executeAsync_eq :
    execute (ρ := ρ) driver self statement options profile =
        ((requestOf driver self statement options profile).map fun request =>
          (request, finishWith self request)) ∧
      executeAsync (ρ := ρ) driver self statement options profile =
        (requestOf driver self statement options profile).map fun request =>
          (request, .new self request) := by
  unfold execute executeAsync requestOf
  cases readProfile profile with
  | error e => exact ⟨rfl, rfl⟩
  | ok executionProfile =>
    cases readStatement statement with
    | error e => exact ⟨rfl, rfl⟩
    | ok stmt =>
      cases readOptions options with
      | error e => exact ⟨rfl, rfl⟩
      | ok opts =>
        simp only [bind, Except.bind, pure, Except.pure]
        cases stmt.data with
        | batch type entries =>
          cases opts <;> dsimp only [consistencyOf] <;> split <;> exact ⟨rfl, rfl⟩
        | _ =>
          cases opts <;> dsimp only [consistencyOf, serialConsistencyOf, pageSizeOf] <;>
            split <;> exact ⟨rfl, rfl⟩

end Methods

def StatementArgument.IsBatch (statement : StatementArgument α) : Prop :=
  ∃ type entries idempotent, statement = .statement ⟨.batch type entries, idempotent⟩

/-- The rows of the result can be shown, and there are more pages. -/
def HasMorePages (answer : Answer ρ) : Prop :=
  ∃ result rows, answer = .ok (some result) ∧ result.rows = .ok rows ∧ result.hasMorePages = true

def Setting.consistency? : Setting → Option Int
  | .consistency level => some level.toNat
  | _ => none

def Setting.serialConsistency? : Setting → Option Int
  | .serialConsistency level => some level.toNat
  | _ => none

def Setting.pagingSize? : Setting → Option Int
  | .pagingSize size => some size.toInt
  | _ => none

def Request.settings : Request β → List Setting
  | .single stmt => stmt.settings
  | .batch stmts => stmts.settings

/-- The three integers of a request, each with all values that were set. -/
def Request.integers (request : Request β) : List Int × List Int × List Int :=
  (request.settings.filterMap Setting.consistency?,
    request.settings.filterMap Setting.serialConsistency?,
    request.settings.filterMap Setting.pagingSize?)

variable {f : Setting → Option Int}

theorem filterMap_ite {p : Prop} [Decidable p] (settings : List Setting) :
    (if p then settings else []).filterMap f = if p then settings.filterMap f else [] := by
  split
  · rfl
  · rfl

theorem filterMap_toList {γ : Type} {set : γ → Setting} (h : ∀ c, f (set c) = none) (o : Option γ) :
    (o.toList.map set).filterMap f = [] := by
  cases o with
  | none => rfl
  | some c => simp [h]

theorem filterMap_singleton (f : Setting → Option Int) (setting : Setting) :
    [setting].filterMap f = (f setting).toList := by
  rw [List.filterMap_cons, List.filterMap_nil]
  cases f setting <;> rfl

section Settings

variable {driver : Driver α β} {data : StatementData α} {arguments : Option (List α)}
  {consistency : UInt32} {serialConsistency : Int64} {pageSize : Int32} {token : Option Bytes}
  {retryPolicy : Option UInt64} {timestamp : Int64} {idempotent : Option Bool}

/-- No other setter says anything of the three integers. -/
structure Reads (f : Setting → Option Int) : Prop where
  token : ∀ c, f (.pagingStateToken c) = none
  policy : ∀ c, f (.retryPolicy c) = none
  timestamp : ∀ c, f (.timestamp c) = none
  idempotent : ∀ c, f (.isIdempotent c) = none
  profile : ∀ c, f (.executionProfile c) = none

theorem reads_consistency : Reads Setting.consistency? := by
  constructor <;> exact fun _ => rfl

theorem reads_serialConsistency : Reads Setting.serialConsistency? := by
  constructor <;> exact fun _ => rfl

theorem reads_pagingSize : Reads Setting.pagingSize? := by
  constructor <;> exact fun _ => rfl

theorem filterMap_singleSettings (hf : Reads f) :
    (singleSettings consistency serialConsistency pageSize token retryPolicy timestamp
        idempotent).filterMap f =
      (f (.consistency consistency)).toList ++
        (if 0 ≤ serialConsistency then
          (f (.serialConsistency (toCassConsistency serialConsistency))).toList else []) ++
        if 0 ≤ pageSize then (f (.pagingSize pageSize)).toList else [] := by
  simp only [singleSettings, List.filterMap_append, filterMap_ite, filterMap_singleton,
    filterMap_toList hf.token, filterMap_toList (fun c => hf.policy (some c)), hf.timestamp,
    filterMap_toList hf.idempotent, Option.toList_none, ite_self, List.append_nil]

theorem filterMap_batchSettings (hf : Reads f) :
    (batchSettings consistency retryPolicy timestamp idempotent).filterMap f =
      (f (.consistency consistency)).toList := by
  simp only [batchSettings, List.filterMap_append, filterMap_ite, hf.timestamp,
    filterMap_toList hf.idempotent, ite_self, List.append_nil, List.filterMap_cons, hf.policy,
    List.filterMap_nil]
  cases f (.consistency consistency) <;> rfl

theorem setAll_eq_ok {settings settings' : List Setting}
    (h : setAll driver settings = .ok settings') : settings' = settings := by
  unfold setAll at h
  split at h
  · cases h
  · exact (Except.ok.inj h).symm

theorem integers_of_createSingle {single : CassStatement β}
    (h : createSingle driver data arguments consistency serialConsistency pageSize token
      retryPolicy timestamp idempotent = .ok single) (name : Option Bytes) :
    (Request.single { single with
        settings := single.settings ++ name.toList.map .executionProfile }).integers =
      ([(consistency.toNat : Int)],
        if 0 ≤ serialConsistency then [((toCassConsistency serialConsistency).toNat : Int)] else [],
        if 0 ≤ pageSize then [pageSize.toInt] else []) := by
  unfold createSingle at h
  obtain ⟨stmt, -, h⟩ := bind_eq_ok_iff.mp h
  obtain ⟨settings, hsettings, h⟩ := bind_eq_ok_iff.mp h
  cases h
  simp only [Request.integers, Request.settings, setAll_eq_ok hsettings, List.filterMap_append,
    filterMap_singleSettings reads_consistency, filterMap_singleSettings reads_serialConsistency,
    filterMap_singleSettings reads_pagingSize, filterMap_toList reads_consistency.profile,
    filterMap_toList reads_serialConsistency.profile, filterMap_toList reads_pagingSize.profile]
  simp [Setting.consistency?, Setting.serialConsistency?, Setting.pagingSize?]

theorem integers_of_createBatch {type : BatchType}
    {entries : List ((Bytes ⊕ StatementData α) × Option (List α))} {batch : CassBatch β}
    (h : createBatch driver type entries consistency retryPolicy timestamp idempotent =
      .ok batch) (name : Option Bytes) :
    (Request.batch { batch with
        settings := batch.settings ++ name.toList.map .executionProfile }).integers =
      ([(consistency.toNat : Int)], [], []) := by
  unfold createBatch at h
  split at h
  · obtain ⟨statements, -, h⟩ := bind_eq_ok_iff.mp h
    obtain ⟨settings, hsettings, h⟩ := bind_eq_ok_iff.mp h
    cases h
    simp only [Request.integers, Request.settings, setAll_eq_ok hsettings, List.filterMap_append,
      filterMap_batchSettings reads_consistency, filterMap_batchSettings reads_serialConsistency,
      filterMap_batchSettings reads_pagingSize, filterMap_toList reads_consistency.profile,
      filterMap_toList reads_serialConsistency.profile, filterMap_toList reads_pagingSize.profile]
    simp [Setting.consistency?, Setting.serialConsistency?, Setting.pagingSize?]
  · cases h

end Settings

theorem isBatch_iff_of_readStatement {statement : StatementArgument α} {stmt : Statement α}
    (h : readStatement statement = .ok stmt) :
    statement.IsBatch ↔ ∃ type entries, stmt.data = .batch type entries := by
  unfold StatementArgument.IsBatch
  cases statement with
  | string cql =>
    cases h
    simp
  | statement statement =>
    cases h
    constructor
    · rintro ⟨type, entries, idempotent, ⟨⟩⟩
      exact ⟨type, entries, rfl⟩
    · rintro ⟨type, entries, hdata⟩
      exact ⟨type, entries, stmt.idempotent, by rw [← hdata]⟩
  | other => cases h

theorem requestOf_eq_ok {driver : Driver α β} {self : DefaultSession}
    {statement : StatementArgument α} {options : OptionsArgument α} {profile : ProfileArgument}
    {request : Request β} (h : requestOf driver self statement options profile = .ok request) :
    ∃ opts, readOptions options = .ok opts ∧
      ((∃ single, request = .single single ∧ ¬ statement.IsBatch ∧ request.integers =
          ([((consistencyOf self opts).toNat : Int)],
            if 0 ≤ serialConsistencyOf opts then
              [((toCassConsistency (serialConsistencyOf opts)).toNat : Int)] else [],
            if 0 ≤ pageSizeOf self opts then [(pageSizeOf self opts).toInt] else [])) ∨
        ∃ batch, request = .batch batch ∧ statement.IsBatch ∧
          request.integers = ([((consistencyOf self opts).toNat : Int)], [], [])) := by
  unfold requestOf at h
  obtain ⟨name, -, h⟩ := bind_eq_ok_iff.mp h
  obtain ⟨stmt, hstatement, h⟩ := bind_eq_ok_iff.mp h
  obtain ⟨opts, hoptions, h⟩ := bind_eq_ok_iff.mp h
  have hbatch := isBatch_iff_of_readStatement hstatement
  refine ⟨opts, hoptions, ?_⟩
  dsimp only at h
  split at h
  · rename_i type entries hdata
    obtain ⟨batch, hcreate, h⟩ := bind_eq_ok_iff.mp h
    cases h
    exact .inr ⟨_, rfl, hbatch.mpr ⟨type, entries, hdata⟩, integers_of_createBatch hcreate name⟩
  · rename_i hdata
    obtain ⟨single, hcreate, h⟩ := bind_eq_ok_iff.mp h
    cases h
    refine .inl ⟨_, rfl, fun hb => ?_, integers_of_createSingle hcreate name⟩
    obtain ⟨type, entries, heq⟩ := hbatch.mp hb
    exact hdata type entries heq

theorem finish_some (self : DefaultSession) (single : CassStatement β) (answer : Answer ρ) :
    finish self (some single) answer = ((FutureRows.new self (.single single)).get answer).1 := by
  unfold finish FutureRows.get FutureRows.getResult FutureRows.new
  match answer with
  | .error e => rfl
  | .ok none => rfl
  | .ok (some result) =>
    dsimp only [Option.map_none, Option.getD_none]
    cases result.rows with
    | error e => rfl
    | ok rows => cases result.hasMorePages <;> rfl

theorem finish_none_eq_iff (self : DefaultSession) (batch : CassBatch β) (answer : Answer ρ) :
    finish self none answer = ((FutureRows.new self (.batch batch)).get answer).1 ↔
      ¬ HasMorePages answer := by
  unfold finish FutureRows.get FutureRows.getResult FutureRows.new HasMorePages
  match answer with
  | .error e => simp
  | .ok none => simp
  | .ok (some result) =>
    dsimp only [Option.map_none, Option.getD_none]
    cases hrows : result.rows with
    | error e => simp [hrows]
    | ok rows => cases hmore : result.hasMorePages <;> simp [hrows, hmore]

/-- `execute` and `executeAsync` throw the same exception or make the same request, and then
come to the same rows, unless the statement is a batch and its result has more pages. -/
theorem executeAsync_agrees_iff
    (driver : Driver α β)
    (self : DefaultSession)
    (statement : StatementArgument α)
    (options : OptionsArgument α)
    (profile : ProfileArgument)
    (answer : Answer ρ) :
    (∀ e, execute (ρ := ρ) driver self statement options profile = .error e ↔
      executeAsync (ρ := ρ) driver self statement options profile = .error e) ∧
    ∀ request finish, execute driver self statement options profile = .ok (request, finish) →
      ∃ future, executeAsync driver self statement options profile = .ok (request, future) ∧
        (finish answer = (future.get answer).1 ↔ ¬ (statement.IsBatch ∧ HasMorePages answer)) := by
  rw [execute_executeAsync_eq.1, execute_executeAsync_eq.2]
  cases hrequest : requestOf driver self statement options profile with
  | error e => simp [Except.map]
  | ok request =>
    refine ⟨by simp [Except.map], ?_⟩
    rintro _ _ ⟨⟩
    refine ⟨_, rfl, ?_⟩
    obtain ⟨-, -, ⟨single, rfl, hno, -⟩ | ⟨batch, rfl, hbatch, -⟩⟩ := requestOf_eq_ok hrequest
    · exact iff_of_true (finish_some self single answer) fun h => hno h.1
    · rw [finishWith, finish_none_eq_iff]
      exact not_congr (and_iff_right hbatch).symm

def willing : Driver Nat Nat where
  newStatement := fun _ => true
  newBatch := fun _ => true
  bindArgument := fun _ argument => .ok argument
  refuses := fun _ => none

/-- An empty batch whose result has more pages: `execute` returns the rows, the `get` of the
future crashes. -/
theorem batch_with_more_pages :
    ∃ request finish future,
      execute (ρ := Nat) willing ⟨0, 1, 5000⟩ (.statement ⟨.batch .logged [], none⟩) .null .null =
          .ok (request, finish) ∧
        executeAsync willing ⟨0, 1, 5000⟩ (.statement ⟨.batch .logged [], none⟩) .null .null =
          .ok (request, future) ∧
        finish (.ok (some ⟨.ok 7, true⟩)) = .returns ⟨7, none, none, none⟩ ∧
        (future.get (.ok (some ⟨.ok 7, true⟩))).1 = .crashes :=
  ⟨_, _, _, rfl, rfl, rfl, rfl⟩

end Session
end ScyllaDriver
