import ScyllaDriver.Library.Table
import ScyllaDriver.Library.Transition
import ScyllaDriver.Paging.Rows

/-!
# A program that pages through its queries

The calls of a program that walks through results, as steps of a machine:
`execute`, `executeAsync`, `nextPage`, `nextPageAsync` and `FutureRows::get`.
All pages of one query share one statement object; before a further page is
asked for, its paging state is set, and then it is executed again.

The driver takes part by two steps of its own for each request in flight. It
reads the paging state of the statement, at any time after the call that
executes it and as often as it sends the request: on a retry, after preparing
again or for a speculative execution the statement is encoded anew. It settles
the request once, with the answer to something that it has read. A call that
waits for its own request ends with the answer, and nothing comes in between.

The fields `start`, `index` and `wanted` are not in the program. They say which
chain of pages a statement walks along, the place of a page in it, and the
paging state a request was meant for.
-/

namespace ScyllaDriver
namespace Paging

structure Statement (τ : Type) where
  start : Option τ
  pagingState : Option τ

/-- An execution of a statement whose future a `FutureRows` holds. -/
structure Request (ρ τ : Type) where
  statement : Nat
  index : Nat
  wanted : Option τ
  /-- The paging states that were read, the last first. -/
  reads : List (Option τ)
  outcome : Outcome (Response ρ τ)

structure State (ρ τ : Type) where
  statements : List (Statement τ)
  requests : List (Request ρ τ)
  rows : List (Rows ρ τ)
  futures : List (FutureRows ρ τ)
  /-- The number of the next response. -/
  serial : Nat

variable {ρ τ : Type}

def State.initial : State ρ τ where
  statements := []
  requests := []
  rows := []
  futures := []
  serial := 0

inductive Call (ρ τ : Type) where
  | execute (start : Option τ) (answer : Except Failure (Page ρ τ))
  | executeAsync (start : Option τ)
  | read (request : Nat)
  | settle (request : Nat) (answer : Except CassError (Page ρ τ))
  | nextPage (rows : Nat) (answer : Except Failure (Page ρ τ))
  | nextPageAsync (rows : Nat)
  | get (future : Nat)

inductive Delivery where
  | rows (rows : Nat)
  | null
  | futureRows (future : Nat)
  /-- A `FutureValue` with a page, or without: its `get()` returns null. -/
  | futureValue (rows : Option Nat)
  /-- An exception. -/
  | failed (e : Failure)
  /-- "Unexpected future instance." -/
  | unexpectedFuture
  /-- A step of the driver. -/
  | silent
  deriving DecidableEq

namespace State

def response (s : State ρ τ) (page : Page ρ τ) : Response ρ τ where
  serial := s.serial
  rows := page.1
  next := page.2

def received (s : State ρ τ) : State ρ τ :=
  { s with serial := s.serial + 1 }

def addStatement (s : State ρ τ) (start : Option τ) : State ρ τ :=
  { s with statements := s.statements ++ [⟨start, start⟩] }

/-- `cass_statement_set_paging_state`. -/
def setPagingState (s : State ρ τ) (statement : Nat) (pagingState : Option τ) : State ρ τ :=
  { s with statements := s.statements.modify statement fun st => { st with pagingState } }

/-- `cass_session_execute`, with the `FutureRows` made for it. -/
def request (s : State ρ τ) (statement index : Nat) (wanted : Option τ) : State ρ τ :=
  { s with
    requests := s.requests ++ [⟨statement, index, wanted, [], .pending⟩]
    futures := s.futures ++ [⟨statement, index, s.requests.length, none, none⟩] }

def setRows (s : State ρ τ) (i : Nat) (self : Rows ρ τ) : State ρ τ :=
  { s with rows := s.rows.set i self }

def addRows (s : State ρ τ) (object : Rows ρ τ) : State ρ τ :=
  { s with rows := s.rows ++ [object] }

def setFuture (s : State ρ τ) (f : Nat) (future : FutureRows ρ τ) : State ρ τ :=
  { s with futures := s.futures.set f future }

def setRequest (s : State ρ τ) (q : Nat) (request : Request ρ τ) : State ρ τ :=
  { s with requests := s.requests.set q request }

/-- `php_scylladb_rows_create` on the object with the number `i`. -/
def create (s : State ρ τ) (i : Nat) (self : Rows ρ τ) (nextResult : Response ρ τ) : State ρ τ :=
  (s.setRows i (self.create nextResult).2).addRows (self.create nextResult).1

/-- `DefaultSession::execute`. -/
def execute (s : State ρ τ) (start : Option τ) : Except Failure (Page ρ τ) → State ρ τ × Delivery
  | .error e => (s.addStatement start, .failed e)
  | .ok page =>
    ((s.addStatement start).received.addRows
        (.new s.statements.length 0 (s.response page) (s.response page).continuation),
      .rows s.rows.length)

/-- `DefaultSession::executeAsync`. -/
def executeAsync (s : State ρ τ) (start : Option τ) : State ρ τ × Delivery :=
  ((s.addStatement start).request s.statements.length 0 start, .futureRows s.futures.length)

/-- The driver encodes the statement for a request that is not settled yet. -/
def read (s : State ρ τ) (q : Nat) : Option (State ρ τ × Delivery) := do
  let request ← s.requests[q]?
  let statement ← s.statements[request.statement]?
  match request.outcome with
  | .pending =>
    some (s.setRequest q { request with reads := statement.pagingState :: request.reads }, .silent)
  | _ => none

/-- The driver sets the future: with an error at any time, with a page once it has sent the
request. -/
def settle (s : State ρ τ) (q : Nat) (answer : Except CassError (Page ρ τ)) :
    Option (State ρ τ × Delivery) := do
  let request ← s.requests[q]?
  match request.outcome, answer, request.reads with
  | .pending, .error e, _ => some (s.setRequest q { request with outcome := .error e }, .silent)
  | .pending, .ok page, _ :: _ =>
    some (s.received.setRequest q { request with outcome := .value (s.response page) }, .silent)
  | _, _, _ => none

/-- How the driver future of a `FutureRows` stands. -/
def outcomeOf (s : State ρ τ) (future : FutureRows ρ τ) : Outcome (Response ρ τ) :=
  match s.requests[future.request]? with
  | some request => request.outcome
  | none => .pending

/-- `Rows::nextPage`. -/
def nextPage (s : State ρ τ) (i : Nat) (answer : Except Failure (Page ρ τ)) :
    Option (State ρ τ × Delivery) := do
  let self ← s.rows[i]?
  match self.nextResult, self.futureNextPage, self.result with
  | some r, _, _ => some (s.create i self r, .rows s.rows.length)
  | none, some (.futureValue _), _ => some (s, .unexpectedFuture)
  | none, some (.futureRows f), _ =>
    let future ← s.futures[f]?
    match future.getResult (s.outcomeOf future) with
    | .error e => some (s, .failed e)
    | .ok r =>
      some ((s.setFuture f { future with result := none }).create i self r, .rows s.rows.length)
  | none, none, none => some (s, .null)
  | none, none, some current =>
    match answer with
    | .error e => some (s.setPagingState self.statement current.next, .failed e)
    | .ok page =>
      some ((s.setPagingState self.statement current.next).received.create i self
        (s.response page), .rows s.rows.length)

/-- `Rows::nextPageAsync`. -/
def nextPageAsync (s : State ρ τ) (i : Nat) : Option (State ρ τ × Delivery) := do
  let self ← s.rows[i]?
  match self.futureNextPage, self.nextResult, self.result with
  | some (.futureRows f), _, _ => some (s, .futureRows f)
  | some (.futureValue k), _, _ => some (s, .futureValue (some k))
  | none, some r, _ =>
    some (s.create i { self with futureNextPage := some (.futureValue s.rows.length) } r,
      .futureValue (some s.rows.length))
  | none, none, none => some (s, .futureValue none)
  | none, none, some current =>
    some (((s.setPagingState self.statement current.next).request self.statement
        (self.index + 1) current.next).setRows i
        { self with futureNextPage := some (.futureRows s.futures.length) },
      .futureRows s.futures.length)

/-- `FutureRows::get`. -/
def get (s : State ρ τ) (f : Nat) : Option (State ρ τ × Delivery) := do
  let self ← s.futures[f]?
  match self.get (s.outcomeOf self) with
  | (.error e, _) => some (s, .failed e)
  | (.ok object, self) => some ((s.setFuture f self).addRows object, .rows s.rows.length)

end State

def step (s : State ρ τ) : Call ρ τ → Option (State ρ τ × Delivery)
  | .execute start answer => some (s.execute start answer)
  | .executeAsync start => some (s.executeAsync start)
  | .read q => s.read q
  | .settle q answer => s.settle q answer
  | .nextPage i answer => s.nextPage i answer
  | .nextPageAsync i => s.nextPageAsync i
  | .get f => s.get f

/-- The state after a call; what it delivers left out. -/
def next (s : State ρ τ) (call : Call ρ τ) : Option (State ρ τ) :=
  (step s call).map Prod.fst

/-- The ways a call can go. -/
inductive Way (s : State ρ τ) : Call ρ τ → State ρ τ → Delivery → Prop
  | executeFailed (start : Option τ) (e : Failure) :
      Way s (.execute start (.error e)) (s.addStatement start) (.failed e)
  | executed (start : Option τ) (page : Page ρ τ) :
      Way s (.execute start (.ok page))
        ((s.addStatement start).received.addRows
          (.new s.statements.length 0 (s.response page) (s.response page).continuation))
        (.rows s.rows.length)
  | executeAsync (start : Option τ) :
      Way s (.executeAsync start) ((s.addStatement start).request s.statements.length 0 start)
        (.futureRows s.futures.length)
  | read {q : Nat} {request : Request ρ τ} {statement : Statement τ} :
      s.requests[q]? = some request →
      s.statements[request.statement]? = some statement →
      request.outcome = .pending →
      Way s (.read q)
        (s.setRequest q { request with reads := statement.pagingState :: request.reads }) .silent
  | settledError {q : Nat} {request : Request ρ τ} {e : CassError} :
      s.requests[q]? = some request →
      request.outcome = .pending →
      Way s (.settle q (.error e)) (s.setRequest q { request with outcome := .error e }) .silent
  | settled {q : Nat} {request : Request ρ τ} {page : Page ρ τ} :
      s.requests[q]? = some request →
      request.outcome = .pending →
      Way s (.settle q (.ok page))
        (s.received.setRequest q { request with outcome := .value (s.response page) }) .silent
  /-- The next page is known and is the last. -/
  | known {i : Nat} {answer : Except Failure (Page ρ τ)} {self : Rows ρ τ} {r : Response ρ τ} :
      s.rows[i]? = some self →
      self.nextResult = some r →
      Way s (.nextPage i answer) (s.create i self r) (.rows s.rows.length)
  | unexpectedFuture {i k : Nat} {answer : Except Failure (Page ρ τ)} {self : Rows ρ τ} :
      s.rows[i]? = some self →
      self.nextResult = none →
      self.futureNextPage = some (.futureValue k) →
      Way s (.nextPage i answer) s .unexpectedFuture
  | futureFailed {i f : Nat} {answer : Except Failure (Page ρ τ)} {self : Rows ρ τ}
      {future : FutureRows ρ τ} {e : Failure} :
      s.rows[i]? = some self →
      self.nextResult = none →
      self.futureNextPage = some (.futureRows f) →
      s.futures[f]? = some future →
      future.getResult (s.outcomeOf future) = .error e →
      Way s (.nextPage i answer) s (.failed e)
  | futureTaken {i f : Nat} {answer : Except Failure (Page ρ τ)} {self : Rows ρ τ}
      {future : FutureRows ρ τ} {r : Response ρ τ} :
      s.rows[i]? = some self →
      self.nextResult = none →
      self.futureNextPage = some (.futureRows f) →
      s.futures[f]? = some future →
      future.getResult (s.outcomeOf future) = .ok r →
      Way s (.nextPage i answer)
        ((s.setFuture f { future with result := none }).create i self r) (.rows s.rows.length)
  | noMore {i : Nat} {answer : Except Failure (Page ρ τ)} {self : Rows ρ τ} :
      s.rows[i]? = some self →
      self.nextResult = none →
      self.futureNextPage = none →
      self.result = none →
      Way s (.nextPage i answer) s .null
  | askedFailed {i : Nat} {e : Failure} {self : Rows ρ τ} {current : Response ρ τ} :
      s.rows[i]? = some self →
      self.nextResult = none →
      self.futureNextPage = none →
      self.result = some current →
      Way s (.nextPage i (.error e)) (s.setPagingState self.statement current.next) (.failed e)
  | asked {i : Nat} {page : Page ρ τ} {self : Rows ρ τ} {current : Response ρ τ} :
      s.rows[i]? = some self →
      self.nextResult = none →
      self.futureNextPage = none →
      self.result = some current →
      Way s (.nextPage i (.ok page))
        ((s.setPagingState self.statement current.next).received.create i self (s.response page))
        (.rows s.rows.length)
  | sameFuture {i f : Nat} {self : Rows ρ τ} :
      s.rows[i]? = some self →
      self.futureNextPage = some (.futureRows f) →
      Way s (.nextPageAsync i) s (.futureRows f)
  | sameValue {i k : Nat} {self : Rows ρ τ} :
      s.rows[i]? = some self →
      self.futureNextPage = some (.futureValue k) →
      Way s (.nextPageAsync i) s (.futureValue (some k))
  | knownAsync {i : Nat} {self : Rows ρ τ} {r : Response ρ τ} :
      s.rows[i]? = some self →
      self.futureNextPage = none →
      self.nextResult = some r →
      Way s (.nextPageAsync i)
        (s.create i { self with futureNextPage := some (.futureValue s.rows.length) } r)
        (.futureValue (some s.rows.length))
  | noMoreAsync {i : Nat} {self : Rows ρ τ} :
      s.rows[i]? = some self →
      self.futureNextPage = none →
      self.nextResult = none →
      self.result = none →
      Way s (.nextPageAsync i) s (.futureValue none)
  | askedAsync {i : Nat} {self : Rows ρ τ} {current : Response ρ τ} :
      s.rows[i]? = some self →
      self.futureNextPage = none →
      self.nextResult = none →
      self.result = some current →
      Way s (.nextPageAsync i)
        (((s.setPagingState self.statement current.next).request self.statement
          (self.index + 1) current.next).setRows i
          { self with futureNextPage := some (.futureRows s.futures.length) })
        (.futureRows s.futures.length)
  | getFailed {f : Nat} {self : FutureRows ρ τ} {e : Failure} :
      s.futures[f]? = some self →
      self.getResult (s.outcomeOf self) = .error e →
      Way s (.get f) s (.failed e)
  | got {f : Nat} {self : FutureRows ρ τ} {r : Response ρ τ} :
      s.futures[f]? = some self →
      self.getResult (s.outcomeOf self) = .ok r →
      Way s (.get f)
        ((s.setFuture f { self with rows := some (self.rows.getD r), result := r.rest }).addRows
          (.new self.statement self.index (self.rows.getD r) r.continuation))
        (.rows s.rows.length)

theorem way_of_step {s s' : State ρ τ} {call : Call ρ τ} {d : Delivery}
    (h : step s call = some (s', d)) : Way s call s' d := by
  cases call with
  | execute start answer =>
    cases answer with
    | error e =>
      cases h
      exact .executeFailed start e
    | ok page =>
      cases h
      exact .executed start page
  | executeAsync start =>
    cases h
    exact .executeAsync start
  | read q =>
    simp only [step, State.read, Option.bind_eq_bind, Option.bind_eq_some_iff] at h
    obtain ⟨request, hrequest, statement, hstatement, h⟩ := h
    split at h
    · cases h
      exact .read hrequest hstatement ‹_›
    · cases h
  | settle q answer =>
    simp only [step, State.settle, Option.bind_eq_bind, Option.bind_eq_some_iff] at h
    obtain ⟨request, hrequest, h⟩ := h
    split at h
    · cases h
      exact .settledError hrequest ‹_›
    · cases h
      exact .settled hrequest ‹_›
    · cases h
  | nextPage i answer =>
    simp only [step, State.nextPage, Option.bind_eq_bind, Option.bind_eq_some_iff] at h
    obtain ⟨self, hself, h⟩ := h
    split at h
    · cases h
      exact .known hself ‹_›
    · cases h
      exact .unexpectedFuture hself ‹_› ‹_›
    · obtain ⟨future, hfuture, h⟩ := Option.bind_eq_some_iff.mp h
      split at h
      · cases h
        exact .futureFailed hself ‹_› ‹_› hfuture ‹_›
      · cases h
        exact .futureTaken hself ‹_› ‹_› hfuture ‹_›
    · cases h
      exact .noMore hself ‹_› ‹_› ‹_›
    · split at h
      · cases h
        exact .askedFailed hself ‹_› ‹_› ‹_›
      · cases h
        exact .asked hself ‹_› ‹_› ‹_›
  | nextPageAsync i =>
    simp only [step, State.nextPageAsync, Option.bind_eq_bind, Option.bind_eq_some_iff] at h
    obtain ⟨self, hself, h⟩ := h
    split at h
    · cases h
      exact .sameFuture hself ‹_›
    · cases h
      exact .sameValue hself ‹_›
    · cases h
      exact .knownAsync hself ‹_› ‹_›
    · cases h
      exact .noMoreAsync hself ‹_› ‹_› ‹_›
    · cases h
      exact .askedAsync hself ‹_› ‹_› ‹_›
  | get f =>
    simp only [step, State.get, Option.bind_eq_bind, Option.bind_eq_some_iff] at h
    obtain ⟨self, hself, h⟩ := h
    cases hr : self.getResult (s.outcomeOf self) with
    | error e =>
      rw [FutureRows.get_of_error hr] at h
      cases h
      exact .getFailed hself hr
    | ok r =>
      rw [FutureRows.get_of_ok hr] at h
      cases h
      exact .got hself hr

end Paging
end ScyllaDriver
