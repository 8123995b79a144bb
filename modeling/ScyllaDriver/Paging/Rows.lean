import ScyllaDriver.Async.DriverFuture

/-!
# Pages of rows

A `Cassandra\Rows` object shows the rows of one page. If there are more pages it
keeps the driver's result, for its paging state, and reaches the next page in
one of two ways: `nextPage()` asks and waits, `nextPageAsync()` makes a
`FutureRows`. What it has learned of the next page stays with it: the decoded
rows for good, the result until it is passed on to the object of that page.

A row array is written here as the response it was decoded from, so that it is
known where it comes from. `index` is the object's place in the chain of pages;
the program has no such field.
-/

namespace ScyllaDriver
namespace Paging

/-- An answer of the server: the rows of a page, and the paging state if there
are more pages. Different answers have different serial numbers. -/
structure Response (ρ τ : Type) where
  serial : Nat
  rows : ρ
  next : Option τ
  deriving DecidableEq

variable {ρ τ : Type}

/-- What a server sends, without the number. -/
abbrev Page (ρ τ : Type) := ρ × Option τ

def Response.page (r : Response ρ τ) : Page ρ τ :=
  (r.rows, r.next)

/-- The result as a continuation: kept if `cass_result_has_more_pages`. -/
def Response.continuation (r : Response ρ τ) : Option (Response ρ τ) :=
  if r.next.isSome then some r else none

/-- The result that stays behind when a continuation is passed on. -/
def Response.rest (r : Response ρ τ) : Option (Response ρ τ) :=
  if r.next.isSome then none else some r

/-- `future_next_page`. -/
inductive NextPage where
  | futureRows (future : Nat)
  | futureValue (rows : Nat)
  deriving DecidableEq

/-- `php_scylladb_rows`. -/
structure Rows (ρ τ : Type) where
  statement : Nat
  index : Nat
  rows : Response ρ τ
  result : Option (Response ρ τ)
  nextRows : Option (Response ρ τ)
  nextResult : Option (Response ρ τ)
  futureNextPage : Option NextPage

/-- An object for a page that was just received. -/
def Rows.new (statement index : Nat) (rows : Response ρ τ) (result : Option (Response ρ τ)) :
    Rows ρ τ where
  statement := statement
  index := index
  rows := rows
  result := result
  nextRows := none
  nextResult := none
  futureNextPage := none

/-- `Rows::isLastPage`. -/
def Rows.isLastPage (self : Rows ρ τ) : Bool :=
  self.result.isNone && self.nextRows.isNone && self.futureNextPage.isNone

/-- `php_scylladb_rows_create`, with the next result it finds: the object of the
next page, and the current one. -/
def Rows.create (current : Rows ρ τ) (nextResult : Response ρ τ) : Rows ρ τ × Rows ρ τ :=
  let nextRows := current.nextRows.getD nextResult
  (.new current.statement (current.index + 1) nextRows nextResult.continuation,
    { current with
      nextRows := some nextRows
      nextResult := nextResult.rest })

/-- `php_scylladb_future_rows`. -/
structure FutureRows (ρ τ : Type) where
  statement : Nat
  index : Nat
  request : Nat
  result : Option (Response ρ τ)
  rows : Option (Response ρ τ)

/-- `php_scylladb_future_rows_get_result`. -/
def FutureRows.getResult (self : FutureRows ρ τ) (outcome : Outcome (Response ρ τ)) :
    Except Failure (Response ρ τ) :=
  match self.result with
  | some r => .ok r
  | none => outcome.wait

/-- `FutureRows::get`. -/
def FutureRows.get (self : FutureRows ρ τ) (outcome : Outcome (Response ρ τ)) :
    Except Failure (Rows ρ τ) × FutureRows ρ τ :=
  match self.getResult outcome with
  | .error e => (.error e, self)
  | .ok r =>
    let rows := self.rows.getD r
    (.ok (.new self.statement self.index rows r.continuation),
      { self with
        rows := some rows
        result := r.rest })

section

variable {r r' : Response ρ τ}

@[simp] theorem Response.mem_rest : r' ∈ r.rest ↔ r.next = none ∧ r = r' := by
  unfold Response.rest
  cases r.next <;> simp

@[simp] theorem Response.mem_continuation : r' ∈ r.continuation ↔ r.next.isSome ∧ r = r' := by
  unfold Response.continuation
  cases r.next <;> simp

variable {self : FutureRows ρ τ} {outcome : Outcome (Response ρ τ)}

theorem FutureRows.get_of_error {e : Failure} (h : self.getResult outcome = .error e) :
    self.get outcome = (.error e, self) := by
  rw [FutureRows.get, h]

theorem FutureRows.get_of_ok (h : self.getResult outcome = .ok r) :
    self.get outcome =
      (.ok (.new self.statement self.index (self.rows.getD r) r.continuation),
        { self with rows := some (self.rows.getD r), result := r.rest }) := by
  rw [FutureRows.get, h]

theorem FutureRows.getResult_eq_ok (h : self.getResult outcome = .ok r) :
    r ∈ self.result ∨ outcome = .value r := by
  unfold FutureRows.getResult at h
  cases hheld : self.result with
  | some held =>
    rw [hheld, Except.ok.injEq] at h
    exact .inl (congrArg some h)
  | none =>
    rw [hheld] at h
    cases outcome with
    | pending => cases h
    | error e => cases h
    | value a =>
      cases h
      exact .inr rfl

end

end Paging
end ScyllaDriver
