import ScyllaDriver.Paging.Machine

/-!
# Walking along a fixed chain of pages

Against a server that answers every paging state with a fixed page, a query is
a chain of pages. A page object should show the page of its place in the
chain, and a call on it should give the page after it, or null on the last one,
whatever the order of the calls and however many requests are in flight.

All page objects of a query share one statement, and its paging state is what a
request in flight may read, at first or once more. So a call that asks for a
page can divert a request that another call has made for another page.
-/

namespace ScyllaDriver
namespace Paging

variable {ρ τ : Type}

/-- The fixed pages: what is answered to a statement with a paging state. -/
abbrev Server (ρ τ : Type) := Nat → Option τ → Page ρ τ

/-- The pages of a query from a paging state on. -/
def chain (answer : Option τ → Page ρ τ) (start : Option τ) : Nat → Option (Page ρ τ)
  | 0 => some (answer start)
  | n + 1 => (chain answer start n).bind fun page => page.2.map fun t => answer (some t)

section

variable (server : Server ρ τ)

/-- The page with the number `index` of a statement's query. -/
def State.pageAt (s : State ρ τ) (statement index : Nat) : Option (Page ρ τ) :=
  s.statements[statement]?.bind fun st => chain (server statement) st.start index

/-- The answers a call brings are the server's. -/
def Answers (s : State ρ τ) : Call ρ τ → Prop
  | .execute start (.ok page) => page = server s.statements.length start
  | .settle q (.ok page) =>
    ∀ request, s.requests[q]? = some request →
      ∃ t ∈ request.reads, page = server request.statement t
  | .nextPage i (.ok page) =>
    ∀ self, s.rows[i]? = some self → ∀ current, self.result = some current →
      page = server self.statement current.next
  | _ => True

/-- Every page object shows its page, and `isLastPage()` is right. -/
def Faithful (s : State ρ τ) : Prop :=
  ∀ o ∈ s.rows, s.pageAt server o.statement o.index = some o.rows.page ∧
    (o.isLastPage ↔ o.rows.next = none)

/-- To set this paging state diverts no request that is not settled. -/
def Calm (s : State ρ τ) (statement : Nat) (pagingState : Option τ) : Prop :=
  ∀ request ∈ s.requests, request.statement = statement → request.outcome = .pending →
    server statement pagingState = server statement request.wanted

/-- If the page after this one has to be asked for, that diverts no request. -/
def CalmAfter (s : State ρ τ) (i : Nat) : Prop :=
  ∀ self, s.rows[i]? = some self → self.nextResult = none → self.futureNextPage = none →
    ∀ current, self.result = some current → Calm server s self.statement current.next

/-- A call that asks for a page diverts no request. -/
def Undisturbing (s : State ρ τ) : Call ρ τ → Prop
  | .nextPage i _ | .nextPageAsync i => CalmAfter server s i
  | _ => True

/-- The statement holds what each request that may still read it is meant for. -/
def Steady (s : State ρ τ) : Prop :=
  ∀ request ∈ s.requests, request.outcome = .pending →
    ∀ statement, s.statements[request.statement]? = some statement →
      server request.statement statement.pagingState = server request.statement request.wanted

end

/-- The driver's own steps, and waiting for a future. -/
def Quiet : Call ρ τ → Prop
  | .read _ | .settle _ _ | .get _ => True
  | _ => False

/-- A delivery that leads to the page with the number `index`, or an exception. -/
def Delivery.IsPage (s : State ρ τ) (statement index : Nat) : Delivery → Prop
  | .rows k | .futureValue (some k) =>
    ∃ o, s.rows[k]? = some o ∧ o.statement = statement ∧ o.index = index
  | .futureRows f =>
    ∃ future, s.futures[f]? = some future ∧ future.statement = statement ∧ future.index = index
  | .failed _ => True
  | .null | .futureValue none | .unexpectedFuture | .silent => False

/-- From a page object on to the page after it, and to `last` exactly if it is
the last. -/
def LeadsOn (s s' : State ρ τ) (i : Nat) (last d : Delivery) : Prop :=
  ∀ self, s.rows[i]? = some self →
    (self.rows.next = none → d = last) ∧
    (self.rows.next ≠ none → d.IsPage s' self.statement (self.index + 1))

/-- A call on a page leads to the page after it, and to null exactly if it is
the last. -/
def Right (s s' : State ρ τ) (call : Call ρ τ) (d : Delivery) : Prop :=
  match call with
  | .execute _ _ | .executeAsync _ => d.IsPage s' s.statements.length 0
  | .read _ | .settle _ _ => True
  | .nextPage i _ => LeadsOn s s' i .null d
  | .nextPageAsync i => LeadsOn s s' i (.futureValue none) d
  | .get f =>
    ∀ self, s.futures[f]? = some self → d.IsPage s' self.statement self.index

def Statement.SameStart (st st' : Statement τ) : Prop :=
  st'.start = st.start

def Rows.SamePlace (o o' : Rows ρ τ) : Prop :=
  o'.statement = o.statement ∧ o'.index = o.index

def FutureRows.SamePlace (f f' : FutureRows ρ τ) : Prop :=
  f'.statement = f.statement ∧ f'.index = f.index ∧ f'.request = f.request

/-- A request stays what it is, and once settled stays settled. -/
def Request.Later (q q' : Request ρ τ) : Prop :=
  q'.statement = q.statement ∧ q'.index = q.index ∧ q'.wanted = q.wanted ∧
    (q'.outcome = .pending → q.outcome = .pending)

structure Grows (s s' : State ρ τ) : Prop where
  statements : Table.Keeps Statement.SameStart s.statements s'.statements
  requests : Table.Keeps Request.Later s.requests s'.requests
  rows : Table.Keeps Rows.SamePlace s.rows s'.rows
  futures : Table.Keeps FutureRows.SamePlace s.futures s'.futures

theorem Statement.SameStart.refl (st : Statement τ) : st.SameStart st :=
  rfl

theorem Rows.SamePlace.refl (o : Rows ρ τ) : o.SamePlace o :=
  ⟨rfl, rfl⟩

theorem FutureRows.SamePlace.refl (f : FutureRows ρ τ) : f.SamePlace f :=
  ⟨rfl, rfl, rfl⟩

theorem Request.Later.refl (q : Request ρ τ) : q.Later q :=
  ⟨rfl, rfl, rfl, id⟩

namespace Grows

variable {s s' s'' : State ρ τ}

theorem refl (s : State ρ τ) : Grows s s :=
  ⟨.refl Statement.SameStart.refl _, .refl Request.Later.refl _, .refl Rows.SamePlace.refl _,
    .refl FutureRows.SamePlace.refl _⟩

theorem trans (h : Grows s s') (h' : Grows s' s'') : Grows s s'' where
  statements := h.statements.trans (fun _ _ _ e e' => Eq.trans e' e) h'.statements
  requests := h.requests.trans
    (fun _ _ _ e e' => ⟨e'.1.trans e.1, e'.2.1.trans e.2.1, e'.2.2.1.trans e.2.2.1,
      e.2.2.2 ∘ e'.2.2.2⟩) h'.requests
  rows := h.rows.trans (fun _ _ _ e e' => ⟨e'.1.trans e.1, e'.2.trans e.2⟩) h'.rows
  futures := h.futures.trans
    (fun _ _ _ e e' => ⟨e'.1.trans e.1, e'.2.1.trans e.2.1, e'.2.2.trans e.2.2⟩) h'.futures

theorem received (s : State ρ τ) : Grows s s.received :=
  ⟨(refl s).statements, (refl s).requests, (refl s).rows, (refl s).futures⟩

theorem addStatement (s : State ρ τ) (start : Option τ) : Grows s (s.addStatement start) :=
  ⟨(refl s).statements.push _, (refl s).requests, (refl s).rows, (refl s).futures⟩

theorem setPagingState (s : State ρ τ) (statement : Nat) (pagingState : Option τ) :
    Grows s (s.setPagingState statement pagingState) := by
  refine ⟨.modify Statement.SameStart.refl ?_ _ _, (refl s).requests, (refl s).rows,
    (refl s).futures⟩
  exact fun _ => rfl

theorem request (s : State ρ τ) (statement index : Nat) (wanted : Option τ) :
    Grows s (s.request statement index wanted) :=
  ⟨(refl s).statements, (refl s).requests.push _, (refl s).rows, (refl s).futures.push _⟩

theorem addRows (s : State ρ τ) (o : Rows ρ τ) : Grows s (s.addRows o) :=
  ⟨(refl s).statements, (refl s).requests, (refl s).rows.push _, (refl s).futures⟩

theorem setRows {i : Nat} {o o' : Rows ρ τ} (h : s.rows[i]? = some o) (hplace : o.SamePlace o') :
    Grows s (s.setRows i o') :=
  ⟨(refl s).statements, (refl s).requests, .set Rows.SamePlace.refl h hplace, (refl s).futures⟩

theorem setFuture {f : Nat} {future future' : FutureRows ρ τ} (h : s.futures[f]? = some future)
    (hplace : future.SamePlace future') : Grows s (s.setFuture f future') :=
  ⟨(refl s).statements, (refl s).requests, (refl s).rows, .set FutureRows.SamePlace.refl h hplace⟩

theorem setRequest {q : Nat} {request request' : Request ρ τ} (h : s.requests[q]? = some request)
    (hlater : request.Later request') : Grows s (s.setRequest q request') :=
  ⟨(refl s).statements, .set Request.Later.refl h hlater, (refl s).rows, (refl s).futures⟩

theorem create {i : Nat} {self self' : Rows ρ τ} (h : s.rows[i]? = some self)
    (hplace : self.SamePlace self') (r : Response ρ τ) : Grows s (s.create i self' r) := by
  have hplace' : self.SamePlace (self'.create r).2 := ⟨hplace.1, hplace.2⟩
  exact (setRows h hplace').trans (addRows _ _)

end Grows

section

variable {server : Server ρ τ} {s s' : State ρ τ} {k index : Nat} {page : Page ρ τ} {t : τ}

theorem Grows.pageAt (h : Grows s s') (hpage : s.pageAt server k index = some page) :
    s'.pageAt server k index = some page := by
  obtain ⟨st, hst, hchain⟩ := Option.bind_eq_some_iff.mp hpage
  obtain ⟨st', hst', hstart⟩ := h.statements k st hst
  refine Option.bind_eq_some_iff.mpr ⟨st', hst', ?_⟩
  rw [show st'.start = st.start from hstart]
  exact hchain

theorem State.pageAt_succ (hpage : s.pageAt server k index = some page) (hnext : page.2 = some t) :
    s.pageAt server k (index + 1) = some (server k (some t)) := by
  obtain ⟨st, hst, hchain⟩ := Option.bind_eq_some_iff.mp hpage
  refine Option.bind_eq_some_iff.mpr ⟨st, hst, ?_⟩
  simp [chain, hchain, hnext]

theorem State.pageAt_addStatement (server : Server ρ τ) (s : State ρ τ) (start : Option τ) :
    (s.addStatement start).pageAt server s.statements.length 0 =
      some (server s.statements.length start) :=
  Option.bind_eq_some_iff.mpr ⟨⟨start, start⟩, Table.getElem?_push_self _ _, rfl⟩

theorem State.lt_of_pageAt (hpage : s.pageAt server k index = some page) :
    k < s.statements.length := by
  obtain ⟨st, hst, -⟩ := Option.bind_eq_some_iff.mp hpage
  exact (List.getElem?_eq_some_iff.mp hst).1

end

end Paging
end ScyllaDriver
