import ScyllaDriver.Paging.Chain

/-!
# When every page comes where it belongs

The invariant behind the walk along a chain: what page objects, futures and
requests hold belongs to their places in the chain. It needs that a request
reads the paging state it was made for, and this is kept by exactly the calls
that set no other paging state while a request can still read it.
-/

namespace ScyllaDriver
namespace Paging

variable {ρ τ : Type}

section

variable (server : Server ρ τ) (s : State ρ τ)

/-- The response has the page of this place. -/
def State.Shows (statement index : Nat) (r : Response ρ τ) : Prop :=
  s.pageAt server statement index = some r.page

structure Rows.Sound (o : Rows ρ τ) : Prop where
  rows : s.Shows server o.statement o.index o.rows
  result : ∀ r ∈ o.result, r.page = o.rows.page ∧ r.next.isSome
  last : o.result = none → o.rows.next = none ∧ o.nextRows = none ∧ o.nextResult = none ∧
    o.futureNextPage = none
  nextRows : ∀ r ∈ o.nextRows, s.Shows server o.statement (o.index + 1) r
  nextResult : ∀ r ∈ o.nextResult, s.Shows server o.statement (o.index + 1) r ∧ r.next = none
  future : ∀ f, o.futureNextPage = some (.futureRows f) →
    (Delivery.futureRows f).IsPage s o.statement (o.index + 1)
  value : ∀ k, o.futureNextPage = some (.futureValue k) →
    o.nextResult.isSome ∧ (Delivery.rows k).IsPage s o.statement (o.index + 1)

structure FutureRows.Sound (f : FutureRows ρ τ) : Prop where
  request : ∃ q, s.requests[f.request]? = some q ∧ q.statement = f.statement ∧
    q.index = f.index ∧ (q.outcome = .pending → f.result = none ∧ f.rows = none)
  result : ∀ r ∈ f.result, s.Shows server f.statement f.index r
  rows : ∀ r ∈ f.rows, s.Shows server f.statement f.index r

/-- All it has read leads to its page. -/
structure Request.Sound (q : Request ρ τ) : Prop where
  page : s.pageAt server q.statement q.index = some (server q.statement q.wanted)
  reads : ∀ t ∈ q.reads, server q.statement t = server q.statement q.wanted
  value : ∀ r, q.outcome = .value r → s.Shows server q.statement q.index r

structure State.Sound : Prop where
  rows : ∀ o ∈ s.rows, o.Sound server s
  futures : ∀ f ∈ s.futures, f.Sound server s
  requests : ∀ q ∈ s.requests, q.Sound server s
  held : ∀ j < s.requests.length, ∃ (f : Nat) (future : FutureRows ρ τ),
    s.futures[f]? = some future ∧ future.request = j

end

section

variable {server : Server ρ τ} {s s' : State ρ τ} {o self : Rows ρ τ} {r : Response ρ τ}

variable {d : Delivery} {index statement : Nat}

theorem Delivery.IsPage.grow (h : d.IsPage s statement index) (hgrows : Grows s s') :
    d.IsPage s' statement index := by
  have hrows : ∀ k, (Delivery.rows k).IsPage s statement index →
      (Delivery.rows k).IsPage s' statement index := by
    rintro k ⟨o, ho, hstatement, hindex⟩
    obtain ⟨o', ho', hplace⟩ := hgrows.rows k o ho
    exact ⟨o', ho', hplace.1.trans hstatement, hplace.2.trans hindex⟩
  cases d with
  | rows k => exact hrows k h
  | futureRows f =>
    obtain ⟨future, hfuture, hstatement, hindex⟩ := h
    obtain ⟨future', hfuture', hplace⟩ := hgrows.futures f future hfuture
    exact ⟨future', hfuture', hplace.1.trans hstatement, hplace.2.1.trans hindex⟩
  | futureValue k =>
    cases k with
    | none => exact h
    | some k => exact hrows k h
  | null | failed e | unexpectedFuture | silent => exact h

theorem Rows.Sound.grow (h : o.Sound server s) (hgrows : Grows s s') : o.Sound server s' where
  __ := h
  rows := hgrows.pageAt h.rows
  nextRows := fun r hr => hgrows.pageAt (h.nextRows r hr)
  nextResult := fun r hr => ⟨hgrows.pageAt (h.nextResult r hr).1, (h.nextResult r hr).2⟩
  future := fun f hf => (h.future f hf).grow hgrows
  value := fun k hk => ⟨(h.value k hk).1, (h.value k hk).2.grow hgrows⟩

theorem FutureRows.Sound.grow {f : FutureRows ρ τ} (h : f.Sound server s) (hgrows : Grows s s') :
    f.Sound server s' where
  request := by
    obtain ⟨q, hq, hstatement, hindex, hfresh⟩ := h.request
    obtain ⟨q', hq', hstatement', hindex', -, hpending⟩ := hgrows.requests _ q hq
    exact ⟨q', hq', hstatement'.trans hstatement, hindex'.trans hindex,
      fun hp => hfresh (hpending hp)⟩
  result := fun r hr => hgrows.pageAt (h.result r hr)
  rows := fun r hr => hgrows.pageAt (h.rows r hr)

theorem Request.Sound.grow {q : Request ρ τ} (h : q.Sound server s) (hgrows : Grows s s') :
    q.Sound server s' where
  __ := h
  page := hgrows.pageAt h.page
  value := fun r hr => hgrows.pageAt (h.value r hr)

/-- A state that has grown is sound if its new and changed objects are. -/
theorem State.Sound.grow (h : s.Sound server) (hgrows : Grows s s')
    (hrows : ∀ o ∈ s'.rows, o ∈ s.rows ∨ o.Sound server s')
    (hfutures : ∀ f ∈ s'.futures, f ∈ s.futures ∨ f.Sound server s')
    (hrequests : ∀ q ∈ s'.requests, q ∈ s.requests ∨ q.Sound server s')
    (hheld : ∀ j < s'.requests.length, j < s.requests.length ∨
      ∃ (f : Nat) (future : FutureRows ρ τ), s'.futures[f]? = some future ∧ future.request = j) :
    s'.Sound server where
  rows := fun o ho => (hrows o ho).elim (fun hold => (h.rows o hold).grow hgrows) id
  futures := fun f hf => (hfutures f hf).elim (fun hold => (h.futures f hold).grow hgrows) id
  requests := fun q hq => (hrequests q hq).elim (fun hold => (h.requests q hold).grow hgrows) id
  held := by
    intro j hj
    rcases hheld j hj with hold | hnew
    · obtain ⟨f, future, hfuture, hrequest⟩ := h.held j hold
      obtain ⟨future', hfuture', hplace⟩ := hgrows.futures f future hfuture
      exact ⟨f, future', hfuture', hplace.2.2.trans hrequest⟩
    · exact hnew

namespace State.Sound

theorem initial : (State.initial : State ρ τ).Sound server where
  rows := fun _ h => (List.not_mem_nil h).elim
  futures := fun _ h => (List.not_mem_nil h).elim
  requests := fun _ h => (List.not_mem_nil h).elim
  held := fun _ h => (Nat.not_lt_zero _ h).elim

theorem row (h : s.Sound server) {i : Nat} (hself : s.rows[i]? = some self) : self.Sound server s :=
  h.rows self (List.mem_of_getElem? hself)

theorem future (h : s.Sound server) {f : Nat} {future : FutureRows ρ τ}
    (hfuture : s.futures[f]? = some future) : future.Sound server s :=
  h.futures future (List.mem_of_getElem? hfuture)

theorem received (h : s.Sound server) : s.received.Sound server :=
  h.grow (.received s) (fun _ => .inl) (fun _ => .inl) (fun _ => .inl) (fun _ => .inl)

theorem addStatement (h : s.Sound server) (start : Option τ) :
    (s.addStatement start).Sound server :=
  h.grow (.addStatement s start) (fun _ => .inl) (fun _ => .inl) (fun _ => .inl) (fun _ => .inl)

theorem setPagingState (h : s.Sound server) (statement : Nat) (pagingState : Option τ) :
    (s.setPagingState statement pagingState).Sound server :=
  h.grow (.setPagingState s statement pagingState) (fun _ => .inl) (fun _ => .inl)
    (fun _ => .inl) (fun _ => .inl)

theorem addRows (h : s.Sound server) (ho : o.Sound server s) : (s.addRows o).Sound server := by
  refine h.grow (.addRows s o) ?_ (fun _ => .inl) (fun _ => .inl) (fun _ => .inl)
  exact Table.forall_mem_push (fun _ => .inl) (.inr (ho.grow (.addRows s o)))

theorem setRows (h : s.Sound server) {i : Nat} (hself : s.rows[i]? = some self)
    (hplace : self.SamePlace o) (ho : o.Sound server s) : (s.setRows i o).Sound server := by
  refine h.grow (.setRows hself hplace) ?_ (fun _ => .inl) (fun _ => .inl) (fun _ => .inl)
  exact Table.forall_mem_set (fun _ => .inl) (.inr (ho.grow (.setRows hself hplace)))

theorem setFuture (h : s.Sound server) {f : Nat} {future future' : FutureRows ρ τ}
    (hfuture : s.futures[f]? = some future) (hplace : future.SamePlace future')
    (hsound : future'.Sound server s) : (s.setFuture f future').Sound server := by
  refine h.grow (.setFuture hfuture hplace) (fun _ => .inl) ?_ (fun _ => .inl) (fun _ => .inl)
  exact Table.forall_mem_set (fun _ => .inl) (.inr (hsound.grow (.setFuture hfuture hplace)))

theorem setRequest (h : s.Sound server) {q : Nat} {request request' : Request ρ τ}
    (hrequest : s.requests[q]? = some request) (hlater : request.Later request')
    (hsound : request'.Sound server s) : (s.setRequest q request').Sound server := by
  refine h.grow (.setRequest hrequest hlater) (fun _ => .inl) (fun _ => .inl) ?_ ?_
  · exact Table.forall_mem_set (fun _ => .inl) (.inr (hsound.grow (.setRequest hrequest hlater)))
  · intro j hj
    exact .inl (by simpa [State.setRequest] using hj)

theorem request (h : s.Sound server) {statement index : Nat} {wanted : Option τ}
    (hpage : s.pageAt server statement index = some (server statement wanted)) :
    (s.request statement index wanted).Sound server := by
  have hgrows := Grows.request s statement index wanted
  refine h.grow hgrows (fun _ => .inl) (Table.forall_mem_push (fun _ => .inl) (.inr ?_))
    (Table.forall_mem_push (fun _ => .inl) (.inr ?_)) ?_
  · exact
      { request := ⟨_, Table.getElem?_push_self _ _, rfl, rfl, fun _ => ⟨rfl, rfl⟩⟩
        result := fun _ hr => (Option.not_mem_none _ hr).elim
        rows := fun _ hr => (Option.not_mem_none _ hr).elim }
  · exact
      { page := hgrows.pageAt hpage
        reads := fun t ht => by cases ht
        value := fun r hr => by cases hr }
  · intro j hj
    rcases Nat.lt_succ_iff_lt_or_eq.mp (by simpa [State.request] using hj) with hlt | rfl
    · exact .inl hlt
    · exact .inr ⟨s.futures.length, _, Table.getElem?_push_self _ _, rfl⟩

end State.Sound

theorem Response.next_eq_of_page_eq {r' : Response ρ τ} (h : r.page = r'.page) : r.next = r'.next :=
  congrArg Prod.snd h

theorem Rows.sound_new {rows : Response ρ τ} (hshows : s.Shows server statement index rows)
    (hpage : r.page = rows.page) :
    (Rows.new statement index rows r.continuation).Sound server s where
  rows := hshows
  result := by
    intro r' hr'
    obtain ⟨hmore, rfl⟩ := Response.mem_continuation.mp hr'
    exact ⟨hpage, hmore⟩
  last := by
    intro hnone
    refine ⟨?_, rfl, rfl, rfl⟩
    rw [show (Rows.new statement index rows r.continuation).rows.next = r.next from
      (Response.next_eq_of_page_eq hpage).symm]
    cases hnext : r.next with
    | none => rfl
    | some t => simp [Rows.new, Response.continuation, hnext] at hnone
  nextRows := fun _ h => (Option.not_mem_none _ h).elim
  nextResult := fun _ h => (Option.not_mem_none _ h).elim
  future := fun _ h => by cases h
  value := fun _ h => by cases h

theorem State.Shows.page_eq {r' : Response ρ τ} (h : s.Shows server statement index r)
    (h' : s.Shows server statement index r') :
    r.page = r'.page :=
  Option.some.inj (h.symm.trans h')

theorem State.getElem?_create (s : State ρ τ) (i : Nat) (self : Rows ρ τ) (r : Response ρ τ) :
    (s.create i self r).rows[s.rows.length]? = some (self.create r).1 := by
  have h := Table.getElem?_push_self (s.rows.set i (self.create r).2) (self.create r).1
  rwa [List.length_set] at h

/-- `php_scylladb_rows_create` with a response of the next place; the object may
become the value of a future at the same time. -/
theorem State.Sound.create (h : s.Sound server) {i : Nat} (hself : s.rows[i]? = some self)
    (hmore : self.result ≠ none) (hr : s.Shows server self.statement (self.index + 1) r)
    {future : Option NextPage}
    (hfuture : future = self.futureNextPage ∨ future = some (.futureValue s.rows.length))
    (hvalue : ∀ k, future = some (.futureValue k) → r.next = none) :
    (s.create i { self with futureNextPage := future } r).Sound server ∧
      (Delivery.rows s.rows.length).IsPage (s.create i { self with futureNextPage := future } r)
        self.statement (self.index + 1) := by
  have hplace : self.SamePlace { self with futureNextPage := future } := ⟨rfl, rfl⟩
  have hgrows := Grows.create hself hplace r
  have hsound := (h.row hself).grow hgrows
  have hshows := hgrows.pageAt hr
  have hnew : (Delivery.rows s.rows.length).IsPage
      (s.create i { self with futureNextPage := future } r) self.statement (self.index + 1) :=
    ⟨_, State.getElem?_create s i _ r, rfl, rfl⟩
  have hnext : (s.create i { self with futureNextPage := future } r).Shows server self.statement
      (self.index + 1) (self.nextRows.getD r) := by
    cases hknown : self.nextRows with
    | none => exact hshows
    | some known => exact hsound.nextRows known hknown
  refine ⟨h.grow hgrows ?_ (fun _ => .inl) (fun _ => .inl) (fun _ => .inl), hnew⟩
  refine Table.forall_mem_push (Table.forall_mem_set (fun _ => .inl) (.inr ?_))
    (.inr (Rows.sound_new hnext (State.Shows.page_eq hshows hnext)))
  exact
    { hsound with
      last := fun hnone => absurd hnone hmore
      nextRows := by
        intro r' hr'
        obtain rfl := Option.some.inj hr'
        exact hnext
      nextResult := by
        intro r' hr'
        obtain ⟨hlast, rfl⟩ := Response.mem_rest.mp hr'
        exact ⟨hshows, hlast⟩
      future := by
        intro f hf
        rcases hfuture with rfl | rfl
        · exact hsound.future f hf
        · cases hf
      value := by
        intro k hk
        refine ⟨Option.isSome_iff_exists.mpr ⟨r, Response.mem_rest.mpr ⟨hvalue k hk, rfl⟩⟩, ?_⟩
        rcases hfuture with rfl | rfl
        · exact (hsound.value k hk).2
        · cases hk
          exact hnew }

section

variable {f : Nat} {future : FutureRows ρ τ}

theorem State.Sound.shows_of_getResult (h : s.Sound server) (hfuture : s.futures[f]? = some future)
    (hr : future.getResult (s.outcomeOf future) = .ok r) :
    s.Shows server future.statement future.index r := by
  have hsound := h.future hfuture
  rcases FutureRows.getResult_eq_ok hr with hheld | hvalue
  · exact hsound.result r hheld
  · obtain ⟨q, hq, hstatement, hindex, -⟩ := hsound.request
    simp only [State.outcomeOf, hq] at hvalue
    rw [← hstatement, ← hindex]
    exact (h.requests q (List.mem_of_getElem? hq)).value r hvalue

theorem State.Sound.future_of_getResult (h : s.Sound server) (hfuture : s.futures[f]? = some future)
    (hr : future.getResult (s.outcomeOf future) = .ok r) {future' : FutureRows ρ τ}
    (hplace : future.SamePlace future')
    (hresult : ∀ r ∈ future'.result, s.Shows server future.statement future.index r)
    (hrows : ∀ r ∈ future'.rows, s.Shows server future.statement future.index r) :
    future'.Sound server s := by
  have hsound := h.future hfuture
  obtain ⟨hstatement', hindex', hrequest'⟩ := hplace
  refine ⟨?_, hstatement' ▸ hindex' ▸ hresult, hstatement' ▸ hindex' ▸ hrows⟩
  obtain ⟨q, hq, hstatement, hindex, hfresh⟩ := hsound.request
  refine ⟨q, hrequest' ▸ hq, hstatement.trans hstatement'.symm, hindex.trans hindex'.symm, ?_⟩
  intro hpending
  -- a pending request gives no result
  rw [FutureRows.getResult, (hfresh hpending).1] at hr
  simp only [State.outcomeOf, hq, hpending] at hr
  cases hr

end

theorem State.Sound.steady_addStatement (h : s.Sound server) (hsteady : Steady server s)
    (start : Option τ) : Steady server (s.addStatement start) := by
  intro q hq hpending st hst
  have hlt := State.lt_of_pageAt (h.requests q hq).page
  exact hsteady q hq hpending st ((List.getElem?_append_left hlt).symm.trans hst)

theorem steady_request {wanted : Option τ}
    (hwanted : ∀ st, s.statements[statement]? = some st → st.pagingState = wanted) :
    Steady server (s.request statement index wanted) ↔ Steady server s := by
  constructor
  · exact fun hsteady q hq => hsteady q (List.mem_append_left _ hq)
  · intro hsteady
    refine Table.forall_mem_push hsteady ?_
    intro _ st hst
    rw [hwanted st hst]

theorem Steady.settled
    {j : Nat}
    {request : Request ρ τ}
    (hsteady : Steady server s)
    (hsettled : request.outcome ≠ .pending) :
    Steady server (s.setRequest j request) :=
  Table.forall_mem_set hsteady fun hpending => absurd hpending hsettled

theorem Steady.read
    {j : Nat}
    {request : Request ρ τ}
    (hsteady : Steady server s)
    (hrequest : s.requests[j]? = some request)
    (reads : List (Option τ)) :
    Steady server (s.setRequest j { request with reads }) :=
  Table.forall_mem_set hsteady (hsteady request (List.mem_of_getElem? hrequest))

/-- To set a paging state diverts no request exactly if it is calm. -/
theorem State.Sound.steady_setPagingState (h : s.Sound server) (hsteady : Steady server s)
    (statement : Nat) (pagingState : Option τ) :
    Steady server (s.setPagingState statement pagingState) ↔
      Calm server s statement pagingState := by
  constructor
  · rintro hset q hq rfl hpending
    have hlt := State.lt_of_pageAt (h.requests q hq).page
    have hst := List.getElem?_eq_getElem hlt
    refine hset q hq hpending { s.statements[q.statement] with pagingState } ?_
    simp [State.setPagingState, hst]
  · intro hcalm q hq hpending st hst
    rw [State.setPagingState, List.getElem?_modify] at hst
    by_cases hq' : statement = q.statement
    · subst hq'
      simp only [if_true, Option.map_eq_map, Option.map_eq_some_iff] at hst
      obtain ⟨_, _, rfl⟩ := hst
      exact hcalm q hq rfl hpending
    · exact hsteady q hq hpending st (by simpa [hq'] using hst)

theorem Rows.Sound.next_eq_none_iff (h : o.Sound server s) :
    o.rows.next = none ↔ o.result = none := by
  refine ⟨fun hnext => ?_, fun hnone => (h.last hnone).1⟩
  cases hresult : o.result with
  | none => rfl
  | some r =>
    obtain ⟨hpage, hmore⟩ := h.result r hresult
    rw [Response.next_eq_of_page_eq hpage, hnext] at hmore
    cases hmore

theorem Rows.Sound.more_of_nextResult (h : o.Sound server s) (hr : o.nextResult = some r) :
    o.result ≠ none := by
  intro hnone
  cases (h.last hnone).2.2.1.symm.trans hr

theorem Rows.Sound.more_of_future {page : NextPage} (h : o.Sound server s)
    (hfuture : o.futureNextPage = some page) : o.result ≠ none := by
  intro hnone
  cases (h.last hnone).2.2.2.symm.trans hfuture

theorem Rows.Sound.asked_page {current : Response ρ τ} (h : o.Sound server s)
    (hresult : o.result = some current) :
    s.pageAt server o.statement (o.index + 1) = some (server o.statement current.next) := by
  obtain ⟨hpage, hmore⟩ := h.result current hresult
  obtain ⟨t, ht⟩ := Option.isSome_iff_exists.mp hmore
  rw [ht]
  refine State.pageAt_succ h.rows ?_
  exact (congrArg Prod.snd hpage).symm.trans ht

section

variable {i : Nat} {last : Delivery} {current : Response ρ τ} (hself : s.rows[i]? = some self)
include hself

theorem Rows.Sound.leadsOn_of_more (h : self.Sound server s) (hmore : self.result ≠ none)
    (hd : d.IsPage s' self.statement (self.index + 1)) : LeadsOn s s' i last d :=
  Table.forall_of_getElem? hself
    ⟨fun hnone => absurd (h.next_eq_none_iff.mp hnone) hmore, fun _ => hd⟩

theorem Rows.Sound.leadsOn_of_last (h : self.Sound server s) (hlast : self.result = none) :
    LeadsOn s s' i d d :=
  Table.forall_of_getElem? hself
    ⟨fun _ => rfl, fun hnext => absurd (h.next_eq_none_iff.mpr hlast) hnext⟩

theorem calmAfter_iff (hnone : self.nextResult = none) (hfuture : self.futureNextPage = none)
    (hresult : self.result = some current) :
    CalmAfter server s i ↔ Calm server s self.statement current.next := by
  refine ⟨fun h => h self hself hnone hfuture current hresult, fun h => ?_⟩
  refine Table.forall_of_getElem? hself fun _ _ current' hcurrent' => ?_
  rw [← Option.some.inj (hresult.symm.trans hcurrent')]
  exact h

theorem calmAfter_of_not_asked
    (hnot : self.nextResult ≠ none ∨ self.futureNextPage ≠ none ∨ self.result = none) :
    CalmAfter server s i := by
  refine Table.forall_of_getElem? hself fun hnone hfuture current hcurrent => ?_
  simp [hnone, hfuture, hcurrent] at hnot

end

/-- A call on a page object leads on, and the requests stay on their way exactly
if it asks calmly. -/
structure Goes (server : Server ρ τ) (s s' : State ρ τ) (i : Nat) (last d : Delivery) : Prop where
  sound : s'.Sound server
  leadsOn : LeadsOn s s' i last d
  steady : Steady server s' ↔ CalmAfter server s i

section

variable {i : Nat} {last : Delivery} {answer : Except Failure (Page ρ τ)}

/-- On the last page there is nothing to ask for. -/
theorem State.Sound.goes_of_last (h : s.Sound server) (hsteady : Steady server s)
    (hself : s.rows[i]? = some self) (hlast : self.result = none) : Goes server s s i d d where
  sound := h
  leadsOn := (h.row hself).leadsOn_of_last hself hlast
  steady := iff_of_true hsteady (calmAfter_of_not_asked hself (.inr (.inr hlast)))

/-- The next page is the last and known. -/
theorem State.Sound.goes_of_nextResult (h : s.Sound server) (hself : s.rows[i]? = some self)
    (hr : self.nextResult = some r) (hsound' : s'.Sound server) (hsteady' : Steady server s')
    (hpage : d.IsPage s' self.statement (self.index + 1)) : Goes server s s' i last d where
  sound := hsound'
  leadsOn := (h.row hself).leadsOn_of_more hself ((h.row hself).more_of_nextResult hr) hpage
  steady := iff_of_true hsteady' (calmAfter_of_not_asked hself (.inl (by simp [hr])))

/-- The next page is in a future already. -/
theorem State.Sound.goes_of_future {page : NextPage} (h : s.Sound server)
    (hself : s.rows[i]? = some self) (hnext : self.futureNextPage = some page)
    (hsound' : s'.Sound server) (hsteady' : Steady server s')
    (hpage : d.IsPage s' self.statement (self.index + 1)) : Goes server s s' i last d where
  sound := hsound'
  leadsOn := (h.row hself).leadsOn_of_more hself ((h.row hself).more_of_future hnext) hpage
  steady := iff_of_true hsteady' (calmAfter_of_not_asked hself (.inr (.inl (by simp [hnext]))))

theorem State.Sound.create_nextResult (h : s.Sound server) (hself : s.rows[i]? = some self)
    (hr : self.nextResult = some r) {future : Option NextPage}
    (hfuture : future = self.futureNextPage ∨ future = some (.futureValue s.rows.length)) :
    (s.create i { self with futureNextPage := future } r).Sound server ∧
      (Delivery.rows s.rows.length).IsPage (s.create i { self with futureNextPage := future } r)
        self.statement (self.index + 1) := by
  obtain ⟨hshows, hlast⟩ := (h.row hself).nextResult r hr
  exact h.create hself ((h.row hself).more_of_nextResult hr) hshows hfuture fun _ _ => hlast

/-- `nextPage()` takes the response out of the future of `nextPageAsync()`. -/
theorem State.Sound.create_taken {f : Nat} {future : FutureRows ρ τ} (h : s.Sound server)
    (hself : s.rows[i]? = some self) (hnext : self.futureNextPage = some (.futureRows f))
    (hfuture : s.futures[f]? = some future)
    (hr : future.getResult (s.outcomeOf future) = .ok r) :
    ((s.setFuture f { future with result := none }).create i self r).Sound server ∧
      (Delivery.rows s.rows.length).IsPage
        ((s.setFuture f { future with result := none }).create i self r)
        self.statement (self.index + 1) := by
  have hsound := h.row hself
  obtain ⟨future', hfuture', hstatement, hindex⟩ := hsound.future f hnext
  obtain rfl := Option.some.inj (hfuture.symm.trans hfuture')
  have hplace : future.SamePlace { future with result := none } := ⟨rfl, rfl, rfl⟩
  have htaken := h.setFuture hfuture hplace (h.future_of_getResult hfuture hr hplace
    (fun _ hr => (Option.not_mem_none _ hr).elim) (h.future hfuture).rows)
  have hshows : s.Shows server self.statement (self.index + 1) r := by
    rw [← hstatement, ← hindex]
    exact h.shows_of_getResult hfuture hr
  refine htaken.create hself (hsound.more_of_future hnext) hshows (.inl rfl) fun k hk => ?_
  cases hnext.symm.trans hk

theorem State.Sound.nextPage (h : s.Sound server) (hsteady : Steady server s)
    (hanswers : Answers server s (.nextPage i answer)) (hway : Way s (.nextPage i answer) s' d) :
    Goes server s s' i .null d := by
  cases hway with
  | known hself hr =>
    obtain ⟨hsound', hpage⟩ := h.create_nextResult hself hr (.inl rfl)
    exact h.goes_of_nextResult hself hr hsound' hsteady hpage
  | @unexpectedFuture _ k _ _ hself hnone hfuture =>
    -- the value of a future is the last page, and `nextResult` is set along with it
    have hsome := ((h.row hself).value k hfuture).1
    rw [hnone] at hsome
    cases hsome
  | futureFailed hself _ hnext => exact h.goes_of_future hself hnext h hsteady trivial
  | futureTaken hself _ hnext hfuture hr =>
    obtain ⟨hsound', hpage⟩ := h.create_taken hself hnext hfuture hr
    exact h.goes_of_future hself hnext hsound' hsteady hpage
  | noMore hself _ _ hlast => exact h.goes_of_last hsteady hself hlast
  | askedFailed hself hnone hfuture hresult =>
    refine ⟨h.setPagingState _ _,
      (h.row hself).leadsOn_of_more hself (by simp [hresult]) trivial, ?_⟩
    exact (h.steady_setPagingState hsteady _ _).trans
      (calmAfter_iff hself hnone hfuture hresult).symm
  | @asked _ page self current hself hnone hfuture hresult =>
    have hsound := h.row hself
    have hmore : self.result ≠ none := by simp [hresult]
    have hshows : (s.setPagingState self.statement current.next).received.Shows server
        self.statement (self.index + 1) (s.response page) := by
      have hasked := (Grows.setPagingState s self.statement current.next).pageAt
        (hsound.asked_page hresult)
      rw [← hanswers self hself current hresult] at hasked
      exact hasked
    obtain ⟨hsound', hpage⟩ := (h.setPagingState self.statement current.next).received.create
      hself hmore hshows (.inl rfl) (by
        intro k hk
        cases hfuture.symm.trans hk)
    refine ⟨hsound', hsound.leadsOn_of_more hself hmore hpage, ?_⟩
    exact (h.steady_setPagingState hsteady _ _).trans
      (calmAfter_iff hself hnone hfuture hresult).symm

/-- To ask for the next page in a request of its own. -/
theorem State.Sound.goes_askedAsync {current : Response ρ τ} (h : s.Sound server)
    (hsteady : Steady server s) (hself : s.rows[i]? = some self)
    (hfuture : self.futureNextPage = none) (hnone : self.nextResult = none)
    (hresult : self.result = some current) :
    Goes server s
      (((s.setPagingState self.statement current.next).request self.statement
        (self.index + 1) current.next).setRows i
        { self with futureNextPage := some (.futureRows s.futures.length) })
      i last (.futureRows s.futures.length) := by
  have hsound := h.row hself
  have hmore : self.result ≠ none := by simp [hresult]
  have hgrows := Grows.setPagingState s self.statement current.next
  have hrequested := (h.setPagingState self.statement current.next).request
    (hgrows.pageAt (hsound.asked_page hresult))
  have hpage : (Delivery.futureRows s.futures.length).IsPage
      ((s.setPagingState self.statement current.next).request self.statement
        (self.index + 1) current.next) self.statement (self.index + 1) :=
    ⟨_, Table.getElem?_push_self _ _, rfl, rfl⟩
  have hplace : self.SamePlace
      { self with futureNextPage := some (.futureRows s.futures.length) } :=
    ⟨rfl, rfl⟩
  have hself' : Rows.Sound server _
      { self with futureNextPage := some (.futureRows s.futures.length) } :=
    { (hsound.grow hgrows).grow (.request _ self.statement (self.index + 1) current.next) with
      last := fun hlast => absurd hlast hmore
      future := by
        rintro f ⟨⟩
        exact hpage
      value := fun k hk => by cases hk }
  have hwanted : ∀ st,
      (s.setPagingState self.statement current.next).statements[self.statement]? = some st →
        st.pagingState = current.next := by
    intro st hst
    simp only [State.setPagingState, List.getElem?_modify, if_true, Option.map_eq_map,
      Option.map_eq_some_iff] at hst
    obtain ⟨_, _, rfl⟩ := hst
    rfl
  refine ⟨hrequested.setRows hself hplace hself',
    hsound.leadsOn_of_more hself hmore (hpage.grow (.setRows hself hplace)), ?_⟩
  exact (steady_request hwanted).trans ((h.steady_setPagingState hsteady _ _).trans
    (calmAfter_iff hself hnone hfuture hresult).symm)

theorem State.Sound.nextPageAsync (h : s.Sound server) (hsteady : Steady server s)
    (hway : Way s (.nextPageAsync i) s' d) : Goes server s s' i (.futureValue none) d := by
  cases hway with
  | @sameFuture _ f _ hself hnext =>
    exact h.goes_of_future hself hnext h hsteady ((h.row hself).future f hnext)
  | @sameValue _ k _ hself hnext =>
    exact h.goes_of_future hself hnext h hsteady ((h.row hself).value k hnext).2
  | knownAsync hself _ hr =>
    obtain ⟨hsound', hpage⟩ := h.create_nextResult hself hr (.inr rfl)
    exact h.goes_of_nextResult hself hr hsound' hsteady hpage
  | noMoreAsync hself _ _ hlast => exact h.goes_of_last hsteady hself hlast
  | askedAsync hself hfuture hnone hresult =>
    exact h.goes_askedAsync hsteady hself hfuture hnone hresult

end

/-- `get()` gives the page of the future's place, again and again. -/
theorem State.Sound.got {f : Nat} {self : FutureRows ρ τ} (h : s.Sound server)
    (hself : s.futures[f]? = some self) (hr : self.getResult (s.outcomeOf self) = .ok r) :
    ((s.setFuture f { self with rows := some (self.rows.getD r), result := r.rest }).addRows
      (.new self.statement self.index (self.rows.getD r) r.continuation)).Sound server := by
  have hshows := h.shows_of_getResult hself hr
  have hrows : s.Shows server self.statement self.index (self.rows.getD r) := by
    cases hheld : self.rows with
    | none => exact hshows
    | some held => exact (h.future hself).rows held hheld
  have hplace : self.SamePlace { self with rows := some (self.rows.getD r), result := r.rest } :=
    ⟨rfl, rfl, rfl⟩
  have hset := h.setFuture hself hplace (h.future_of_getResult hself hr hplace
    (fun r' hr' => (Response.mem_rest.mp hr').2 ▸ hshows)
    (fun r' hr' => Option.some.inj hr' ▸ hrows))
  exact hset.addRows (Rows.sound_new hrows (State.Shows.page_eq hshows hrows))

/-- The answer of a request is what it is meant for, if all it has read is. -/
theorem State.Sound.settled {q : Nat} {request : Request ρ τ} {page : Page ρ τ}
    (h : s.Sound server) (hanswers : Answers server s (.settle q (.ok page)))
    (hrequest : s.requests[q]? = some request) :
    (s.received.setRequest q { request with outcome := .value (s.response page) }).Sound
      server := by
  have hsound := h.requests request (List.mem_of_getElem? hrequest)
  refine h.received.setRequest hrequest ⟨rfl, rfl, rfl, fun hp => by cases hp⟩
    { hsound with value := ?_ }
  rintro r ⟨⟩
  obtain ⟨t, ht, hanswer⟩ := hanswers request hrequest
  have hpage : page = server request.statement request.wanted := hanswer.trans (hsound.reads t ht)
  have hplace := hsound.page
  rw [← hpage] at hplace
  exact hplace

theorem State.Sound.executed {start : Option τ} {page : Page ρ τ} (h : s.Sound server)
    (hanswers : Answers server s (.execute start (.ok page))) :
    ((s.addStatement start).received.addRows
      (.new s.statements.length 0 (s.response page) (s.response page).continuation)).Sound
      server := by
  have hpage : (s.addStatement start).received.Shows server s.statements.length 0
      (s.response page) := by
    have hfirst := State.pageAt_addStatement server s start
    rw [← show page = server s.statements.length start from hanswers] at hfirst
    exact hfirst
  exact (h.addStatement start).received.addRows (Rows.sound_new hpage rfl)

variable {call : Call ρ τ}

/-- One call, whichever it is. -/
theorem sound_step (h : s.Sound server) (hsteady : Steady server s)
    (hanswers : Answers server s call) (hstep : step s call = some (s', d)) :
    s'.Sound server ∧ Right s s' call d ∧ (Steady server s' ↔ Undisturbing server s call) := by
  have hway := way_of_step hstep
  cases call with
  | execute start answer =>
    have hsteady' := h.steady_addStatement hsteady start
    cases hway with
    | executeFailed => exact ⟨h.addStatement start, trivial, iff_of_true hsteady' trivial⟩
    | executed =>
      exact ⟨h.executed hanswers, ⟨_, Table.getElem?_push_self _ _, rfl, rfl⟩,
        iff_of_true hsteady' trivial⟩
  | executeAsync start =>
    cases hway
    refine ⟨(h.addStatement start).request (State.pageAt_addStatement server s start),
      ⟨_, Table.getElem?_push_self _ _, rfl, rfl⟩, iff_of_true ?_ trivial⟩
    refine (steady_request ?_).mpr (h.steady_addStatement hsteady start)
    exact Table.forall_of_getElem? (Table.getElem?_push_self _ _) rfl
  | read q =>
    cases hway with | @read _ request statement hrequest hstatement hpending =>
    have hmem := List.mem_of_getElem? hrequest
    have hsound := h.requests request hmem
    have hread := hsteady request hmem hpending statement hstatement
    exact ⟨h.setRequest hrequest ⟨rfl, rfl, rfl, id⟩
        { hsound with reads := List.forall_mem_cons.mpr ⟨hread, hsound.reads⟩ },
      trivial, iff_of_true (hsteady.read hrequest _) trivial⟩
  | settle q answer =>
    cases hway with
    | settledError hrequest _ =>
      have hsound := h.requests _ (List.mem_of_getElem? hrequest)
      exact ⟨h.setRequest hrequest ⟨rfl, rfl, rfl, fun hp => by cases hp⟩
          { hsound with value := fun _ hr => by cases hr },
        trivial, iff_of_true (hsteady.settled (by simp)) trivial⟩
    | settled hrequest _ =>
      exact ⟨h.settled hanswers hrequest, trivial,
        iff_of_true (Steady.settled (s := s.received) hsteady (by simp)) trivial⟩
  | nextPage i answer =>
    have hgoes := h.nextPage hsteady hanswers hway
    exact ⟨hgoes.sound, hgoes.leadsOn, hgoes.steady⟩
  | nextPageAsync i =>
    have hgoes := h.nextPageAsync hsteady hway
    exact ⟨hgoes.sound, hgoes.leadsOn, hgoes.steady⟩
  | get f =>
    cases hway with
    | getFailed => exact ⟨h, fun _ _ => trivial, iff_of_true hsteady trivial⟩
    | got hself hr =>
      exact ⟨h.got hself hr,
        Table.forall_of_getElem? hself ⟨_, Table.getElem?_push_self _ _, rfl, rfl⟩,
        iff_of_true hsteady trivial⟩

/-- What a run of undisturbing calls keeps. -/
structure OnTrack (server : Server ρ τ) (s : State ρ τ) : Prop where
  sound : s.Sound server
  steady : Steady server s

theorem OnTrack.next (h : OnTrack server s) (hanswers : Answers server s call)
    (hundisturbing : Undisturbing server s call) (hnext : next s call = some s') :
    OnTrack server s' := by
  obtain ⟨⟨_, d⟩, hstep, rfl⟩ := Option.map_eq_some_iff.mp hnext
  obtain ⟨hsound, -, hsteady⟩ := sound_step h.sound h.steady hanswers hstep
  exact ⟨hsound, hsteady.mpr hundisturbing⟩

end

end Paging
end ScyllaDriver
