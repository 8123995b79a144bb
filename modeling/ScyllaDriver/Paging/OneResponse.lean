import ScyllaDriver.Paging.Machine

/-!
# Rows and continuation of one response

A page object carries rows and, if there are more, the result its next paging
state is taken from. Whatever the server answers, the two should come from one
response. `nextPage()` breaks this when it is repeated on a page whose next
page was shown before and has a successor: the result of that page went to the
object shown then, so the page is asked for again, but the rows decoded the
first time are kept.
-/

namespace ScyllaDriver
namespace Paging

variable {ρ τ : Type}

/-- Every page object carries rows and continuation of one response. -/
def OneResponse (s : State ρ τ) : Prop :=
  ∀ o ∈ s.rows, o.result = o.rows.continuation

/-- A call of `nextPage()` on a page whose next page is known by its rows only
is harmless if it ends with the response they came from, or with none. -/
def Harmless (s : State ρ τ) (self : Rows ρ τ) (answer : Except Failure (Page ρ τ)) : Prop :=
  self.nextResult = none → ∀ known ∈ self.nextRows,
    match self.futureNextPage with
    | some (.futureRows f) => ∀ future, s.futures[f]? = some future →
        ∀ r, future.getResult (s.outcomeOf future) = .ok r → known = r
    | some (.futureValue _) => True
    | none => ∀ page, answer ≠ .ok page

def Allowed (s : State ρ τ) : Call ρ τ → Prop
  | .nextPage i answer => ∀ self, s.rows[i]? = some self → Harmless s self answer
  | _ => True

/-- What is kept of the next page is of one response, which came before number
`serial`; its result is kept if it is the last page. -/
structure Rows.Paired (serial : Nat) (o : Rows ρ τ) : Prop where
  result : o.result = o.rows.continuation
  nextResult : ∀ r ∈ o.nextResult, o.nextRows = some r ∧ r.next = none
  nextRows : ∀ r ∈ o.nextRows, r.serial < serial ∧ (o.nextResult = none → r.next.isSome)
  last : o.result = none → o.nextRows = none ∧ o.futureNextPage = none

structure State.Paired (s : State ρ τ) : Prop where
  rows : ∀ o ∈ s.rows, o.Paired s.serial
  futures : ∀ f ∈ s.futures, ∀ r, r ∈ f.result ∨ r ∈ f.rows → s.outcomeOf f = .value r
  requests : ∀ q ∈ s.requests, ∀ r, q.outcome = .value r → r.serial < s.serial

section

variable {s s' : State ρ τ} {o self : Rows ρ τ} {r : Response ρ τ} {n m i f : Nat}

theorem Rows.Paired.mono (h : o.Paired n) (hle : n ≤ m) : o.Paired m where
  __ := h
  nextRows := fun r hr => ⟨(h.nextRows r hr).1.trans_le hle, (h.nextRows r hr).2⟩

theorem Rows.paired_new (statement index : Nat) (r : Response ρ τ) :
    (Rows.new statement index r r.continuation).Paired n where
  result := rfl
  nextResult := fun _ h => (Option.not_mem_none _ h).elim
  nextRows := fun _ h => (Option.not_mem_none _ h).elim
  last := fun _ => ⟨rfl, rfl⟩

theorem Rows.Paired.create (h : self.Paired n) (hmore : self.result ≠ none) (hserial : r.serial < n)
    (hknown : ∀ known ∈ self.nextRows, known = r) :
    (self.create r).1.Paired n ∧ (self.create r).2.Paired n := by
  have hrows : self.nextRows.getD r = r := by
    cases hnext : self.nextRows with
    | none => rfl
    | some known => exact hknown known hnext
  refine ⟨?_, ?_⟩
  · simp only [Rows.create, hrows]
    exact Rows.paired_new _ _ r
  · simp only [Rows.create, hrows]
    refine ⟨h.result, ?_, ?_, fun hnone => absurd hnone hmore⟩
    · intro r' hr'
      obtain ⟨hlast, rfl⟩ := Response.mem_rest.mp hr'
      exact ⟨rfl, hlast⟩
    · intro r' hr'
      obtain rfl := Option.some.inj hr'
      refine ⟨hserial, fun hrest => ?_⟩
      cases hnext : r.next with
      | some _ => rfl
      | none => simp [Response.rest, hnext] at hrest

theorem Rows.Paired.known_eq (h : self.Paired n) (hnone : self.nextResult = none)
    (hone : (self.create r).1.result = (self.create r).1.rows.continuation) :
    ∀ known ∈ self.nextRows, known = r := by
  intro known hknown
  have hmore := (h.nextRows known hknown).2 hnone
  have hsome : r.continuation = known.continuation := by
    simpa [Rows.create, Rows.new, Option.mem_def.mp hknown] using hone
  have hmem : known ∈ r.continuation := by
    rw [hsome]
    exact Response.mem_continuation.mpr ⟨hmore, rfl⟩
  exact (Response.mem_continuation.mp hmem).2.symm

variable {future : FutureRows ρ τ}

theorem State.outcomeOf_eq_value :
    s.outcomeOf future = .value r ↔
      ∃ request, s.requests[future.request]? = some request ∧ request.outcome = .value r := by
  unfold State.outcomeOf
  cases s.requests[future.request]? <;> simp

theorem State.Paired.outcomeOf_of_getResult (h : s.Paired) (hfuture : s.futures[f]? = some future)
    (hr : future.getResult (s.outcomeOf future) = .ok r) :
    s.outcomeOf future = .value r := by
  rcases FutureRows.getResult_eq_ok hr with hheld | hvalue
  · exact h.futures future (List.mem_of_getElem? hfuture) r (.inl hheld)
  · exact hvalue

theorem State.Paired.serial_of_getResult (h : s.Paired) (hfuture : s.futures[f]? = some future)
    (hr : future.getResult (s.outcomeOf future) = .ok r) :
    r.serial < s.serial := by
  obtain ⟨request, hrequest, houtcome⟩ :=
    State.outcomeOf_eq_value.mp (h.outcomeOf_of_getResult hfuture hr)
  exact h.requests request (List.mem_of_getElem? hrequest) r houtcome

theorem State.paired_initial : (State.initial : State ρ τ).Paired where
  rows := fun _ h => (List.not_mem_nil h).elim
  futures := fun _ h => (List.not_mem_nil h).elim
  requests := fun _ h => (List.not_mem_nil h).elim

theorem State.Paired.received (h : s.Paired) : s.received.Paired where
  rows := fun o ho => (h.rows o ho).mono (Nat.le_succ _)
  futures := h.futures
  requests := fun q hq r hr => (h.requests q hq r hr).trans (Nat.lt_succ_self _)

theorem State.Paired.addStatement (h : s.Paired) (start : Option τ) :
    (s.addStatement start).Paired :=
  ⟨h.rows, h.futures, h.requests⟩

theorem State.Paired.setPagingState (h : s.Paired) (statement : Nat) (pagingState : Option τ) :
    (s.setPagingState statement pagingState).Paired :=
  ⟨h.rows, h.futures, h.requests⟩

theorem State.Paired.addRows (h : s.Paired) (ho : o.Paired s.serial) : (s.addRows o).Paired :=
  ⟨Table.forall_mem_push h.rows ho, h.futures, h.requests⟩

theorem State.Paired.setRows (h : s.Paired) (ho : o.Paired s.serial) : (s.setRows i o).Paired :=
  ⟨Table.forall_mem_set h.rows ho, h.futures, h.requests⟩

theorem State.Paired.create (h : s.Paired) (hself : self.Paired s.serial)
    (hmore : self.result ≠ none) (hserial : r.serial < s.serial)
    (hknown : ∀ known ∈ self.nextRows, known = r) : (s.create i self r).Paired := by
  obtain ⟨hnew, hold⟩ := hself.create hmore hserial hknown
  exact (h.setRows hold).addRows hnew

theorem State.Paired.setFuture (h : s.Paired) {future : FutureRows ρ τ}
    (hfuture : ∀ r, r ∈ future.result ∨ r ∈ future.rows → s.outcomeOf future = .value r) :
    (s.setFuture f future).Paired :=
  ⟨h.rows, Table.forall_mem_set h.futures hfuture, h.requests⟩

theorem State.Paired.setRequest (h : s.Paired) {q : Nat} {request request' : Request ρ τ}
    (hrequest : s.requests[q]? = some request)
    (hkept : ∀ r, request.outcome = .value r → request'.outcome = .value r)
    (hserial : ∀ r, request'.outcome = .value r → r.serial < s.serial) :
    (s.setRequest q request').Paired := by
  refine ⟨h.rows, ?_, Table.forall_mem_set h.requests hserial⟩
  intro future hfuture r hr
  obtain ⟨held, hheld, houtcome⟩ := State.outcomeOf_eq_value.mp (h.futures future hfuture r hr)
  rw [State.outcomeOf_eq_value]
  by_cases hq : q = future.request
  · subst hq
    obtain rfl : request = held := Option.some.inj (hrequest.symm.trans hheld)
    exact ⟨request', List.getElem?_set_self (List.getElem?_eq_some_iff.mp hheld).1,
      hkept r houtcome⟩
  · exact ⟨held, (List.getElem?_set_ne hq).trans hheld, houtcome⟩

theorem State.Paired.request (h : s.Paired) (statement index : Nat) (wanted : Option τ) :
    (s.request statement index wanted).Paired := by
  refine ⟨h.rows, Table.forall_mem_push ?_ ?_, Table.forall_mem_push h.requests ?_⟩
  · intro future hfuture r hr
    obtain ⟨held, hheld, houtcome⟩ := State.outcomeOf_eq_value.mp (h.futures future hfuture r hr)
    exact State.outcomeOf_eq_value.mpr ⟨held, Table.getElem?_push hheld _, houtcome⟩
  · rintro r (hr | hr)
    · cases hr
    · cases hr
  · intro r hr
    cases hr

theorem State.Paired.oneResponse (h : s.Paired) : OneResponse s :=
  fun o ho => (h.rows o ho).result

theorem allowed_nextPage {answer : Except Failure (Page ρ τ)} (hself : s.rows[i]? = some self) :
    Allowed s (.nextPage i answer) ↔ Harmless s self answer := by
  refine ⟨fun h => h self hself, fun h o ho => ?_⟩
  obtain rfl : self = o := Option.some.inj (hself.symm.trans ho)
  exact h

theorem mem_create (s : State ρ τ) (i : Nat) (self : Rows ρ τ) (r : Response ρ τ) :
    (self.create r).1 ∈ (s.create i self r).rows :=
  List.mem_append_right _ (List.mem_singleton.mpr rfl)

/-- The last response is given to the page object it follows, which may keep the
object as a future's value. -/
theorem State.Paired.create_known (h : s.Paired) (hself : s.rows[i]? = some self)
    (hr : self.nextResult = some r) (future : Option NextPage) :
    (s.create i { self with futureNextPage := future } r).Paired := by
  have hpaired := h.rows self (List.mem_of_getElem? hself)
  obtain ⟨hnext, -⟩ := hpaired.nextResult r hr
  have hmore : self.result ≠ none := by
    intro hnone
    rw [(hpaired.last hnone).1] at hnext
    cases hnext
  refine h.create { hpaired with last := fun hnone => absurd hnone hmore } hmore
    (hpaired.nextRows r hnext).1 fun known hknown => ?_
  exact Option.some.inj (hknown.symm.trans hnext)

/-- A call that takes the response of a future is harmless if the rows are from it. -/
theorem harmless_taken_iff {answer : Except Failure (Page ρ τ)} (hnone : self.nextResult = none)
    (hnext : self.futureNextPage = some (.futureRows f)) (hfuture : s.futures[f]? = some future)
    (hr : future.getResult (s.outcomeOf future) = .ok r) :
    Harmless s self answer ↔ ∀ known ∈ self.nextRows, known = r := by
  unfold Harmless
  rw [hnext]
  constructor
  · intro hharmless known hknown
    exact hharmless hnone known hknown future hfuture r hr
  · intro heq _ known hknown future' hfuture' r' hr'
    obtain rfl := Option.some.inj (hfuture.symm.trans hfuture')
    cases hr.symm.trans hr'
    exact heq known hknown

/-- A response that was asked for is new, so that no rows are from it. -/
theorem Rows.Paired.harmless_asked_iff {page : Page ρ τ} (h : self.Paired s.serial)
    (hnone : self.nextResult = none) (hnext : self.futureNextPage = none) :
    Harmless s self (.ok page) ↔ ∀ known ∈ self.nextRows, known = s.response page := by
  unfold Harmless
  rw [hnext]
  constructor
  · intro hharmless known hknown
    exact absurd rfl (hharmless hnone known hknown page)
  · intro heq _ known hknown
    have hlt := (h.nextRows known hknown).1
    rw [heq known hknown] at hlt
    exact absurd hlt (lt_irrefl _)

/-- A step keeps the invariant if it is allowed, and else shows a page of two
responses. -/
theorem paired_step {call : Call ρ τ} {d : Delivery} (h : s.Paired)
    (hstep : step s call = some (s', d)) :
    (Allowed s call → s'.Paired) ∧ (OneResponse s' → Allowed s call) := by
  cases way_of_step hstep with
  | executeFailed start e => exact ⟨fun _ => h.addStatement start, fun _ => trivial⟩
  | executed start page =>
    exact ⟨fun _ => (h.addStatement start).received.addRows (Rows.paired_new _ _ _),
      fun _ => trivial⟩
  | executeAsync start => exact ⟨fun _ => (h.addStatement start).request _ _ _, fun _ => trivial⟩
  | read hrequest _ _ =>
    refine ⟨fun _ => h.setRequest hrequest (fun _ hr => hr) ?_, fun _ => trivial⟩
    exact fun r hr => h.requests _ (List.mem_of_getElem? hrequest) r hr
  | settledError hrequest hpending =>
    refine ⟨fun _ => h.setRequest hrequest ?_ ?_, fun _ => trivial⟩
    · intro r hr
      cases hpending.symm.trans hr
    · intro r hr
      cases hr
  | settled hrequest hpending =>
    refine ⟨fun _ => h.received.setRequest hrequest ?_ ?_, fun _ => trivial⟩
    · intro r hr
      cases hpending.symm.trans hr
    · rintro r ⟨⟩
      exact Nat.lt_succ_self _
  | @known i answer self r hself hr =>
    rw [allowed_nextPage hself]
    refine ⟨fun _ => h.create_known hself hr self.futureNextPage, fun _ hnone => ?_⟩
    cases hr.symm.trans hnone
  | unexpectedFuture hself hnone hfuture =>
    rw [allowed_nextPage hself]
    refine ⟨fun _ => h, fun _ _ known _ => ?_⟩
    rw [hfuture]
    trivial
  | futureFailed hself hnone hnext hfuture hr =>
    rw [allowed_nextPage hself]
    refine ⟨fun _ => h, fun _ _ known _ => ?_⟩
    rw [hnext]
    intro future' hfuture' r hr'
    obtain rfl := Option.some.inj (hfuture.symm.trans hfuture')
    cases hr.symm.trans hr'
  | @futureTaken i f answer self future r hself hnone hnext hfuture hr =>
    have hpaired := h.rows self (List.mem_of_getElem? hself)
    have hmore : self.result ≠ none := by
      intro hlast
      rw [(hpaired.last hlast).2] at hnext
      cases hnext
    have hset : (s.setFuture f { future with result := none }).Paired := by
      refine h.setFuture ?_
      rintro r' (hr' | hr')
      · cases hr'
      · exact h.futures future (List.mem_of_getElem? hfuture) r' (.inr hr')
    rw [allowed_nextPage hself, harmless_taken_iff hnone hnext hfuture hr]
    exact ⟨hset.create hpaired hmore (h.serial_of_getResult hfuture hr),
      fun hone => hpaired.known_eq hnone (hone _ (mem_create _ i self r))⟩
  | noMore hself _ _ hlast =>
    have hpaired := h.rows _ (List.mem_of_getElem? hself)
    rw [allowed_nextPage hself]
    refine ⟨fun _ => h, fun _ _ known hknown => ?_⟩
    rw [(hpaired.last hlast).1] at hknown
    cases hknown
  | askedFailed hself hnone hnext _ =>
    rw [allowed_nextPage hself]
    refine ⟨fun _ => h.setPagingState _ _, fun _ _ known _ => ?_⟩
    rw [hnext]
    exact fun page hpage => by cases hpage
  | @asked i page self current hself hnone hnext hmore =>
    have hpaired := h.rows self (List.mem_of_getElem? hself)
    rw [allowed_nextPage hself, hpaired.harmless_asked_iff hnone hnext]
    refine ⟨?_, fun hone => hpaired.known_eq hnone (hone _ (mem_create _ i self _))⟩
    exact (h.setPagingState _ _).received.create (hpaired.mono (Nat.le_succ _))
      (by simp [hmore]) (Nat.lt_succ_self _)
  | knownAsync hself _ hr => exact ⟨fun _ => h.create_known hself hr _, fun _ => trivial⟩
  | @askedAsync i self current hself _ _ hmore =>
    have hpaired := h.rows self (List.mem_of_getElem? hself)
    refine ⟨fun _ => ((h.setPagingState _ _).request _ _ _).setRows
      ⟨hpaired.result, hpaired.nextResult, hpaired.nextRows, ?_⟩, fun _ => trivial⟩
    intro hnone
    cases hmore.symm.trans hnone
  | sameFuture _ _ | sameValue _ _ | noMoreAsync _ _ _ _ | getFailed _ _ =>
    exact ⟨fun _ => h, fun _ => trivial⟩
  | @got f self r hself hr =>
    have houtcome := h.outcomeOf_of_getResult hself hr
    have hrows : self.rows.getD r = r := by
      cases hheld : self.rows with
      | none => rfl
      | some held =>
        have hvalue := h.futures self (List.mem_of_getElem? hself) held (.inr hheld)
        cases houtcome.symm.trans hvalue
        rfl
    rw [hrows]
    refine ⟨fun _ => State.Paired.addRows (h.setFuture ?_) (Rows.paired_new _ _ _),
      fun _ => trivial⟩
    rintro r' (hr' | hr')
    · obtain ⟨-, rfl⟩ := Response.mem_rest.mp hr'
      exact houtcome
    · obtain rfl := Option.some.inj hr'
      exact houtcome

/-- In every state of a run of allowed calls each page object carries rows and
continuation of one response, and a further call leaves it so exactly if it is
allowed. -/
theorem one_response_iff_allowed
    (hreach : Transition.Reachable next Allowed State.initial s) :
    OneResponse s ∧ ∀ call s', next s call = some s' → (OneResponse s' ↔ Allowed s call) := by
  have hkept : ∀ (s : State ρ τ) call s', s.Paired → Allowed s call → next s call = some s' →
      s'.Paired := by
    intro s call s' hs hallowed hnext
    obtain ⟨⟨_, d⟩, hstep, rfl⟩ := Option.map_eq_some_iff.mp hnext
    exact (paired_step hs hstep).1 hallowed
  have hpaired : s.Paired := hreach.invariant State.paired_initial hkept
  refine ⟨hpaired.oneResponse, fun call s' hnext => ?_⟩
  obtain ⟨⟨_, d⟩, hstep, rfl⟩ := Option.map_eq_some_iff.mp hnext
  obtain ⟨hkeeps, hneeds⟩ := paired_step hpaired hstep
  exact ⟨hneeds, fun hallowed => (hkeeps hallowed).oneResponse⟩

end

def firstPage : State Nat Nat where
  statements := [⟨none, none⟩]
  requests := []
  rows := [.new 0 0 ⟨0, 10, some 1⟩ (some ⟨0, 10, some 1⟩)]
  futures := []
  serial := 1

theorem one_response_iff_allowed_firstPage :
    OneResponse firstPage ∧
      ∀ call s', next firstPage call = some s' → (OneResponse s' ↔ Allowed firstPage call) := by
  have hallowed : Allowed (ρ := Nat) (τ := Nat) .initial (.execute none (.ok (10, some 1))) :=
    trivial
  have hreach : Transition.Reachable next Allowed .initial firstPage :=
    Transition.Reachable.init.step hallowed rfl
  exact one_response_iff_allowed hreach

/-- The second `nextPage()` gives the rows of the first answer with the
continuation of the second. -/
theorem nextPage_mixes_responses :
    ((next firstPage (.nextPage 0 (.ok (20, some 2)))).bind fun s =>
        (next s (.nextPage 0 (.ok (21, some 3)))).bind fun s =>
          s.rows[2]?.map fun o => (o.rows, o.result)) =
      some (⟨1, 20, some 2⟩, some ⟨2, 21, some 3⟩) :=
  rfl

end Paging
end ScyllaDriver
