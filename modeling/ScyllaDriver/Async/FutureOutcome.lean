import ScyllaDriver.Cluster.FutureSession
import ScyllaDriver.Paging.Rows

/-!
# Asking a future more than once

Sequences of `get()` calls on one future object whose driver future ends in a
given way. A call comes before the driver future is settled, and its wait times
out, or after. `FutureRows` and `FuturePreparedStatement` deliver the outcome
to every call that comes after, whatever went before. `FutureSession` gives up
its session or its driver future when a call fails.
-/

namespace ScyllaDriver
namespace FutureOutcome

open Cluster Paging

/-- A call before (`false`) or after (`true`) the driver future is settled. -/
abbrev Call := Bool

section

variable {σ δ : Type}

/-- The calls of a sequence with what each of them delivers. -/
def deliveries (get : σ → Call → δ × σ) : σ → List Call → List (Call × δ)
  | _, [] => []
  | s, call :: calls =>
    (call, (get s call).1) :: deliveries get (get s call).2 calls

/-- Every call that comes after the driver future is settled delivers `d`. -/
def Delivers (get : σ → Call → δ × σ) (s : σ) (d : δ) (calls : List Call) : Prop :=
  ∀ delivery ∈ deliveries get s calls, delivery.1 = true → delivery.2 = d

variable {get : σ → Call → δ × σ} {s : σ} {d : δ}

@[simp] theorem delivers_nil : Delivers get s d [] := by
  intro delivery h
  cases h

@[simp] theorem delivers_cons {call : Call} {calls : List Call} :
    Delivers get s d (call :: calls) ↔
      (call = true → (get s call).1 = d) ∧ Delivers get (get s call).2 d calls := by
  simp [Delivers, deliveries]

/-- States in which a call leads to such a state again, and delivers `d` after
the future is settled. -/
theorem Delivers.of_invariant {P : σ → Prop}
    (hstep : ∀ s call, P s → (call = true → (get s call).1 = d) ∧ P (get s call).2) (hs : P s)
    (calls : List Call) : Delivers get s d calls := by
  induction calls generalizing s with
  | nil => exact delivers_nil
  | cons call calls ih =>
    obtain ⟨hdelivers, hnext⟩ := hstep s call hs
    exact delivers_cons.mpr ⟨hdelivers, ih hnext⟩

theorem delivers_of_fixed {x : δ} (hfixed : ∀ call, get s call = (x, s)) (calls : List Call) :
    Delivers get s d calls ↔ (true ∈ calls → x = d) := by
  induction calls with
  | nil => simp
  | cons call calls ih =>
    rw [delivers_cons, hfixed call, ih]
    cases call with
    | false => simp
    | true =>
      simp only [List.mem_cons, true_or, true_implies]
      exact ⟨fun h => h.1, fun h => ⟨h, fun _ => h⟩⟩

end

def seen {α : Type} (settled : Except CassError α) : Call → Outcome α
  | false => .pending
  | true =>
    match settled with
    | .error e => .error e
    | .ok a => .value a

section

variable {ρ τ : Type} (settled : Except CassError (Response ρ τ))

/-- A `FutureRows` as it is returned to the program. -/
def freshRows (ρ τ : Type) (statement index request : Nat) : FutureRows ρ τ where
  statement := statement
  index := index
  request := request
  result := none
  rows := none

def getRows (self : FutureRows ρ τ) (call : Call) : Except Failure (Rows ρ τ) × FutureRows ρ τ :=
  self.get (seen settled call)

def rowsOutcome (self : FutureRows ρ τ) : Except Failure (Rows ρ τ) :=
  match settled with
  | .error e => .error (.driverError e)
  | .ok r => .ok (.new self.statement self.index r r.continuation)

/-- The future holds nothing but the driver's result. -/
def RowsSound (start : FutureRows ρ τ) (self : FutureRows ρ τ) : Prop :=
  self.statement = start.statement ∧ self.index = start.index ∧
    (∀ r ∈ self.result, settled = .ok r) ∧ ∀ r ∈ self.rows, settled = .ok r

theorem getRows_step {start self : FutureRows ρ τ} (h : RowsSound settled start self)
    (call : Call) :
    (call = true → (getRows settled self call).1 = rowsOutcome settled start) ∧
      RowsSound settled start (getRows settled self call).2 := by
  obtain ⟨hstatement, hindex, hresult, hrows⟩ := h
  cases hr : self.getResult (seen settled call) with
  | error e =>
    rw [getRows, FutureRows.get_of_error hr]
    refine ⟨?_, hstatement, hindex, hresult, hrows⟩
    rintro rfl
    cases hheld : self.result with
    | some held => simp [FutureRows.getResult, hheld] at hr
    | none =>
      cases settled <;> simp_all [FutureRows.getResult, seen, Outcome.wait, rowsOutcome]
  | ok r =>
    -- a result that is held or waited for is the driver's
    have hok : settled = .ok r := by
      rcases FutureRows.getResult_eq_ok hr with hheld | hvalue
      · exact hresult r hheld
      · cases call <;> cases settled <;> simp_all [seen]
    have hsame : self.rows.getD r = r := by
      cases hheld : self.rows with
      | none => rfl
      | some held =>
        have hrow := hrows held hheld
        rw [hok, Except.ok.injEq] at hrow
        exact hrow.symm
    rw [getRows, FutureRows.get_of_ok hr, hsame]
    refine ⟨fun _ => ?_, hstatement, hindex, ?_, ?_⟩
    · simp [rowsOutcome, hok, hstatement, hindex]
    · intro r' hr'
      rw [← (Response.mem_rest.mp hr').2]
      exact hok
    · intro r' hr'
      rw [← Option.some.inj hr']
      exact hok

theorem getRows_delivers (statement index request : Nat) (calls : List Call) :
    Delivers (getRows settled) (freshRows ρ τ statement index request)
      (rowsOutcome settled (freshRows ρ τ statement index request)) calls := by
  have hfresh : RowsSound settled (freshRows ρ τ statement index request)
      (freshRows ρ τ statement index request) :=
    ⟨rfl, rfl, fun _ h => (Option.not_mem_none _ h).elim, fun _ h => (Option.not_mem_none _ h).elim⟩
  exact Delivers.of_invariant
    (P := RowsSound settled (freshRows ρ τ statement index request))
    (fun self call h => getRows_step settled h call) hfresh calls

end

section

variable {π : Type} (settled : Except CassError π)

/-- `FuturePreparedStatement::get`, on the statement object it has cached. -/
def getPrepared (self : Option π) (call : Call) : Except Failure π × Option π :=
  match self with
  | some statement => (.ok statement, self)
  | none =>
    match (seen settled call).wait with
    | .error e => (.error e, none)
    | .ok statement => (.ok statement, some statement)

def preparedOutcome : Except Failure π :=
  match settled with
  | .error e => .error (.driverError e)
  | .ok statement => .ok statement

theorem getPrepared_delivers (calls : List Call) :
    Delivers (getPrepared settled) none (preparedOutcome settled) calls := by
  have hstep : ∀ (self : Option π) (call : Call), (∀ p ∈ self, settled = .ok p) →
      (call = true → (getPrepared settled self call).1 = preparedOutcome settled) ∧
        ∀ p ∈ (getPrepared settled self call).2, settled = .ok p := by
    intro self call hself
    cases self with
    | some p => simp_all [getPrepared, preparedOutcome]
    | none =>
      cases call <;> cases settled <;>
        simp_all [getPrepared, preparedOutcome, seen, Outcome.wait]
  have hnone : ∀ p ∈ (none : Option π), settled = .ok p := fun _ h => by cases h
  exact Delivers.of_invariant (P := fun self => ∀ p ∈ self, settled = .ok p) hstep hnone calls

end

section

variable (settled : Except CassError Unit)

/-- A `FutureSession` as `connectAsync` returns it. -/
def freshSession (persist : Bool) (key : UInt64) (keyspace : Option CString.Bytes)
    (session future : Nat) : FutureSession where
  persist := persist
  cacheKey := key
  keyspace := keyspace
  session := some session
  future := some future
  exception := none
  defaultSession := none

/-- The list with the entry the future borrows from. -/
def withEntry (g : Globals) (key : UInt64) (session future : Nat) : Globals :=
  { g with persistentList := g.persistentList.put key (.session session future) }

/-- How the wait of a call ends. -/
def waited : Call → Waited
  | false => .failed
  | true =>
    match settled with
    | .error e => .error e
    | .ok _ => .ok

def getSession (state : FutureSession × Globals) (call : Call) :
    Delivery × FutureSession × Globals :=
  state.1.get state.2 (waited settled call)

def sessionOutcome (self : FutureSession) (session : Nat) : Delivery :=
  match settled with
  | .error e => .driverError e
  | .ok _ => .session (self.sessionObject session)

/-- The first call comes after the future is settled, or no call does. -/
def FirstSettled (calls : List Call) : Prop :=
  calls.head? = some false → true ∉ calls

/-- When a session future delivers its outcome to every call that comes after:
one with the key 0 always; else if no call came before the future was settled,
and, without an entry in the list, a failure was not reported before. -/
def Undisturbed (persist : Bool) (key : UInt64) (calls : List Call) : Prop :=
  match persist, settled with
  | true, _ => key = 0 ∨ FirstSettled calls
  | false, .ok _ => FirstSettled calls
  | false, .error _ => true ∉ calls.tail

variable {settled}

theorem firstSettled_true (calls : List Call) : FirstSettled (true :: calls) := by
  simp [FirstSettled]

theorem firstSettled_false (calls : List Call) : FirstSettled (false :: calls) ↔ true ∉ calls := by
  simp [FirstSettled]

theorem delivers_lost {self : FutureSession} {g : Globals} {d : Delivery}
    (hexception : self.exception = none) (hdefault : self.defaultSession = none)
    (hlost : self.session = none ∨ self.future = none) (hd : d ≠ .noSession) (calls : List Call) :
    Delivers (getSession settled) (self, g) d calls ↔ true ∉ calls := by
  have hfixed : ∀ call, getSession settled (self, g) call = (.noSession, self, g) := by
    intro call
    cases hsession : self.session with
    | none => simp [getSession, FutureSession.get, hexception, hdefault, hsession]
    | some session =>
      have hfuture : self.future = none := by simpa [hsession] using hlost
      simp [getSession, FutureSession.get, hexception, hdefault, hsession, hfuture]
  rw [delivers_of_fixed hfixed]
  exact ⟨fun h hmem => hd (h hmem).symm, fun h hmem => absurd hmem h⟩

theorem delivers_cached {self : FutureSession} {g : Globals} {d : Delivery}
    (hcached : (∃ e, self.exception = some e ∧ d = .driverError e) ∨
      (self.exception = none ∧ ∃ object, self.defaultSession = some object ∧
        d = .session object)) (calls : List Call) :
    Delivers (getSession settled) (self, g) d calls := by
  have hfixed : ∀ call, getSession settled (self, g) call = (d, self, g) := by
    intro call
    rcases hcached with ⟨e, he, rfl⟩ | ⟨hnone, object, hobject, rfl⟩
    · simp [getSession, FutureSession.get, he]
    · simp [getSession, FutureSession.get, hnone, hobject]
  exact (delivers_of_fixed hfixed calls).mpr fun _ => rfl

theorem sessionOutcome_ne_noSession (self : FutureSession) (session : Nat) :
    sessionOutcome settled self session ≠ .noSession := by
  cases settled <;> simp [sessionOutcome]

/-- Without an entry in the list: the session is passed on by the first call. -/
theorem delivers_private_iff (key : UInt64) (keyspace : Option CString.Bytes) (session future : Nat)
    (g : Globals) (calls : List Call) :
    Delivers (getSession settled) (freshSession false key keyspace session future, g)
        (sessionOutcome settled (freshSession false key keyspace session future) session) calls ↔
      Undisturbed settled false key calls := by
  cases calls with
  | nil => cases settled <;> simp [Undisturbed, FirstSettled]
  | cons call calls =>
    rw [delivers_cons]
    cases call with
    | false =>
      have hget : getSession settled (freshSession false key keyspace session future, g)
          false = (.waitFailed,
            { freshSession false key keyspace session future with session := none }, g) :=
        rfl
      rw [hget, delivers_lost rfl rfl (.inl rfl) (sessionOutcome_ne_noSession _ _)]
      cases settled with
      | error e => simp [Undisturbed]
      | ok _ => simp [Undisturbed, firstSettled_false]
    | true =>
      cases settled with
      | error e =>
        have hget : getSession (.error e)
            (freshSession false key keyspace session future, g) true = (.driverError e,
              { freshSession false key keyspace session future with session := none },
              g) :=
          rfl
        rw [hget, delivers_lost rfl rfl (.inl rfl) (sessionOutcome_ne_noSession _ _)]
        simp [Undisturbed, sessionOutcome]
      | ok _ =>
        refine iff_of_true ⟨fun _ => rfl, ?_⟩ (firstSettled_true calls)
        exact delivers_cached (.inr ⟨rfl, _, rfl, rfl⟩) calls

/-- With an entry in the list: a call that times out deletes it, unless the key
is 0; an error is kept. -/
theorem delivers_persistent_iff (key : UInt64) (keyspace : Option CString.Bytes)
    (session future : Nat) (g : Globals) (calls : List Call) :
    Delivers (getSession settled)
        (freshSession true key keyspace session future, withEntry g key session future)
        (sessionOutcome settled (freshSession true key keyspace session future) session) calls ↔
      Undisturbed settled true key calls := by
  induction calls with
  | nil => simp [Undisturbed, FirstSettled]
  | cons call calls ih =>
    rw [delivers_cons]
    have hfind : (withEntry g key session future).persistentList.find key =
        some (.session session future) :=
      PersistentList.find_put_self
    cases call with
    | false =>
      by_cases hzero : key = 0
      · -- the list is left alone, and the future is as before
        have hget : getSession settled (freshSession true key keyspace session future,
            withEntry g key session future) false = (.waitFailed,
              freshSession true key keyspace session future,
              withEntry g key session future) := by
          simp [getSession, waited, FutureSession.get, FutureSession.handOver, freshSession, hzero]
        rw [hget]
        refine iff_of_true ⟨?_, ih.mpr (.inl hzero)⟩ (.inl hzero)
        exact fun h => Bool.noConfusion h
      · have hget : getSession settled (freshSession true key keyspace session future,
            withEntry g key session future) false = (.waitFailed,
              { freshSession true key keyspace session future with future := none },
              (withEntry g key session future).indexDel key) := by
          have hdrop := FutureSession.dropEntry_of_find
            (freshSession true key keyspace session future) hfind
          simp only [getSession, waited, FutureSession.get, FutureSession.handOver]
          simpa [freshSession, hzero] using hdrop
        rw [hget, delivers_lost rfl rfl (.inr rfl) (sessionOutcome_ne_noSession _ _)]
        simp [Undisturbed, hzero, firstSettled_false]
    | true =>
      refine iff_of_true ?_ (.inr (firstSettled_true calls))
      cases settled with
      | error e =>
        have hdrop := FutureSession.dropEntry_of_find
          { freshSession true key keyspace session future with exception := some e } hfind
        have hget : getSession (.error e) (freshSession true key keyspace session future,
            withEntry g key session future) true = (.driverError e,
              { freshSession true key keyspace session future with
                exception := some e, future := none },
              (withEntry g key session future).indexDel key) := by
          simp only [getSession, waited, FutureSession.get, FutureSession.handOver]
          simpa [freshSession] using hdrop
        rw [hget]
        exact ⟨fun _ => rfl, delivers_cached (.inl ⟨e, rfl, rfl⟩) calls⟩
      | ok _ =>
        exact ⟨fun _ => rfl, delivers_cached (.inr ⟨rfl, _, rfl, rfl⟩) calls⟩

end

/-- Futures of rows and of prepared statements deliver their outcome to every
call after it is settled; a session future does so exactly if it is
undisturbed. -/
theorem get_delivers_outcome
    (ρ τ π : Type) :
    (∀ (settled : Except CassError (Response ρ τ)) (statement index request : Nat)
        (calls : List Call),
      Delivers (getRows settled) (freshRows ρ τ statement index request)
        (rowsOutcome settled (freshRows ρ τ statement index request)) calls) ∧
    (∀ (settled : Except CassError π) (calls : List Call),
      Delivers (getPrepared settled) none (preparedOutcome settled) calls) ∧
    (∀ (settled : Except CassError Unit) (persist : Bool) (key : UInt64)
        (keyspace : Option CString.Bytes) (session future : Nat) (g : Globals)
        (calls : List Call),
      Delivers (getSession settled)
          (freshSession persist key keyspace session future,
            if persist then withEntry g key session future else g)
          (sessionOutcome settled (freshSession persist key keyspace session future) session)
          calls ↔
        Undisturbed settled persist key calls) := by
  refine ⟨getRows_delivers, getPrepared_delivers, ?_⟩
  intro settled persist key keyspace session future g calls
  cases persist with
  | false => exact delivers_private_iff key keyspace session future g calls
  | true => exact delivers_persistent_iff key keyspace session future g calls

/-- A session future that is asked too early does not give the session later,
with or without an entry in the list. -/
theorem session_lost_after_timeout :
    deliveries (getSession (.ok ()))
        (freshSession false 0 none 1 2, Globals.initial) [false, true] =
      [(false, .waitFailed), (true, .noSession)] ∧
    deliveries (getSession (.ok ()))
        (freshSession true 7 none 1 2, withEntry Globals.initial 7 1 2) [false, true] =
      [(false, .waitFailed), (true, .noSession)] :=
  ⟨rfl, rfl⟩

end FutureOutcome
end ScyllaDriver
