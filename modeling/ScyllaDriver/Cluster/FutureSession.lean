import ScyllaDriver.Async.DriverFuture
import ScyllaDriver.Cluster.Builder
import ScyllaDriver.Cluster.PersistentList

/-!
# Session objects and session futures

A `DefaultSession` or `FutureSession` that is marked persistent only borrows:
the driver's session and connection future belong to the entry of the
persistent list under the object's cache key. Without the mark the objects own
them, and `FutureSession::get()` passes the session on to the object it
returns.

The wait inside `get()` is the driver's: it ends without the future being
resolved (a timeout, or a timeout argument that is refused), with an error, or
with a connected session. An object that a method had already made when it
throws is destroyed on the way out.
-/

namespace ScyllaDriver
namespace Cluster

open CString

/-- How a wait for a driver future ends. -/
inductive Waited where
  | failed
  | error (e : CassError)
  | ok
  deriving DecidableEq

/-- `php_scylladb_session`. -/
structure SessionObject where
  persist : Bool
  session : Nat
  cacheKey : UInt64
  keyspace : Option Bytes
  deriving DecidableEq

/-- `php_scylladb_future_session`. -/
structure FutureSession where
  persist : Bool
  cacheKey : UInt64
  keyspace : Option Bytes
  session : Option Nat
  future : Option Nat
  /-- `exception_code` and `exception_message`. -/
  exception : Option CassError
  defaultSession : Option SessionObject
  deriving DecidableEq

/-- What a call of `get()` ends with. -/
inductive Delivery where
  | session (object : SessionObject)
  | driverError (e : CassError)
  /-- The wait failed: a timeout exception, or a refused timeout argument. -/
  | waitFailed
  /-- "FutureSession has no associated session (cached entry expired)". -/
  | noSession
  deriving DecidableEq

namespace FutureSession

/-- The object `get()` makes for the caller. -/
def sessionObject (self : FutureSession) (session : Nat) : SessionObject where
  persist := self.persist
  session := session
  cacheKey := self.cacheKey
  keyspace := self.keyspace

/-- Delete the entry under the future's key; if there was one, the driver's
future is gone. -/
def dropEntry (self : FutureSession) (g : Globals) : FutureSession × Globals :=
  match g.persistentList.find self.cacheKey with
  | some _ => ({ self with future := none }, g.indexDel self.cacheKey)
  | none => (self, g)

/-- A session that is not in the list moves into the object made for the caller. -/
def handOver (self : FutureSession) : FutureSession :=
  if self.persist then self else { self with session := none }

/-- `FutureSession::get`, with the end of the wait it comes to, if any. -/
def get (self : FutureSession) (g : Globals) (waited : Waited) :
    Delivery × FutureSession × Globals :=
  match self.exception, self.defaultSession, self.session, self.future with
  | some e, _, _, _ => (.driverError e, self, g)
  | none, some object, _, _ => (.session object, self, g)
  | none, none, some session, some _ =>
    match waited with
    | .failed =>
      (.waitFailed,
        if self.persist && self.cacheKey != 0 then self.handOver.dropEntry g
        else (self.handOver, g))
    | .error e =>
      (.driverError e,
        if self.persist then { self.handOver with exception := some e }.dropEntry g
        else (self.handOver, g))
    | .ok =>
      (.session (self.sessionObject session),
        { self.handOver with defaultSession := some (self.sessionObject session) }, g)
  | none, none, _, _ => (.noSession, self, g)

/-- `get()` would come to its wait. -/
def Pending (self : FutureSession) : Prop :=
  self.exception = none ∧ self.defaultSession = none ∧ self.session.isSome ∧ self.future.isSome

instance (self : FutureSession) : Decidable self.Pending :=
  inferInstanceAs (Decidable (_ ∧ _ ∧ _ ∧ _))

variable {self : FutureSession} {g : Globals} {waited : Waited}

theorem handOver_of_persist (h : self.persist) : self.handOver = self :=
  if_pos h

theorem handOver_of_not_persist (h : ¬ self.persist) :
    self.handOver = { self with session := none } :=
  if_neg h

theorem get_of_not_pending (g : Globals) (waited : Waited) (h : ¬ self.Pending) :
    ∃ delivery, self.get g waited = (delivery, self, g) ∧
      ∀ object, delivery = .session object → object ∈ self.defaultSession := by
  unfold get
  split
  · exact ⟨_, rfl, fun _ h => by cases h⟩
  · rename_i object _ hdefault
    refine ⟨_, rfl, ?_⟩
    rintro _ ⟨⟩
    exact hdefault
  · rename_i hexception hdefault hsession hfuture
    exact absurd ⟨hexception, hdefault, by simp [hsession], by simp [hfuture]⟩ h
  · exact ⟨_, rfl, fun _ h => by cases h⟩

theorem get_of_pending (h : self.Pending) {session : Nat} (hsession : self.session = some session) :
    self.get g waited =
      match waited with
      | .failed =>
        (.waitFailed,
          if self.persist && self.cacheKey != 0 then self.handOver.dropEntry g
          else (self.handOver, g))
      | .error e =>
        (.driverError e,
          if self.persist then { self.handOver with exception := some e }.dropEntry g
          else (self.handOver, g))
      | .ok =>
        (.session (self.sessionObject session),
          { self.handOver with defaultSession := some (self.sessionObject session) }, g) := by
  obtain ⟨hexception, hdefault, -, hfuture⟩ := h
  obtain ⟨future, hfuture⟩ := Option.isSome_iff_exists.mp hfuture
  simp only [get, hexception, hdefault, hsession, hfuture]

theorem dropEntry_of_find (self : FutureSession) {entry : Entry}
    (h : g.persistentList.find self.cacheKey = some entry) :
    self.dropEntry g = ({ self with future := none }, g.indexDel self.cacheKey) := by
  rw [dropEntry, h]

end FutureSession

end Cluster
end ScyllaDriver
