import ScyllaDriver.Cluster.FutureSession
import ScyllaDriver.Library.Transition

/-!
# Clusters, sessions and statements on the persistent list

The calls that use the persistent list, as steps of a machine: `build`,
`connect`, `connectAsync`, `FutureSession::get` and `prepare`, and an object
being dropped. What the driver does is part of a call: how each wait ends,
whether a cluster could be configured, whether a cached statement is good.

A call that finds the hash table at its maximal size does not return; the
request ends there.
-/

namespace ScyllaDriver
namespace Cluster

open CString

/-- `php_scylladb_cluster`, as far as the list is concerned. -/
structure ClusterObject where
  persist : Bool
  cacheKey : UInt64
  deriving DecidableEq

/-- The key of a session: its cluster's key and the keyspace. -/
def sessionKey (clusterKey : UInt64) (keyspace : Option Bytes) : UInt64 :=
  let h := cacheKeyMixUlong cacheKeyInit clusterKey
  let h := cacheKeyMixCstr h (ascii ":session:")
  cacheKeyMixCstr h (safeZendString keyspace)

/-- The key of a prepared statement: its session's key, the text, the keyspace. -/
def preparedKey (session : SessionObject) (cql : Bytes) : UInt64 :=
  let h := cacheKeyMixUlong cacheKeyInit session.cacheKey
  let h := cacheKeyMixBytes h cql
  let h := cacheKeyMixCstr h (ascii ":prepared_statement:")
  cacheKeyMixCstr h (safeZendString session.keyspace)

/-- The worker: its globals, the objects the program holds, and the number the
driver's next object gets. -/
structure State where
  globals : Globals
  sessions : List SessionObject
  futures : List FutureSession
  fresh : Nat

def State.initial : State where
  globals := .initial
  sessions := []
  futures := []
  fresh := 0

inductive Call where
  | build (persist : Bool) (key : UInt64) (configured : Bool)
  | connect (cluster : ClusterObject) (keyspace : Option Bytes) (waited : Waited)
  | connectAsync (cluster : ClusterObject) (keyspace : Option Bytes)
  | get (future : Nat) (waited : Waited)
  | prepare (session : Nat) (cql : Bytes) (cachedGood : Bool) (waited : Waited)
  | dropSession (session : Nat)
  | dropFuture (future : Nat)

section

variable (limit : Kind → Int)

/-- `Builder::build`. -/
def State.build (s : State) (persist : Bool) (key : UInt64) (configured : Bool) : Option State :=
  match persist, s.globals.persistentList.find key with
  | false, _ => some s
  | true, some (.cluster _) => some s
  | true, _ =>
    if s.globals.canCache limit .clusters && configured then
      (s.globals.insert key (.cluster s.fresh)).map fun g =>
        { s with globals := g, fresh := s.fresh + 1 }
    else some s

structure Acquired where
  persist : Bool
  session : Nat
  future : Nat
  cacheKey : UInt64

/-- The first part of `connect` and `connectAsync`: the cached session, or a new
one, put into the list if there is room. -/
def State.acquire (s : State) (cluster : ClusterObject) (keyspace : Option Bytes) :
    Option (State × Acquired) :=
  if cluster.persist then
    let key := sessionKey cluster.cacheKey keyspace
    match s.globals.persistentList.find key with
    | some (.session session future) => some (s, ⟨true, session, future, key⟩)
    | _ =>
      if s.globals.canCache limit .sessions then
        (s.globals.insert key (.session s.fresh (s.fresh + 1))).map fun g =>
          ({ s with globals := g, fresh := s.fresh + 2 }, ⟨true, s.fresh, s.fresh + 1, key⟩)
      else
        some ({ s with fresh := s.fresh + 2 }, ⟨false, s.fresh, s.fresh + 1, key⟩)
  else
    some ({ s with fresh := s.fresh + 2 }, ⟨false, s.fresh, s.fresh + 1, cluster.cacheKey⟩)

/-- `DefaultCluster::connect`. -/
def State.connect (s : State) (cluster : ClusterObject) (keyspace : Option Bytes)
    (waited : Waited) : Option State :=
  (s.acquire limit cluster keyspace).map fun (s, acquired) =>
    if waited = .ok then
      { s with
        sessions := s.sessions ++
          [⟨acquired.persist, acquired.session, acquired.cacheKey, keyspace⟩] }
    else if acquired.persist then
      { s with globals := s.globals.indexDel acquired.cacheKey }
    else s

/-- `DefaultCluster::connectAsync`. -/
def State.connectAsync (s : State) (cluster : ClusterObject) (keyspace : Option Bytes) :
    Option State :=
  (s.acquire limit cluster keyspace).map fun (s, acquired) =>
    { s with
      futures := s.futures ++
        [{ persist := acquired.persist
           cacheKey := acquired.cacheKey
           keyspace := keyspace
           session := some acquired.session
           future := some acquired.future
           exception := none
           defaultSession := none }] }

/-- `FutureSession::get` on one of the program's futures. -/
def State.get (s : State) (i : Nat) (waited : Waited) : Option State :=
  s.futures[i]?.map fun self =>
    let (delivery, self, g) := self.get s.globals waited
    { s with
      globals := g
      futures := s.futures.set i self
      sessions := s.sessions ++ match delivery with
        | .session object => [object]
        | _ => [] }

/-- The first part of `prepare`: a good cached statement, or the list without a
bad one. -/
def dropBad (g : Globals) (key : UInt64) (cachedGood : Bool) : Option Globals :=
  match g.persistentList.find key with
  | some (.preparedStatement _) => if cachedGood then none else some (g.indexDel key)
  | _ => some g

/-- `DefaultSession::prepare` on one of the program's sessions. -/
def State.prepare (s : State) (i : Nat) (cql : Bytes) (cachedGood : Bool) (waited : Waited) :
    Option State :=
  s.sessions[i]?.bind fun self =>
    if self.persist then
      match dropBad s.globals (preparedKey self cql) cachedGood with
      | none => some s
      | some g =>
        if g.canCache limit .preparedStatements && waited = .ok then
          (g.insert (preparedKey self cql) (.preparedStatement s.fresh)).map fun g =>
            { s with globals := g, fresh := s.fresh + 1 }
        else some { s with globals := g }
    else some s

def step (s : State) : Call → Option State
  | .build persist key configured => s.build limit persist key configured
  | .connect cluster keyspace waited => s.connect limit cluster keyspace waited
  | .connectAsync cluster keyspace => s.connectAsync limit cluster keyspace
  | .get i waited => s.get i waited
  | .prepare i cql cachedGood waited => s.prepare limit i cql cachedGood waited
  | .dropSession i => some { s with sessions := s.sessions.eraseIdx i }
  | .dropFuture i => some { s with futures := s.futures.eraseIdx i }

end

/-- The ways a call changes the globals: not at all, by deleting an entry, by an
insertion it had checked the limit for, or by the one after the other. -/
inductive Touched (limit : Kind → Int) : Globals → Globals → Prop
  | same (g : Globals) :
      Touched limit g g
  | indexDel {g g' : Globals} (key : UInt64) :
      Touched limit g g' →
      Touched limit g (g'.indexDel key)
  | insert {g g' g'' : Globals} {key : UInt64} {entry : Entry} :
      Touched limit g g' →
      g'.insert key entry = some g'' →
      g'.canCache limit entry.kind →
      Touched limit g g''

section

variable {limit : Kind → Int}

theorem touched_acquire {s s' : State} {cluster : ClusterObject} {keyspace : Option Bytes}
    {acquired : Acquired} (h : s.acquire limit cluster keyspace = some (s', acquired)) :
    Touched limit s.globals s'.globals := by
  unfold State.acquire at h
  split at h
  · dsimp only at h
    split at h
    · cases h
      exact .same _
    · split at h
      · rename_i hroom
        obtain ⟨g, hinsert, hpair⟩ := Option.map_eq_some_iff.mp h
        cases hpair
        exact (Touched.same _).insert hinsert hroom
      · cases h
        exact .same _
  · cases h
    exact .same _

theorem touched_dropEntry (self : FutureSession) (g : Globals) :
    Touched limit g (self.dropEntry g).2 := by
  unfold FutureSession.dropEntry
  split
  · exact (Touched.same g).indexDel _
  · exact .same g

theorem touched_get (self : FutureSession) (g : Globals) (waited : Waited) :
    Touched limit g (self.get g waited).2.2 := by
  unfold FutureSession.get
  split
  · exact .same g
  · exact .same g
  · cases waited with
    | failed | error e =>
      dsimp only
      split
      · exact touched_dropEntry _ g
      · exact .same g
    | ok => exact .same g
  · exact .same g

theorem touched_dropBad {g g' : Globals} {key : UInt64} {cachedGood : Bool}
    (h : dropBad g key cachedGood = some g') : Touched limit g g' := by
  unfold dropBad at h
  split at h
  · split at h
    · cases h
    · cases h
      exact (Touched.same g).indexDel _
  · cases h
    exact .same g

theorem touched_step {s s' : State} {call : Call} (h : step limit s call = some s') :
    Touched limit s.globals s'.globals := by
  cases call with
  | build persist key configured =>
    simp only [step, State.build] at h
    split at h
    · cases h
      exact .same _
    · cases h
      exact .same _
    · split at h
      · rename_i hroom
        obtain ⟨g, hinsert, hstate⟩ := Option.map_eq_some_iff.mp h
        cases hstate
        exact (Touched.same _).insert hinsert (Bool.and_eq_true_iff.mp hroom).1
      · cases h
        exact .same _
  | connect cluster keyspace waited =>
    obtain ⟨⟨s₁, acquired⟩, hacquire, hstate⟩ := Option.map_eq_some_iff.mp h
    have htouched := touched_acquire hacquire
    dsimp only at hstate
    split at hstate
    · cases hstate
      exact htouched
    · split at hstate
      · cases hstate
        exact htouched.indexDel _
      · cases hstate
        exact htouched
  | connectAsync cluster keyspace =>
    obtain ⟨⟨s₁, acquired⟩, hacquire, hstate⟩ := Option.map_eq_some_iff.mp h
    have htouched := touched_acquire hacquire
    cases hstate
    exact htouched
  | get i waited =>
    obtain ⟨self, _, hstate⟩ := Option.map_eq_some_iff.mp h
    cases hstate
    exact touched_get self s.globals waited
  | prepare i cql cachedGood waited =>
    obtain ⟨self, _, hstate⟩ := Option.bind_eq_some_iff.mp h
    split at hstate
    · split at hstate
      · cases hstate
        exact .same _
      · rename_i g hdrop
        split at hstate
        · rename_i hroom
          obtain ⟨g', hinsert, hnext⟩ := Option.map_eq_some_iff.mp hstate
          cases hnext
          exact (touched_dropBad hdrop).insert hinsert (Bool.and_eq_true_iff.mp hroom).1
        · cases hstate
          exact touched_dropBad hdrop
    · cases hstate
      exact .same _
  | dropSession i | dropFuture i =>
    cases h
    exact .same _

theorem Touched.counted {g g' : Globals} (h : Touched limit g g') (hcounted : g.Counted)
    (hwithin : g.WithinLimits limit) : g'.Counted ∧ g'.WithinLimits limit := by
  induction h with
  | same => exact ⟨hcounted, hwithin⟩
  | indexDel key _ ih => exact ⟨ih.1.indexDel key, ih.2.indexDel ih.1 key⟩
  | insert _ hinsert hroom ih => exact ⟨ih.1.insert hinsert, ih.2.insert ih.1 hroom hinsert⟩

/-- In every state of every run each counter is the number of entries of its
kind, no decrement met a counter at zero, and a counter with a limit is not above
it. -/
theorem counters_exact
    {s : State}
    (hreach : Transition.Reachable (step limit) (fun _ _ => True) State.initial s)
    (kind : Kind) :
    (s.globals.counter kind).toNat = s.globals.persistentList.count kind ∧
      s.globals.underflowed = false ∧
      (0 ≤ limit kind → ((s.globals.counter kind).toNat : Int) ≤ limit kind) := by
  have hkept : ∀ s call s', s.globals.Counted ∧ s.globals.WithinLimits limit → True →
      step limit s call = some s' → s'.globals.Counted ∧ s'.globals.WithinLimits limit :=
    fun s call s' hs _ hstep => (touched_step hstep).counted hs.1 hs.2
  have hinv : s.globals.Counted ∧ s.globals.WithinLimits limit :=
    hreach.invariant ⟨Globals.counted_initial, Globals.withinLimits_initial⟩ hkept
  exact ⟨hinv.1.counts kind, hinv.1.sound, hinv.2 kind⟩

end

/-- A cluster's entry overwrites the session of a future, and the entry of a
session is deleted again when the wait for it fails. -/
def overwriteAndFail : List Call :=
  [.connectAsync ⟨true, 5⟩ none, .build true (sessionKey 5 none) true,
    .connect ⟨true, 7⟩ none .failed]

theorem counters_exact_after_overwrite :
    ∃ s,
      Transition.exec (step fun _ => 16) (fun _ _ => True) State.initial overwriteAndFail =
        some s ∧
      s.globals.persistentList.count .clusters = 1 ∧
      s.globals.persistentList.count .sessions = 0 ∧
      ∀ kind, (s.globals.counter kind).toNat = s.globals.persistentList.count kind ∧
        s.globals.underflowed = false ∧
        (0 ≤ (16 : Int) → ((s.globals.counter kind).toNat : Int) ≤ 16) := by
  have hcounts :
      (Transition.exec (step fun _ => 16) (fun _ _ => True) State.initial overwriteAndFail).map
        (fun s => (s.globals.persistentList.count .clusters,
          s.globals.persistentList.count .sessions)) = some (1, 0) := by
    rfl
  obtain ⟨s, hrun, hpair⟩ := Option.map_eq_some_iff.mp hcounts
  exact ⟨s, hrun, congrArg Prod.fst hpair, congrArg Prod.snd hpair,
    counters_exact (.of_exec hrun)⟩

end Cluster
end ScyllaDriver
