import ScyllaDriver.Cluster.Sessions
import ScyllaDriver.Library.Table

/-!
# Objects that borrow from the persistent list

A persistent session object or session future holds pointers that belong to an
entry of the list. A failed `connect` and a failed `FutureSession::get` delete
the entry of their key, whoever else holds its session, and the future of a
failed `get` itself keeps the session pointer. An entry can also be
overwritten by a cluster or a statement whose key is the same number.

`Allowed` says when a step deletes nothing that an object still holds. Along
runs of such steps every persistent object is backed by the entry under its own
key, and a step keeps all objects backed exactly if it is one of them.
-/

namespace ScyllaDriver
namespace Cluster

open CString

/-- A session of the driver is in the list. -/
def PersistentList.HasSession (l : PersistentList) (session : Nat) : Prop :=
  ∃ key future, l.find key = some (.session session future)

/-- A connection future of the driver is in the list. -/
def PersistentList.HasFuture (l : PersistentList) (future : Nat) : Prop :=
  ∃ key session, l.find key = some (.session session future)

def SessionObject.Backed (l : PersistentList) (o : SessionObject) : Prop :=
  o.persist → l.HasSession o.session

def FutureSession.Backed (l : PersistentList) (o : FutureSession) : Prop :=
  (o.persist → (∀ session ∈ o.session, l.HasSession session) ∧
    (∀ future ∈ o.future, l.HasFuture future)) ∧
  ∀ object ∈ o.defaultSession, object.Backed l

/-- No persistent object holds a session or a future that is not in the list. -/
structure State.AllBacked (s : State) : Prop where
  sessions : ∀ o ∈ s.sessions, o.Backed s.globals.persistentList
  futures : ∀ o ∈ s.futures, o.Backed s.globals.persistentList

/-- A persistent object holds the session or the future of an entry. -/
def State.Borrowed (s : State) (session future : Nat) : Prop :=
  (∃ o ∈ s.sessions, o.persist ∧ o.session = session) ∨
  ∃ o ∈ s.futures,
    (o.persist ∧ (o.session = some session ∨ o.future = some future)) ∨
    ∃ object ∈ o.defaultSession, object.persist ∧ object.session = session

/-- Nothing is borrowed from the entry of a key, if it is a session. -/
def State.Unborrowed (s : State) (key : UInt64) : Prop :=
  ∀ session future, s.globals.persistentList.find key = some (.session session future) →
    ¬ s.Borrowed session future

/-- A failing `connect` has no other borrower on its session, no `get` on a
pending persistent future fails, and no key of a cluster or a statement is that
of a borrowed session. -/
def Allowed (limit : Kind → Int) (s : State) : Call → Prop
  | .build persist key configured =>
    persist → configured → s.globals.canCache limit .clusters → s.Unborrowed key
  | .connect cluster keyspace waited =>
    cluster.persist → waited ≠ .ok → s.Unborrowed (sessionKey cluster.cacheKey keyspace)
  | .connectAsync _ _ => True
  | .get i waited =>
    ∀ o, s.futures[i]? = some o → o.persist → o.Pending → waited ≠ .ok →
      waited = .failed ∧ o.cacheKey = 0
  | .prepare i cql _ waited =>
    ∀ o, s.sessions[i]? = some o → o.persist → waited = .ok →
      s.globals.canCache limit .preparedStatements → s.Unborrowed (preparedKey o cql)
  | .dropSession _ => True
  | .dropFuture _ => True

/-- Different entries hold different objects of the driver, all of them older
than the next one. -/
structure Numbered (l : PersistentList) (fresh : Nat) : Prop where
  bound : ∀ {key session future}, l.find key = some (.session session future) →
    session < fresh ∧ future < fresh
  session_key : ∀ {key₁ key₂ session future₁ future₂},
    l.find key₁ = some (.session session future₁) →
    l.find key₂ = some (.session session future₂) → key₁ = key₂
  future_key : ∀ {key₁ key₂ session₁ session₂ future},
    l.find key₁ = some (.session session₁ future) →
    l.find key₂ = some (.session session₂ future) → key₁ = key₂

/-- A session object's entry is under its own key. -/
def SessionObject.Placed (l : PersistentList) (o : SessionObject) : Prop :=
  o.persist → ∃ future, l.find o.cacheKey = some (.session o.session future)

/-- A session future's entry is under its own key and holds all that the future
holds. -/
structure FutureSession.Placed (l : PersistentList) (o : FutureSession) : Prop where
  entry : o.persist → ∃ session future, l.find o.cacheKey = some (.session session future) ∧
    o.session = some session ∧ o.future = some future
  defaultSession : ∀ object ∈ o.defaultSession, object.Placed l

structure State.Sound (s : State) : Prop where
  numbered : Numbered s.globals.persistentList s.fresh
  sessions : ∀ o ∈ s.sessions, o.Placed s.globals.persistentList
  futures : ∀ o ∈ s.futures, o.Placed s.globals.persistentList

theorem sound_initial : State.initial.Sound where
  numbered :=
    { bound := fun h => by cases h
      session_key := fun h _ => by cases h
      future_key := fun h _ => by cases h }
  sessions := fun _ h => by cases h
  futures := fun _ h => by cases h

variable {l : PersistentList} {s : State} {key : UInt64}

theorem SessionObject.Placed.backed {o : SessionObject} (h : o.Placed l) : o.Backed l := by
  intro hpersist
  obtain ⟨future, hfind⟩ := h hpersist
  exact ⟨o.cacheKey, future, hfind⟩

theorem FutureSession.Placed.backed {o : FutureSession} (h : o.Placed l) : o.Backed l := by
  refine ⟨?_, fun object hobject => (h.defaultSession object hobject).backed⟩
  intro hpersist
  obtain ⟨session, future, hfind, hsession, hfuture⟩ := h.entry hpersist
  rw [hsession, hfuture]
  constructor
  · intro session' hmem
    cases hmem
    exact ⟨o.cacheKey, future, hfind⟩
  · intro future' hmem
    cases hmem
    exact ⟨o.cacheKey, session, hfind⟩

theorem State.Sound.allBacked (h : s.Sound) : s.AllBacked where
  sessions o ho := (h.sessions o ho).backed
  futures o ho := (h.futures o ho).backed

/-- A list that differs from `l` in the entry of `key` only. -/
def Differs (l l' : PersistentList) (key : UInt64) : Prop :=
  ∀ other, other ≠ key → l'.find other = l.find other

theorem differs_indexDel (g : Globals) (key : UInt64) :
    Differs g.persistentList (g.indexDel key).persistentList key := by
  intro other hne
  rw [Globals.indexDel_persistentList, PersistentList.find_erase_of_ne hne]

theorem differs_insert {g g' : Globals} {entry : Entry} (h : g.insert key entry = some g') :
    Differs g.persistentList g'.persistentList key := by
  intro other hne
  rw [Globals.persistentList_of_insert h, PersistentList.find_put_of_ne hne]

/-- What stands under the key is no session, or a session of new objects. -/
def NewAt (l : PersistentList) (key : UInt64) (fresh fresh' : Nat) : Prop :=
  ∀ session future, l.find key = some (.session session future) →
    fresh ≤ session ∧ session < fresh' ∧ fresh ≤ future ∧ future < fresh'

theorem Numbered.change {l' : PersistentList} {fresh fresh' : Nat} (h : Numbered l fresh)
    (hdiffers : Differs l l' key) (hnew : NewAt l' key fresh fresh') (hle : fresh ≤ fresh') :
    Numbered l' fresh' := by
  -- a session of the new list is an old one elsewhere, or a new one under the key
  have hcases : ∀ {other session future}, l'.find other = some (.session session future) →
      (other ≠ key ∧ l.find other = some (.session session future) ∧
        session < fresh ∧ future < fresh) ∨
      (other = key ∧ fresh ≤ session ∧ session < fresh' ∧ fresh ≤ future ∧ future < fresh') := by
    intro other session future hfind
    by_cases hsame : other = key
    · subst hsame
      exact .inr ⟨rfl, hnew _ _ hfind⟩
    · rw [hdiffers other hsame] at hfind
      exact .inl ⟨hsame, hfind, h.bound hfind⟩
  refine ⟨?_, ?_, ?_⟩
  · intro other session future hfind
    rcases hcases hfind with ⟨_, _, hs, hf⟩ | ⟨_, _, hs, _, hf⟩
    · omega
    · exact ⟨hs, hf⟩
  · intro key₁ key₂ session future₁ future₂ h₁ h₂
    rcases hcases h₁ with ⟨_, hold₁, hs₁, _⟩ | ⟨hk₁, hs₁, _⟩ <;>
      rcases hcases h₂ with ⟨_, hold₂, hs₂, _⟩ | ⟨hk₂, hs₂, _⟩
    · exact h.session_key hold₁ hold₂
    · omega
    · omega
    · rw [hk₁, hk₂]
  · intro key₁ key₂ session₁ session₂ future h₁ h₂
    rcases hcases h₁ with ⟨_, hold₁, _, hf₁⟩ | ⟨hk₁, _, _, hf₁, _⟩ <;>
      rcases hcases h₂ with ⟨_, hold₂, _, hf₂⟩ | ⟨hk₂, _, _, hf₂, _⟩
    · exact h.future_key hold₁ hold₂
    · omega
    · omega
    · rw [hk₁, hk₂]

theorem State.Sound.change (h : s.Sound) {g : Globals} {fresh : Nat}
    (hdiffers : Differs s.globals.persistentList g.persistentList key)
    (hnew : NewAt g.persistentList key s.fresh fresh) (hle : s.fresh ≤ fresh)
    (hunborrowed : s.Unborrowed key) : State.Sound { s with globals := g, fresh := fresh } := by
  have hobject : ∀ o : SessionObject, o.Placed s.globals.persistentList →
      (o.persist → ∀ future, ¬ (o.cacheKey = key ∧ s.globals.persistentList.find key =
        some (.session o.session future))) → o.Placed g.persistentList := by
    intro o hplaced hfree hpersist
    obtain ⟨future, hfind⟩ := hplaced hpersist
    have hne : o.cacheKey ≠ key := fun hkey => hfree hpersist future ⟨hkey, hkey ▸ hfind⟩
    exact ⟨future, by rw [hdiffers _ hne, hfind]⟩
  refine ⟨h.numbered.change hdiffers hnew hle, ?_, ?_⟩
  · intro o ho
    refine hobject o (h.sessions o ho) ?_
    rintro hpersist future ⟨-, hfind⟩
    exact hunborrowed _ _ hfind (.inl ⟨o, ho, hpersist, rfl⟩)
  · intro o ho
    refine ⟨?_, ?_⟩
    · intro hpersist
      obtain ⟨session, future, hfind, hsession, hfuture⟩ := (h.futures o ho).entry hpersist
      have hne : o.cacheKey ≠ key := by
        intro hkey
        exact hunborrowed _ _ (hkey ▸ hfind) (.inr ⟨o, ho, .inl ⟨hpersist, .inl hsession⟩⟩)
      exact ⟨session, future, by rw [hdiffers _ hne, hfind], hsession, hfuture⟩
    · intro object hmem
      refine hobject object ((h.futures o ho).defaultSession object hmem) ?_
      rintro hpersist future ⟨-, hfind⟩
      exact hunborrowed _ _ hfind (.inr ⟨o, ho, .inr ⟨object, hmem, hpersist, rfl⟩⟩)

theorem Numbered.unborrowed_of_gone {s' : State} (h : Numbered s.globals.persistentList s.fresh)
    (hdiffers : Differs s.globals.persistentList s'.globals.persistentList key)
    (hgone : ∀ session future, s'.globals.persistentList.find key ≠
      some (.session session future)) (hbacked : s'.AllBacked)
    (hsessions : ∀ o ∈ s.sessions, o ∈ s'.sessions) (hfutures : ∀ o ∈ s.futures, o ∈ s'.futures) :
    s.Unborrowed key := by
  intro session future hfind hborrowed
  have hnoSession : ¬ s'.globals.persistentList.HasSession session := by
    rintro ⟨other, future', hother⟩
    by_cases hsame : other = key
    · exact hgone _ _ (hsame ▸ hother)
    · rw [hdiffers other hsame] at hother
      exact hsame (h.session_key hother hfind)
  have hnoFuture : ¬ s'.globals.persistentList.HasFuture future := by
    rintro ⟨other, session', hother⟩
    by_cases hsame : other = key
    · exact hgone _ _ (hsame ▸ hother)
    · rw [hdiffers other hsame] at hother
      exact hsame (h.future_key hother hfind)
  rcases hborrowed with ⟨o, ho, hpersist, rfl⟩ | ⟨o, ho, hheld⟩
  · exact hnoSession (hbacked.sessions o (hsessions o ho) hpersist)
  · have ho' := hbacked.futures o (hfutures o ho)
    rcases hheld with ⟨hpersist, hsession | hfuture⟩ | ⟨object, hmem, hpersist, rfl⟩
    · exact hnoSession ((ho'.1 hpersist).1 _ hsession)
    · exact hnoFuture ((ho'.1 hpersist).2 _ hfuture)
    · exact hnoSession (ho'.2 object hmem hpersist)

section

variable {limit : Kind → Int} {s s' : State}

theorem State.Sound.raise (h : s.Sound) {fresh : Nat} (hle : s.fresh ≤ fresh) :
    State.Sound { s with fresh := fresh } where
  __ := h
  numbered :=
    { bound := fun hfind => ⟨(h.numbered.bound hfind).1.trans_le hle,
        (h.numbered.bound hfind).2.trans_le hle⟩
      session_key := h.numbered.session_key
      future_key := h.numbered.future_key }

theorem State.Sound.addSession (h : s.Sound) {o : SessionObject}
    (ho : o.Placed s.globals.persistentList) :
    State.Sound { s with sessions := s.sessions ++ [o] } where
  __ := h
  sessions := Table.forall_mem_push h.sessions ho

theorem State.Sound.addFuture (h : s.Sound) {o : FutureSession}
    (ho : o.Placed s.globals.persistentList) :
    State.Sound { s with futures := s.futures ++ [o] } where
  __ := h
  futures := Table.forall_mem_push h.futures ho

theorem State.Sound.setFuture (h : s.Sound) (i : Nat) {o : FutureSession}
    (ho : o.Placed s.globals.persistentList) :
    State.Sound { s with futures := s.futures.set i o } where
  __ := h
  futures := Table.forall_mem_set h.futures ho

variable {key : UInt64} {cluster : ClusterObject} {keyspace : Option Bytes} {waited : Waited}
    {i : Nat} {self : FutureSession}

theorem State.unborrowed_of_not_session
    (h : ∀ session future, s.globals.persistentList.find key ≠ some (.session session future)) :
    s.Unborrowed key :=
  fun session future hfind => absurd hfind (h session future)

theorem State.Sound.overwrite (h : s.Sound) {g g' : Globals} {entry : Entry}
    (hdiffers : Differs s.globals.persistentList g.persistentList key)
    (hentry : ∀ session future, entry ≠ .session session future)
    (hinsert : g.insert key entry = some g') :
    (s.Unborrowed key → State.Sound { s with globals := g', fresh := s.fresh + 1 }) ∧
      (State.AllBacked { s with globals := g', fresh := s.fresh + 1 } → s.Unborrowed key) := by
  have hdiffers' : Differs s.globals.persistentList g'.persistentList key := by
    intro other hne
    rw [differs_insert hinsert other hne, hdiffers other hne]
  have hfind : ∀ session future, g'.persistentList.find key ≠ some (.session session future) := by
    intro session future hsession
    rw [Globals.persistentList_of_insert hinsert, PersistentList.find_put_self] at hsession
    exact hentry session future (Option.some.inj hsession)
  constructor
  · exact h.change hdiffers' (fun _ _ hsession => absurd hsession (hfind _ _)) (Nat.le_succ _)
  · intro hbacked
    exact h.numbered.unborrowed_of_gone hdiffers' hfind hbacked (fun _ ho => ho) (fun _ ho => ho)

/-- `build` keeps objects backed exactly if it is allowed. -/
theorem step_build (h : s.Sound) {persist configured : Bool}
    (hstep : step limit s (.build persist key configured) = some s') :
    (Allowed limit s (.build persist key configured) → s'.Sound) ∧
      (s'.AllBacked → Allowed limit s (.build persist key configured)) := by
  simp only [step, State.build] at hstep
  split at hstep
  · cases hstep
    exact ⟨fun _ => h, fun _ hpersist => by cases hpersist⟩
  · rename_i cluster hfind
    cases hstep
    refine ⟨fun _ => h, fun _ _ _ _ => State.unborrowed_of_not_session ?_⟩
    intro session future hsession
    rw [hfind] at hsession
    cases hsession
  · split at hstep
    · rename_i hroom
      obtain ⟨hroom, hconfigured⟩ := Bool.and_eq_true_iff.mp hroom
      obtain ⟨g, hinsert, hstate⟩ := Option.map_eq_some_iff.mp hstep
      cases hstate
      obtain ⟨hsound, hbacked⟩ :=
        h.overwrite (fun _ _ => rfl) (fun _ _ hentry => by cases hentry) hinsert
      exact ⟨fun hallowed => hsound (hallowed rfl hconfigured hroom),
        fun hall _ _ _ => hbacked hall⟩
    · rename_i hroom
      cases hstep
      refine ⟨fun _ => h, fun _ _ hconfigured hcan => ?_⟩
      exact absurd (Bool.and_eq_true_iff.mpr ⟨hcan, hconfigured⟩) hroom

/-! `connect` and `connectAsync` -/

theorem acquire_cases {acquired : Acquired}
    (h : s.acquire limit cluster keyspace = some (s', acquired)) :
    (acquired.persist = false ∧ s' = { s with fresh := s.fresh + 2 } ∧
      (cluster.persist → ∀ session future,
        s.globals.persistentList.find (sessionKey cluster.cacheKey keyspace) ≠
          some (.session session future))) ∨
    (acquired.persist = true ∧ acquired.cacheKey = sessionKey cluster.cacheKey keyspace ∧
      cluster.persist = true ∧ s' = s ∧
      s.globals.persistentList.find acquired.cacheKey =
        some (.session acquired.session acquired.future)) ∨
    (acquired.persist = true ∧ acquired.cacheKey = sessionKey cluster.cacheKey keyspace ∧
      acquired.session = s.fresh ∧ acquired.future = s.fresh + 1 ∧
      (∀ session future, s.globals.persistentList.find acquired.cacheKey ≠
        some (.session session future)) ∧
      ∃ g, s.globals.insert acquired.cacheKey (.session acquired.session acquired.future) = some g ∧
        s' = { s with globals := g, fresh := s.fresh + 2 }) := by
  unfold State.acquire at h
  split at h
  · rename_i hpersist
    dsimp only at h
    split at h
    · rename_i session future hfind
      cases h
      exact .inr (.inl ⟨rfl, rfl, hpersist, rfl, hfind⟩)
    · rename_i hnone
      split at h
      · obtain ⟨g, hinsert, hpair⟩ := Option.map_eq_some_iff.mp h
        cases hpair
        exact .inr (.inr ⟨rfl, rfl, rfl, rfl, hnone, g, hinsert, rfl⟩)
      · cases h
        exact .inl ⟨rfl, rfl, fun _ => hnone⟩
  · rename_i hpersist
    cases h
    exact .inl ⟨rfl, rfl, fun hp => absurd hp hpersist⟩

/-- After the first part of a connect call all is in place, and so is the
session it goes on with. -/
theorem State.Sound.acquire (h : s.Sound) {acquired : Acquired}
    (hacquire : s.acquire limit cluster keyspace = some (s', acquired)) :
    s'.Sound ∧ (acquired.persist → s'.globals.persistentList.find acquired.cacheKey =
      some (.session acquired.session acquired.future)) := by
  rcases acquire_cases hacquire with ⟨hpersist, rfl, -⟩ | ⟨-, -, -, rfl, hfind⟩ |
    ⟨-, -, hsession, hfuture, hnone, g, hinsert, rfl⟩
  · refine ⟨h.raise (Nat.le_add_right _ _), fun hp => ?_⟩
    rw [hpersist] at hp
    cases hp
  · exact ⟨h, fun _ => hfind⟩
  · have hput : g.persistentList.find acquired.cacheKey =
        some (.session acquired.session acquired.future) := by
      rw [Globals.persistentList_of_insert hinsert, PersistentList.find_put_self]
    refine ⟨h.change (differs_insert hinsert) ?_ (Nat.le_add_right _ _)
      (State.unborrowed_of_not_session hnone), fun _ => hput⟩
    intro session future hnew
    rw [hput] at hnew
    cases hnew
    omega

theorem step_connect (h : s.Sound)
    (hstep : step limit s (.connect cluster keyspace waited) = some s') :
    (Allowed limit s (.connect cluster keyspace waited) → s'.Sound) ∧
      (s'.AllBacked → Allowed limit s (.connect cluster keyspace waited)) := by
  obtain ⟨⟨s₁, acquired⟩, hacquire, hstate⟩ := Option.map_eq_some_iff.mp hstep
  obtain ⟨hsound, hplaced⟩ := h.acquire hacquire
  dsimp only at hstate
  split at hstate
  · rename_i hok
    cases hstate
    exact ⟨fun _ => hsound.addSession fun hp => ⟨_, hplaced hp⟩,
      fun _ _ hfails => absurd hok hfails⟩
  · split at hstate
    · -- the entry goes, whether it was just made or was there before
      rename_i hpersist
      cases hstate
      have hgone : ∀ session future, (s₁.globals.indexDel acquired.cacheKey).persistentList.find
          acquired.cacheKey ≠ some (.session session future) := by
        intro session future hfind
        rw [Globals.indexDel_persistentList, PersistentList.find_erase_self] at hfind
        cases hfind
      rcases acquire_cases hacquire with ⟨hnot, -⟩ | ⟨-, hkey, hcluster, rfl, -⟩ |
        ⟨-, hkey, -, -, hnone, g, hinsert, rfl⟩
      · rw [hpersist] at hnot
        cases hnot
      · constructor
        · intro hallowed
          exact h.change (differs_indexDel _ _)
            (fun session future hfind => absurd hfind (hgone session future)) le_rfl
            (hkey ▸ hallowed hcluster ‹_›)
        · intro hall _ _
          rw [← hkey]
          exact h.numbered.unborrowed_of_gone (differs_indexDel _ _) hgone hall
            (fun _ ho => ho) (fun _ ho => ho)
      · have hunborrowed := State.unborrowed_of_not_session hnone
        refine ⟨fun _ => ?_, fun _ _ _ => hkey ▸ hunborrowed⟩
        refine h.change (fun other hne => ?_)
          (fun session future hfind => absurd hfind (hgone session future))
          (Nat.le_add_right _ _) hunborrowed
        rw [differs_indexDel _ _ other hne, differs_insert hinsert other hne]
    · rename_i hpersist
      cases hstate
      refine ⟨fun _ => hsound, fun _ hcluster _ => ?_⟩
      rcases acquire_cases hacquire with ⟨-, -, hnone⟩ | ⟨hp, -⟩ | ⟨hp, -⟩
      · exact State.unborrowed_of_not_session (hnone hcluster)
      · exact absurd hp hpersist
      · exact absurd hp hpersist

theorem step_connectAsync (h : s.Sound)
    (hstep : step limit s (.connectAsync cluster keyspace) = some s') : s'.Sound := by
  obtain ⟨⟨s₁, acquired⟩, hacquire, hstate⟩ := Option.map_eq_some_iff.mp hstep
  obtain ⟨hsound, hplaced⟩ := h.acquire hacquire
  cases hstate
  refine hsound.addFuture ⟨fun hp => ⟨_, _, hplaced hp, rfl, rfl⟩, ?_⟩
  intro object hobject
  cases hobject

/-! `FutureSession::get` -/

theorem get_eq (hself : s.futures[i]? = some self)
    (hstep : step limit s (.get i waited) = some s') :
    s' =
      { s with
        globals := (self.get s.globals waited).2.2
        futures := s.futures.set i (self.get s.globals waited).2.1
        sessions := s.sessions ++ match (self.get s.globals waited).1 with
          | .session object => [object]
          | _ => [] } := by
  simp only [step, State.get, hself, Option.map_some, Option.some.injEq] at hstep
  exact hstep.symm

theorem State.Sound.get_idle (h : s.Sound) (hself : s.futures[i]? = some self)
    (hidle : ¬ self.Pending) (hstep : step limit s (.get i waited) = some s') : s'.Sound := by
  obtain ⟨delivery, hget, hobject⟩ := FutureSession.get_of_not_pending s.globals waited hidle
  have hplaced := h.futures self (List.mem_of_getElem? hself)
  have hset := h.setFuture i hplaced
  rw [get_eq hself hstep, hget]
  cases delivery with
  | session object =>
    exact hset.addSession (hplaced.defaultSession object (hobject object rfl))
  | driverError e | waitFailed | noSession => simpa using hset

theorem State.Sound.get_ok (h : s.Sound) (hself : s.futures[i]? = some self)
    (hpending : self.Pending) (hstep : step limit s (.get i .ok) = some s') : s'.Sound := by
  have hplaced := h.futures self (List.mem_of_getElem? hself)
  obtain ⟨session, hsession⟩ := Option.isSome_iff_exists.mp hpending.2.2.1
  rw [get_eq hself hstep, FutureSession.get_of_pending hpending hsession]
  have hobject : (self.sessionObject session).Placed s.globals.persistentList := by
    intro hpersist
    obtain ⟨session', future, hfind, hsession', -⟩ := hplaced.entry hpersist
    rw [hsession, Option.some.injEq] at hsession'
    exact ⟨future, hsession' ▸ hfind⟩
  have hfuture : FutureSession.Placed s.globals.persistentList
      { self.handOver with defaultSession := some (self.sessionObject session) } := by
    refine ⟨?_, fun object hmem => Option.some.inj hmem ▸ hobject⟩
    by_cases hpersist : self.persist
    · rw [FutureSession.handOver_of_persist hpersist]
      exact hplaced.entry
    · rw [FutureSession.handOver_of_not_persist hpersist]
      exact fun hp => absurd hp hpersist
  exact (h.setFuture i hfuture).addSession hobject

theorem State.Sound.get_kept (h : s.Sound) (hself : s.futures[i]? = some self)
    (hpending : self.Pending) (hfails : waited ≠ .ok)
    (hkept : self.persist → waited = .failed ∧ self.cacheKey = 0)
    (hstep : step limit s (.get i waited) = some s') : s'.Sound := by
  have hplaced := h.futures self (List.mem_of_getElem? hself)
  obtain ⟨session, hsession⟩ := Option.isSome_iff_exists.mp hpending.2.2.1
  have hfuture : self.handOver.Placed s.globals.persistentList := by
    by_cases hpersist : self.persist
    · rw [FutureSession.handOver_of_persist hpersist]
      exact hplaced
    · rw [FutureSession.handOver_of_not_persist hpersist]
      exact ⟨fun hp => absurd hp hpersist, hplaced.defaultSession⟩
  have hset := h.setFuture i hfuture
  rw [get_eq hself hstep, FutureSession.get_of_pending hpending hsession]
  cases waited with
  | failed =>
    have hguard : (self.persist && self.cacheKey != 0) = false := by
      cases hp : self.persist with
      | false => rfl
      | true => simp [(hkept hp).2]
    simpa [hguard] using hset
  | error e =>
    have hguard : self.persist = false := by
      cases hp : self.persist with
      | false => rfl
      | true => exact absurd (hkept hp).1 (by simp)
    simpa [hguard] using hset
  | ok => exact absurd rfl hfails

/-- A failing wait on a persistent future leaves it with a session that is no
longer in the list. -/
theorem State.Sound.get_dangles (h : s.Sound) (hself : s.futures[i]? = some self)
    (hpersist : self.persist) (hpending : self.Pending) (hfails : waited ≠ .ok)
    (hdropped : ¬ (waited = .failed ∧ self.cacheKey = 0))
    (hstep : step limit s (.get i waited) = some s') : ¬ s'.AllBacked := by
  have hplaced := h.futures self (List.mem_of_getElem? hself)
  obtain ⟨session, future, hfind, hsession, -⟩ := hplaced.entry hpersist
  -- in both cases the future keeps its session, and its entry goes
  have hafter : ∃ self' : FutureSession, self'.persist ∧ self'.session = some session ∧
      (self.get s.globals waited).2 = (self', s.globals.indexDel self.cacheKey) := by
    rw [FutureSession.get_of_pending hpending hsession]
    cases waited with
    | failed =>
      have hguard : (self.persist && self.cacheKey != 0) = true := by
        simp only [hpersist, Bool.true_and, bne_iff_ne]
        exact fun hzero => hdropped ⟨rfl, hzero⟩
      refine ⟨{ self with future := none }, hpersist, hsession, ?_⟩
      simp only [hguard, if_true, FutureSession.handOver_of_persist hpersist,
        FutureSession.dropEntry_of_find self hfind]
    | error e =>
      refine ⟨{ self with exception := some e, future := none }, hpersist, hsession, ?_⟩
      dsimp only
      rw [if_pos hpersist, FutureSession.handOver_of_persist hpersist,
        FutureSession.dropEntry_of_find { self with exception := some e } hfind]
    | ok => exact absurd rfl hfails
  obtain ⟨self', hpersist', hsession', hget⟩ := hafter
  intro hbacked
  have hlt : i < s.futures.length := (List.getElem?_eq_some_iff.mp hself).1
  have hmem : self' ∈ s'.futures := by
    rw [get_eq hself hstep, hget]
    exact List.mem_of_getElem? (i := i) (by simp [hlt])
  obtain ⟨other, future', hother⟩ := ((hbacked.futures self' hmem).1 hpersist').1 _ hsession'
  rw [get_eq hself hstep, hget, Globals.indexDel_persistentList] at hother
  by_cases hsame : other = self.cacheKey
  · rw [hsame, PersistentList.find_erase_self] at hother
    cases hother
  · rw [PersistentList.find_erase_of_ne hsame] at hother
    exact hsame (h.numbered.session_key hother hfind)

theorem step_get (h : s.Sound) (hstep : step limit s (.get i waited) = some s') :
    (Allowed limit s (.get i waited) → s'.Sound) ∧
      (s'.AllBacked → Allowed limit s (.get i waited)) := by
  obtain ⟨self, hself, -⟩ := Option.map_eq_some_iff.mp hstep
  constructor
  · intro hallowed
    by_cases hpending : self.Pending
    · by_cases hok : waited = .ok
      · subst hok
        exact h.get_ok hself hpending hstep
      · exact h.get_kept hself hpending hok
          (fun hpersist => hallowed self hself hpersist hpending hok) hstep
    · exact h.get_idle hself hpending hstep
  · intro hbacked o ho hpersist hpending hfails
    obtain rfl := Option.some.inj (hself.symm.trans ho)
    by_contra hdropped
    exact h.get_dangles hself hpersist hpending hfails hdropped hstep hbacked

/-! `prepare`, and the whole machine -/

theorem dropBad_cases {g g' : Globals} {cachedGood : Bool}
    (h : dropBad g key cachedGood = some g') :
    g' = g ∨
      (g' = g.indexDel key ∧ ∀ session future,
        g.persistentList.find key ≠ some (.session session future)) := by
  unfold dropBad at h
  split at h
  · rename_i future hfind
    split at h
    · cases h
    · cases h
      refine .inr ⟨rfl, fun session future' hsession => ?_⟩
      rw [hfind] at hsession
      cases hsession
  · exact .inl (Option.some.inj h).symm

theorem State.Sound.dropBad (h : s.Sound) {g : Globals} {key : UInt64} {cachedGood : Bool}
    (hdrop : dropBad s.globals key cachedGood = some g) : State.Sound { s with globals := g } ∧
      Differs s.globals.persistentList g.persistentList key ∧
      (g = s.globals ∨ s.Unborrowed key) := by
  rcases dropBad_cases hdrop with rfl | ⟨rfl, hnone⟩
  · exact ⟨h, fun _ _ => rfl, .inl rfl⟩
  · have hunborrowed := State.unborrowed_of_not_session hnone
    refine ⟨h.change (differs_indexDel _ _) ?_ le_rfl hunborrowed, differs_indexDel _ _,
      .inr hunborrowed⟩
    intro session future hfind
    rw [Globals.indexDel_persistentList, PersistentList.find_erase_self] at hfind
    cases hfind

theorem step_prepare (h : s.Sound) {cql : Bytes} {cachedGood : Bool}
    (hstep : step limit s (.prepare i cql cachedGood waited) = some s') :
    (Allowed limit s (.prepare i cql cachedGood waited) → s'.Sound) ∧
      (s'.AllBacked → Allowed limit s (.prepare i cql cachedGood waited)) := by
  obtain ⟨self, hself, hstate⟩ := Option.bind_eq_some_iff.mp hstep
  split at hstate
  · rename_i hpersist
    split at hstate
    · -- a good statement was cached: its entry is no session
      rename_i hcached
      cases hstate
      refine ⟨fun _ => h, fun _ o ho _ _ _ => State.unborrowed_of_not_session ?_⟩
      obtain rfl := Option.some.inj (hself.symm.trans ho)
      intro session future hsession
      simp [dropBad, hsession] at hcached
    · rename_i g hdrop
      obtain ⟨hsound, hdiffers, hkept⟩ := h.dropBad hdrop
      split at hstate
      · rename_i hroom
        obtain ⟨hroom, hok⟩ := Bool.and_eq_true_iff.mp hroom
        obtain ⟨g', hinsert, hnext⟩ := Option.map_eq_some_iff.mp hstate
        cases hnext
        obtain ⟨hover, hbacked⟩ := h.overwrite hdiffers (fun _ _ hentry => by cases hentry) hinsert
        constructor
        · intro hallowed
          refine hover ?_
          rcases hkept with rfl | hunborrowed
          · exact hallowed self hself hpersist (of_decide_eq_true hok) hroom
          · exact hunborrowed
        · intro hall o ho _ _ _
          obtain rfl := Option.some.inj (hself.symm.trans ho)
          exact hbacked hall
      · rename_i hroom
        cases hstate
        refine ⟨fun _ => hsound, fun _ o ho _ hok hcan => ?_⟩
        obtain rfl := Option.some.inj (hself.symm.trans ho)
        rcases hkept with rfl | hunborrowed
        · exact absurd (Bool.and_eq_true_iff.mpr ⟨hcan, decide_eq_true hok⟩) hroom
        · exact hunborrowed
  · rename_i hpersist
    cases hstate
    refine ⟨fun _ => h, fun _ o ho hp => ?_⟩
    obtain rfl := Option.some.inj (hself.symm.trans ho)
    exact absurd hp hpersist

/-- One step from a state in which all is in place. -/
theorem step_sound_iff (h : s.Sound) {call : Call} (hstep : step limit s call = some s') :
    (Allowed limit s call → s'.Sound) ∧ (s'.AllBacked → Allowed limit s call) := by
  cases call with
  | build persist key configured => exact step_build h hstep
  | connect cluster keyspace waited => exact step_connect h hstep
  | connectAsync cluster keyspace =>
    exact ⟨fun _ => step_connectAsync h hstep, fun _ => trivial⟩
  | get i waited => exact step_get h hstep
  | prepare i cql cachedGood waited => exact step_prepare h hstep
  | dropSession i =>
    cases hstep
    exact ⟨fun _ => ⟨h.numbered, fun o ho => h.sessions o (List.mem_of_mem_eraseIdx ho),
      h.futures⟩, fun _ => trivial⟩
  | dropFuture i =>
    cases hstep
    exact ⟨fun _ => ⟨h.numbered, h.sessions,
      fun o ho => h.futures o (List.mem_of_mem_eraseIdx ho)⟩, fun _ => trivial⟩

/-- In every state of a run of allowed steps all persistent objects are backed
by the list, and a further step leaves them so exactly if it is allowed. -/
theorem allBacked_iff_allowed
    (hreach : Transition.Reachable (step limit) (Allowed limit) State.initial s) :
    s.AllBacked ∧
      ∀ call s', step limit s call = some s' → (s'.AllBacked ↔ Allowed limit s call) := by
  have hkept : ∀ (s : State) call s', s.Sound → Allowed limit s call →
      step limit s call = some s' → s'.Sound :=
    fun s call s' hs hallowed hstep => (step_sound_iff hs hstep).1 hallowed
  have hsound : s.Sound := hreach.invariant sound_initial hkept
  refine ⟨hsound.allBacked, fun call s' hstep => ?_⟩
  obtain ⟨hkeeps, hneeds⟩ := step_sound_iff hsound hstep
  exact ⟨hneeds, fun hallowed => (hkeeps hallowed).allBacked⟩

end

theorem allBacked_iff_allowed_connectAsync :
    ∃ s, step (fun _ => 16) State.initial (.connectAsync ⟨true, 5⟩ none) = some s ∧
      s.AllBacked ∧ ∀ call s', step (fun _ => 16) s call = some s' →
        (s'.AllBacked ↔ Allowed (fun _ => 16) s call) := by
  have hreturns : (step (fun _ => 16) State.initial (.connectAsync ⟨true, 5⟩ none)).isSome := rfl
  obtain ⟨s, hstep⟩ := Option.isSome_iff_exists.mp hreturns
  have hallowed : Allowed (fun _ => 16) State.initial (.connectAsync ⟨true, 5⟩ none) := trivial
  exact ⟨s, hstep, allBacked_iff_allowed (Transition.Reachable.init.step hallowed hstep)⟩

/-- A `connect` that times out frees the session of a `connectAsync` that is
still under way. -/
theorem connect_frees_pending_session :
    ∃ s₁ s₂, step (fun _ => 16) State.initial (.connectAsync ⟨true, 5⟩ none) = some s₁ ∧
      step (fun _ => 16) s₁ (.connect ⟨true, 5⟩ none .failed) = some s₂ ∧ ¬ s₂.AllBacked := by
  refine ⟨_, _, rfl, rfl, ?_⟩
  intro hbacked
  obtain ⟨key, future, hfind⟩ := ((hbacked.futures _ List.mem_cons_self).1 rfl).1 0 rfl
  have hempty : (none : Option Entry) = some (.session 0 future) := hfind
  cases hempty

end Cluster
end ScyllaDriver
