import Mathlib.Data.List.Lookmap
import Mathlib.Data.List.Nodup
import Mathlib.Data.UInt
import Mathlib.Tactic

/-!
# The persistent list and its counters

`EG(persistent_list)` keeps clusters, sessions and prepared statements of a
worker between requests. Every way an entry leaves the list (deletion, or
being overwritten) runs the destructor of its resource type, which decrements
the module's counter for that type; the functions that insert an entry
increment it themselves.

`Globals.underflowed` records whether a destructor ever met a counter at zero.
-/

namespace ScyllaDriver
namespace Cluster

/-- `php_scylladb_persistent_kind`. -/
inductive Kind where
  | clusters
  | sessions
  | preparedStatements
  deriving DecidableEq

/-- A resource of the list; objects of the driver are numbered. -/
inductive Entry where
  | cluster (cluster : Nat)
  | session (session future : Nat)
  | preparedStatement (future : Nat)
  deriving DecidableEq

def Entry.kind : Entry → Kind
  | .cluster _ => .clusters
  | .session _ _ => .sessions
  | .preparedStatement _ => .preparedStatements

/-- A table in insertion order, with one entry for each key. -/
structure PersistentList where
  entries : List (UInt64 × Entry)
  distinct : (entries.map Prod.fst).Nodup

namespace PersistentList

def empty : PersistentList where
  entries := []
  distinct := List.nodup_nil

/-- `zend_hash_index_find`. -/
def find (l : PersistentList) (key : UInt64) : Option Entry :=
  l.entries.lookup key

def erase (l : PersistentList) (key : UInt64) : PersistentList where
  entries := l.entries.filter (·.1 ≠ key)
  distinct := l.distinct.sublist (List.filter_sublist.map Prod.fst)

/-- The table with the entry of a key set: in its old place, or at the end. -/
def put (l : PersistentList) (key : UInt64) (entry : Entry) : PersistentList :=
  if hkey : key ∈ l.entries.map Prod.fst then
    { entries := l.entries.map fun old => if old.1 = key then (key, entry) else old
      distinct := by
        have hkeys : (l.entries.map fun old => if old.1 = key then (key, entry) else old).map
            Prod.fst = l.entries.map Prod.fst := by
          rw [List.map_map]
          refine List.map_congr_left fun old _ => ?_
          by_cases hold : old.1 = key <;> simp [hold]
        rw [hkeys]
        exact l.distinct }
  else
    { entries := l.entries ++ [(key, entry)]
      distinct := by
        rw [List.map_append, List.map_singleton]
        exact l.distinct.append (List.nodup_singleton key) (List.disjoint_singleton.mpr hkey) }

def count (l : PersistentList) (kind : Kind) : Nat :=
  l.entries.countP (·.2.kind = kind)

variable {l : PersistentList} {key : UInt64} {entry : Entry}

theorem mem_of_find (h : l.find key = some entry) : (key, entry) ∈ l.entries := by
  obtain ⟨before, after, hentries, _⟩ := List.lookup_eq_some_iff.mp h
  rw [hentries]
  simp

theorem find_of_mem (h : (key, entry) ∈ l.entries) : l.find key = some entry := by
  obtain ⟨before, after, hentries⟩ := List.append_of_mem h
  refine List.lookup_eq_some_iff.mpr ⟨before, after, hentries, ?_⟩
  intro old hold
  have hdistinct := l.distinct
  rw [hentries, List.map_append, List.map_cons] at hdistinct
  have hne : old.1 ≠ key := by
    intro hsame
    exact List.disjoint_of_nodup_append hdistinct (List.mem_map_of_mem hold)
      (hsame ▸ List.mem_cons_self)
  simpa using Ne.symm hne

theorem find_eq_some_iff : l.find key = some entry ↔ (key, entry) ∈ l.entries :=
  ⟨mem_of_find, find_of_mem⟩

theorem find_eq_none_iff : l.find key = none ↔ key ∉ l.entries.map Prod.fst := by
  rw [find, List.lookup_eq_none_iff]
  simp only [List.mem_map, Prod.exists, exists_and_right, exists_eq_right, not_exists, bne_iff_ne]
  constructor
  · intro h entry hentry
    exact h _ hentry rfl
  · rintro h ⟨k, entry⟩ hentry rfl
    exact h entry hentry

@[simp] theorem find_erase_self : (l.erase key).find key = none := by
  rw [find_eq_none_iff]
  simp [erase]

theorem find_erase_of_ne {other : UInt64} (hne : other ≠ key) :
    (l.erase key).find other = l.find other := by
  ext found
  rw [find_eq_some_iff, find_eq_some_iff]
  simp [erase, hne]

theorem mem_put :
    ∀ old, old ∈ (l.put key entry).entries ↔
      old = (key, entry) ∨ (old ∈ l.entries ∧ old.1 ≠ key) := by
  intro old
  unfold put
  split_ifs with hkey
  · simp only [List.mem_map]
    constructor
    · rintro ⟨before, hbefore, rfl⟩
      by_cases hsame : before.1 = key
      · simp [hsame]
      · simp [hsame, hbefore]
    · rintro (rfl | ⟨hold, hne⟩)
      · obtain ⟨before, hbefore, hsame⟩ := List.mem_map.mp hkey
        exact ⟨before, hbefore, by simp [hsame]⟩
      · exact ⟨old, hold, by simp [hne]⟩
  · simp only [List.mem_append, List.mem_singleton]
    constructor
    · rintro (hold | rfl)
      · refine .inr ⟨hold, ?_⟩
        rintro rfl
        exact hkey (List.mem_map_of_mem hold)
      · exact .inl rfl
    · rintro (rfl | ⟨hold, _⟩)
      · exact .inr rfl
      · exact .inl hold

@[simp] theorem find_put_self : (l.put key entry).find key = some entry :=
  find_of_mem ((mem_put _).mpr (.inl rfl))

theorem find_put_of_ne {other : UInt64} (hne : other ≠ key) :
    (l.put key entry).find other = l.find other := by
  ext found
  rw [find_eq_some_iff, find_eq_some_iff, mem_put]
  simp [hne]

/-! Numbers of entries -/

theorem split_at {old : Entry} (h : l.find key = some old) :
    ∃ before after, l.entries = before ++ (key, old) :: after ∧
      (∀ x ∈ before, x.1 ≠ key) ∧ (∀ x ∈ after, x.1 ≠ key) := by
  obtain ⟨before, after, hentries⟩ := List.append_of_mem (mem_of_find h)
  have hdistinct := l.distinct
  rw [hentries, List.map_append, List.map_cons, List.nodup_middle, List.nodup_cons] at hdistinct
  refine ⟨before, after, hentries, ?_, ?_⟩
  · intro x hx hsame
    exact hdistinct.1 (List.mem_append_left _ (List.mem_map.mpr ⟨x, hx, hsame⟩))
  · intro x hx hsame
    exact hdistinct.1 (List.mem_append_right _ (List.mem_map.mpr ⟨x, hx, hsame⟩))

theorem entries_erase {before after : List (UInt64 × Entry)} {old : Entry}
    (hentries : l.entries = before ++ (key, old) :: after) (hbefore : ∀ x ∈ before, x.1 ≠ key)
    (hafter : ∀ x ∈ after, x.1 ≠ key) : (l.erase key).entries = before ++ after := by
  change l.entries.filter (·.1 ≠ key) = before ++ after
  rw [hentries, List.filter_append, List.filter_cons]
  simp only [ne_eq, not_true_eq_false, decide_false, Bool.false_eq_true, if_false]
  rw [List.filter_eq_self.mpr (by simpa using hbefore),
    List.filter_eq_self.mpr (by simpa using hafter)]

theorem entries_put_over {before after : List (UInt64 × Entry)} {old : Entry}
    (hentries : l.entries = before ++ (key, old) :: after) (hbefore : ∀ x ∈ before, x.1 ≠ key)
    (hafter : ∀ x ∈ after, x.1 ≠ key) :
    (l.put key entry).entries = before ++ (key, entry) :: after := by
  have hkey : key ∈ l.entries.map Prod.fst := by
    rw [hentries]
    simp
  have hsame : ∀ part : List (UInt64 × Entry), (∀ x ∈ part, x.1 ≠ key) →
      part.map (fun x => if x.1 = key then (key, entry) else x) = part := by
    intro part hpart
    conv_rhs => rw [← List.map_id part]
    refine List.map_congr_left fun x hx => ?_
    simp [hpart x hx]
  rw [put, dif_pos hkey]
  simp [hentries, hsame before hbefore, hsame after hafter]

theorem count_erase {old : Entry} (h : l.find key = some old) (kind : Kind) :
    l.count kind = (l.erase key).count kind + if old.kind = kind then 1 else 0 := by
  obtain ⟨before, after, hentries, hbefore, hafter⟩ := split_at h
  rw [count, count, entries_erase hentries hbefore hafter, hentries]
  simp only [List.countP_append, List.countP_cons, decide_eq_true_eq]
  omega

theorem count_put_new (h : l.find key = none) (kind : Kind) :
    (l.put key entry).count kind = l.count kind + if entry.kind = kind then 1 else 0 := by
  rw [find_eq_none_iff] at h
  rw [put, dif_neg h, count, count]
  simp only [List.countP_append, List.countP_singleton, decide_eq_true_eq]

theorem count_put_over {old : Entry} (h : l.find key = some old) (kind : Kind) :
    (l.put key entry).count kind =
      (l.erase key).count kind + if entry.kind = kind then 1 else 0 := by
  obtain ⟨before, after, hentries, hbefore, hafter⟩ := split_at h
  rw [count, count, entries_erase hentries hbefore hafter, entries_put_over hentries hbefore hafter]
  simp only [List.countP_append, List.countP_cons, decide_eq_true_eq]
  omega

theorem count_le_length (kind : Kind) : l.count kind ≤ l.entries.length :=
  List.countP_le_length

theorem length_erase_le : (l.erase key).entries.length ≤ l.entries.length :=
  List.length_filter_le _ _

theorem length_put_over (h : key ∈ l.entries.map Prod.fst) :
    (l.put key entry).entries.length = l.entries.length := by
  rw [put, dif_pos h, List.length_map]

theorem length_put_new (h : key ∉ l.entries.map Prod.fst) :
    (l.put key entry).entries.length = l.entries.length + 1 := by
  rw [put, dif_neg h, List.length_append, List.length_singleton]

end PersistentList

/-- `HT_MAX_SIZE`: a table does not grow further, the engine stops the request. -/
def htMaxSize : Nat := 0x40000000

structure Globals where
  persistentList : PersistentList
  /-- `persistent_clusters`, `persistent_sessions` and
  `persistent_prepared_statements`. -/
  counter : Kind → UInt32
  underflowed : Bool

namespace Globals

def initial : Globals where
  persistentList := .empty
  counter := fun _ => 0
  underflowed := false

def dtor (g : Globals) (kind : Kind) : Globals :=
  { g with
    counter := Function.update g.counter kind (g.counter kind - 1)
    underflowed := g.underflowed || g.counter kind == 0 }

/-- `zend_hash_index_del`. -/
def indexDel (g : Globals) (key : UInt64) : Globals :=
  match g.persistentList.find key with
  | some old => { g.dtor old.kind with persistentList := g.persistentList.erase key }
  | none => g

/-- `zend_hash_index_update`; `none` if the table is full. -/
def indexUpdate (g : Globals) (key : UInt64) (entry : Entry) : Option Globals :=
  match g.persistentList.find key with
  | some old => some { g.dtor old.kind with persistentList := g.persistentList.put key entry }
  | none =>
    if g.persistentList.entries.length < htMaxSize then
      some { g with persistentList := g.persistentList.put key entry }
    else none

/-- An insertion and the increment that follows it at each of the insertion
sites. -/
def insert (g : Globals) (key : UInt64) (entry : Entry) : Option Globals :=
  (g.indexUpdate key entry).map fun g' =>
    { g' with counter := Function.update g'.counter entry.kind (g'.counter entry.kind + 1) }

/-- `php_scylladb_persistent_can_cache`. -/
def canCache (limit : Kind → Int) (g : Globals) (kind : Kind) : Bool :=
  limit kind < 0 || (g.counter kind).toNat < limit kind

@[simp] theorem indexDel_persistentList (g : Globals) (key : UInt64) :
    (g.indexDel key).persistentList.find = (g.persistentList.erase key).find := by
  unfold indexDel
  split
  · rfl
  · rename_i hnone
    funext other
    by_cases hsame : other = key
    · rw [hsame, hnone, PersistentList.find_erase_self]
    · rw [PersistentList.find_erase_of_ne hsame]

theorem persistentList_of_insert {g g' : Globals} {key : UInt64} {entry : Entry}
    (h : g.insert key entry = some g') : g'.persistentList = g.persistentList.put key entry := by
  obtain ⟨g₁, hupdate, rfl⟩ := Option.map_eq_some_iff.mp h
  unfold indexUpdate at hupdate
  split at hupdate
  · rw [← Option.some.inj hupdate]
  · split at hupdate
    · rw [← Option.some.inj hupdate]
    · cases hupdate

/-- Each counter is the number of entries of its kind, and none was ever below. -/
structure Counted (g : Globals) : Prop where
  counts : ∀ kind, (g.counter kind).toNat = g.persistentList.count kind
  bounded : g.persistentList.entries.length ≤ htMaxSize
  sound : g.underflowed = false

theorem counted_initial : Counted .initial where
  counts := fun _ => rfl
  bounded := Nat.zero_le _
  sound := rfl

theorem toNat_update_sub {counter : Kind → UInt32} {n : Kind → Nat} {kind : Kind}
    (h : ∀ k, (counter k).toNat = n k + if kind = k then 1 else 0) (k : Kind) :
    (Function.update counter kind (counter kind - 1) k).toNat = n k := by
  by_cases hk : k = kind
  · subst hk
    have hcounter := h k
    rw [if_pos rfl] at hcounter
    have hone : (1 : UInt32) ≤ counter k := by
      rw [UInt32.le_iff_toNat_le, hcounter]
      exact Nat.le_add_left 1 _
    rw [Function.update_self, UInt32.toNat_sub_of_le _ _ hone, hcounter]
    exact Nat.add_sub_cancel _ _
  · rw [Function.update_of_ne hk, h k, if_neg (Ne.symm hk), Nat.add_zero]

theorem toNat_update_add {counter : Kind → UInt32} {n : Kind → Nat} {kind : Kind}
    (h : ∀ k, (counter k).toNat = n k) (hroom : n kind + 1 < 2 ^ 32) (k : Kind) :
    (Function.update counter kind (counter kind + 1) k).toNat =
      n k + if kind = k then 1 else 0 := by
  by_cases hk : k = kind
  · subst hk
    rw [Function.update_self, if_pos rfl, UInt32.toNat_add, h k]
    exact Nat.mod_eq_of_lt hroom
  · rw [Function.update_of_ne hk, h k, if_neg (Ne.symm hk), Nat.add_zero]

variable {g g' : Globals} {key : UInt64} {entry : Entry}

theorem Counted.counter_ne_zero (h : Counted g) {old : Entry}
    (hfind : g.persistentList.find key = some old) : g.counter old.kind ≠ 0 := by
  intro hzero
  have hcount := h.counts old.kind
  rw [PersistentList.count_erase hfind old.kind, if_pos rfl, hzero] at hcount
  simp at hcount

theorem Counted.indexDel (h : Counted g) (key : UInt64) : Counted (g.indexDel key) := by
  unfold Globals.indexDel
  split
  · rename_i old hfind
    refine ⟨?_, PersistentList.length_erase_le.trans h.bounded, ?_⟩
    · refine toNat_update_sub fun k => ?_
      rw [h.counts k, PersistentList.count_erase hfind k]
    · simp [dtor, h.sound, h.counter_ne_zero hfind]
  · exact h

theorem Counted.insert (h : Counted g) (hinsert : g.insert key entry = some g') : Counted g' := by
  obtain ⟨g₁, hupdate, rfl⟩ := Option.map_eq_some_iff.mp hinsert
  unfold indexUpdate at hupdate
  split at hupdate
  · rename_i old hfind
    cases hupdate
    have hkey : key ∈ g.persistentList.entries.map Prod.fst :=
      List.mem_map_of_mem (PersistentList.mem_of_find hfind)
    refine ⟨?_, ?_, ?_⟩
    · intro k
      rw [PersistentList.count_put_over hfind k]
      refine toNat_update_add (toNat_update_sub fun k' => ?_) ?_ k
      · rw [h.counts k', PersistentList.count_erase hfind k']
      · have hle : (g.persistentList.erase key).count entry.kind ≤ htMaxSize :=
          (PersistentList.count_le_length _).trans (PersistentList.length_erase_le.trans h.bounded)
        have hmax : htMaxSize < 2 ^ 32 - 1 := by decide
        omega
    · exact (PersistentList.length_put_over hkey).trans_le h.bounded
    · simp [dtor, h.sound, h.counter_ne_zero hfind]
  · rename_i hnone
    split at hupdate
    · rename_i hroom
      cases hupdate
      refine ⟨?_, ?_, h.sound⟩
      · intro k
        rw [PersistentList.count_put_new hnone k]
        refine toNat_update_add h.counts ?_ k
        have hle := (PersistentList.count_le_length entry.kind).trans h.bounded
        have hmax : htMaxSize < 2 ^ 32 - 1 := by decide
        omega
      · exact (PersistentList.length_put_new
          (PersistentList.find_eq_none_iff.mp hnone)).trans_le hroom
    · cases hupdate

/-- No counter with a limit is above it. -/
def WithinLimits (limit : Kind → Int) (g : Globals) : Prop :=
  ∀ kind, 0 ≤ limit kind → ((g.counter kind).toNat : Int) ≤ limit kind

variable {limit : Kind → Int}

theorem withinLimits_initial : WithinLimits limit .initial :=
  fun _ hlimit => hlimit

theorem WithinLimits.of_le (h : WithinLimits limit g)
    (hle : ∀ kind, (g'.counter kind).toNat ≤ (g.counter kind).toNat) : WithinLimits limit g' := by
  intro kind hlimit
  have hg := h kind hlimit
  have hg' := hle kind
  omega

theorem WithinLimits.indexDel (h : WithinLimits limit g) (hcounted : Counted g) (key : UInt64) :
    WithinLimits limit (g.indexDel key) := by
  refine h.of_le fun kind => ?_
  rw [(hcounted.indexDel key).counts, hcounted.counts]
  unfold Globals.indexDel
  split
  · rename_i old hfind
    rw [PersistentList.count_erase hfind kind]
    exact Nat.le_add_right _ _
  · exact le_rfl

theorem count_insert_le (hinsert : g.insert key entry = some g') (kind : Kind) :
    g'.persistentList.count kind ≤
      g.persistentList.count kind + if entry.kind = kind then 1 else 0 := by
  rw [persistentList_of_insert hinsert]
  cases hfind : g.persistentList.find key with
  | none => exact (PersistentList.count_put_new hfind kind).le
  | some old =>
    rw [PersistentList.count_put_over hfind kind, PersistentList.count_erase hfind kind]
    omega

theorem WithinLimits.insert (h : WithinLimits limit g) (hcounted : Counted g)
    (hroom : g.canCache limit entry.kind) (hinsert : g.insert key entry = some g') :
    WithinLimits limit g' := by
  intro kind hlimit
  have hle := count_insert_le hinsert kind
  have hg := h kind hlimit
  rw [hcounted.counts] at hg
  rw [(hcounted.insert hinsert).counts]
  by_cases hkind : entry.kind = kind
  · -- the check was made for this counter
    rw [if_pos hkind] at hle
    simp only [canCache, hkind, Bool.or_eq_true, decide_eq_true_eq, hcounted.counts] at hroom
    omega
  · rw [if_neg hkind] at hle
    omega

end Globals

end Cluster
end ScyllaDriver
