import Mathlib.Data.List.Nodup
import Mathlib.Data.List.Forall2
import Mathlib.Data.List.Lookmap

/-!
# Hash tables that keep the order of insertion

A table of entries in the order in which their keys came, with one entry for
each key. `update` gives a known key its value in place and puts a new key
last; `erase` takes an entry out and leaves the others where they are.
-/

namespace ScyllaDriver

universe u v

structure OrderedTable (κ : Type u) (ν : Type v) where
  entries : List (κ × ν)
  distinct : (entries.map Prod.fst).Nodup

namespace OrderedTable

section Order

variable {κ : Type u} {ν : Type v}

def empty : OrderedTable κ ν where
  entries := []
  distinct := List.nodup_nil

def keys (t : OrderedTable κ ν) : List κ :=
  t.entries.map Prod.fst

def values (t : OrderedTable κ ν) : List ν :=
  t.entries.map Prod.snd

@[simp] theorem keys_empty : (empty : OrderedTable κ ν).keys = [] :=
  rfl

theorem keys_nodup (t : OrderedTable κ ν) : t.keys.Nodup :=
  t.distinct

/-- Two searches end at one key unless they differ on the first entry that one of them
stops at. -/
theorem map_fst_find_eq_iff {entries : List (κ × ν)} (hdistinct : (entries.map Prod.fst).Nodup)
    (p q : κ × ν → Bool) :
    (entries.find? p).map Prod.fst = (entries.find? q).map Prod.fst ↔
      ∀ earlier entry later, entries = earlier ++ entry :: later →
        (∀ before ∈ earlier, p before = false ∧ q before = false) → p entry = q entry := by
  induction entries with
  | nil => simp
  | cons head tail ih =>
    obtain ⟨hhead, htail⟩ := List.nodup_cons.mp hdistinct
    have hne : ∀ r : κ × ν → Bool, (tail.find? r).map Prod.fst ≠ some head.1 := by
      intro r hfound
      obtain ⟨entry, hentry, hkey⟩ := Option.map_eq_some_iff.mp hfound
      exact hhead (List.mem_map.mpr ⟨entry, List.mem_of_find?_eq_some hentry, hkey⟩)
    have hsplit : (∀ earlier entry later, head :: tail = earlier ++ entry :: later →
        (∀ before ∈ earlier, p before = false ∧ q before = false) → p entry = q entry) ↔
        p head = q head ∧ (p head = false → q head = false →
          ∀ earlier entry later, tail = earlier ++ entry :: later →
            (∀ before ∈ earlier, p before = false ∧ q before = false) → p entry = q entry) := by
      constructor
      · intro h
        refine ⟨h [] head tail rfl (by simp), fun hp hq earlier entry later heq hbefore => ?_⟩
        refine h (head :: earlier) entry later (by rw [heq, List.cons_append]) ?_
        exact List.forall_mem_cons.mpr ⟨⟨hp, hq⟩, hbefore⟩
      · rintro ⟨hfirst, hrest⟩ earlier entry later heq hbefore
        cases earlier with
        | nil =>
          obtain ⟨rfl, -⟩ := List.cons.inj heq
          exact hfirst
        | cons first earlier =>
          obtain ⟨rfl, hsame⟩ := List.cons.inj heq
          obtain ⟨⟨hp, hq⟩, hbefore⟩ := List.forall_mem_cons.mp hbefore
          exact hrest hp hq earlier entry later hsame hbefore
    rw [hsplit]
    cases hp : p head <;> cases hq : q head
    · simp [hp, hq, ih htail]
    · simp [hp, hq, hne p]
    · simp [hp, hq, (hne q).symm]
    · simp [hp, hq]

end Order

variable {κ : Type u} {ν : Type v} [DecidableEq κ]

def find (t : OrderedTable κ ν) (key : κ) : Option ν :=
  t.entries.lookup key

def replaced (key : κ) (value : ν) (entries : List (κ × ν)) : List (κ × ν) :=
  entries.map fun entry => if entry.1 = key then (key, value) else entry

theorem map_fst_replaced (key : κ) (value : ν) (entries : List (κ × ν)) :
    (replaced key value entries).map Prod.fst = entries.map Prod.fst := by
  rw [replaced, List.map_map]
  refine List.map_congr_left fun entry _ => ?_
  by_cases h : entry.1 = key <;> simp [h]

def update (t : OrderedTable κ ν) (key : κ) (value : ν) : OrderedTable κ ν where
  entries :=
    if key ∈ t.entries.map Prod.fst then replaced key value t.entries
    else t.entries ++ [(key, value)]
  distinct := by
    split
    · rw [map_fst_replaced]
      exact t.distinct
    · next h =>
        rw [List.map_append, List.nodup_append]
        refine ⟨t.distinct, List.nodup_singleton _, ?_⟩
        intro a ha b hb hab
        rw [hab, List.mem_singleton.mp hb] at ha
        exact h ha

def erase (t : OrderedTable κ ν) (key : κ) : OrderedTable κ ν where
  entries := t.entries.filter fun entry => entry.1 ≠ key
  distinct := t.distinct.sublist (List.filter_sublist.map Prod.fst)

theorem keys_update (t : OrderedTable κ ν) (key : κ) (value : ν) :
    (t.update key value).keys = if key ∈ t.keys then t.keys else t.keys ++ [key] := by
  by_cases h : key ∈ t.entries.map Prod.fst
  · rw [if_pos (show key ∈ t.keys from h), keys, update]
    simp only [if_pos h, map_fst_replaced]
    rfl
  · rw [if_neg (show key ∉ t.keys from h), keys, update]
    simp only [if_neg h, List.map_append, List.map_singleton]
    rfl

variable {key : κ} {t : OrderedTable κ ν} {value : ν} {entries updates : List (κ × ν)} {f : κ → ν}

theorem mem_values_update {v : ν} (hv : v ∈ (t.update key value).values) :
    v = value ∨ v ∈ t.values := by
  obtain ⟨entry, hentry, rfl⟩ := List.mem_map.mp hv
  simp only [update] at hentry
  split at hentry
  · obtain ⟨old, hold, rfl⟩ := List.mem_map.mp hentry
    split
    · exact .inl rfl
    · exact .inr (List.mem_map_of_mem hold)
  · rcases List.mem_append.mp hentry with hentry | hentry
    · exact .inr (List.mem_map_of_mem hentry)
    · rw [List.mem_singleton.mp hentry]
      exact .inl rfl

theorem lookup_cons_eq (entry : κ × ν) (entries : List (κ × ν)) (key : κ) :
    (entry :: entries).lookup key = if key = entry.1 then some entry.2 else entries.lookup key := by
  rw [List.lookup_cons]
  by_cases h : key = entry.1
  · simp [h]
  · simp [beq_eq_false_iff_ne.mpr h, h]

theorem lookup_eq_none_iff {key : κ} : entries.lookup key = none ↔ key ∉ entries.map Prod.fst := by
  induction entries with
  | nil => simp
  | cons entry entries ih =>
    rw [lookup_cons_eq, List.map_cons, List.mem_cons]
    by_cases h : key = entry.1
    · simp [h]
    · rw [if_neg h, ih]
      simp only [h, false_or]

theorem mem_of_lookup (h : entries.lookup key = some value) : (key, value) ∈ entries := by
  induction entries with
  | nil => cases h
  | cons entry entries ih =>
    rw [lookup_cons_eq] at h
    split at h
    · next hkey =>
        cases h
        exact hkey ▸ List.mem_cons_self
    · exact List.mem_cons_of_mem entry (ih h)

theorem lookup_replaced (key other : κ) (value : ν) (entries : List (κ × ν)) :
    (replaced key value entries).lookup other =
      if other = key then (entries.lookup key).map fun _ => value
      else entries.lookup other := by
  induction entries with
  | nil => simp [replaced]
  | cons entry entries ih =>
    rw [replaced, List.map_cons, ← replaced, lookup_cons_eq, ih, lookup_cons_eq, lookup_cons_eq]
    by_cases hentry : entry.1 = key
    · by_cases hother : other = key <;> simp [hentry, hother]
    · by_cases hother : other = key
      · simp [hentry, hother, Ne.symm hentry]
      · simp [hentry, hother]

theorem find_eq_none_iff {key : κ} : t.find key = none ↔ key ∉ t.keys :=
  lookup_eq_none_iff

@[simp] theorem find_empty (key : κ) : (empty : OrderedTable κ ν).find key = none :=
  rfl

theorem find_update (t : OrderedTable κ ν) (key other : κ) (value : ν) :
    (t.update key value).find other = if other = key then some value else t.find other := by
  simp only [find, update]
  by_cases hkey : key ∈ t.entries.map Prod.fst
  · rw [if_pos hkey, lookup_replaced]
    by_cases hother : other = key
    · obtain ⟨found, hfound⟩ := Option.ne_none_iff_exists'.mp
        (fun h => lookup_eq_none_iff.mp h hkey)
      simp [hother, hfound]
    · simp [hother]
  · rw [if_neg hkey, List.lookup_append]
    by_cases hother : other = key
    · simp [hother, lookup_eq_none_iff.mpr hkey, lookup_cons_eq]
    · simp [hother, lookup_cons_eq]

theorem find_erase (t : OrderedTable κ ν) (key other : κ) :
    (t.erase key).find other = if other = key then none else t.find other := by
  obtain ⟨entries, hnodup⟩ := t
  simp only [find, erase]
  clear hnodup
  induction entries with
  | nil => simp
  | cons entry entries ih =>
    rw [List.filter_cons, lookup_cons_eq]
    by_cases hentry : entry.1 = key
    · rw [if_neg (by simpa using hentry), ih]
      by_cases hother : other = key
      · simp [hother]
      · simp [hother, hentry]
    · rw [if_pos (by simpa using hentry), lookup_cons_eq, ih]
      by_cases hother : other = entry.1
      · simp [hother, hentry]
      · simp [hother]

theorem values_perm_erase (h : t.find key = some value) :
    t.values.Perm (value :: (t.erase key).values) := by
  obtain ⟨entries, hnodup⟩ := t
  simp only [find, values, erase] at h ⊢
  induction entries with
  | nil => cases h
  | cons entry entries ih =>
    obtain ⟨hnew, hrest⟩ := List.nodup_cons.mp hnodup
    rw [lookup_cons_eq] at h
    rw [List.filter_cons, List.map_cons]
    by_cases hentry : entry.1 = key
    · rw [if_pos hentry.symm, Option.some.injEq] at h
      have hothers : entries.filter (fun e => decide (e.1 ≠ key)) = entries := by
        refine List.filter_eq_self.mpr fun e he => ?_
        have hne : e.1 ≠ key := by
          rintro rfl
          exact hnew (hentry ▸ List.mem_map_of_mem he)
        simpa using hne
      rw [if_neg (by simpa using hentry), hothers, h]
    · rw [if_neg (Ne.symm hentry)] at h
      rw [if_pos (by simpa using hentry), List.map_cons]
      exact ((ih hrest h).cons entry.2).trans (List.Perm.swap _ _ _)

theorem values_update_of_not_mem (h : key ∉ t.keys) (value : ν) :
    (t.update key value).values = t.values ++ [value] := by
  have h' : key ∉ t.entries.map Prod.fst := h
  simp only [values, update, if_neg h', List.map_append, List.map_singleton]

theorem mem_values_of_find (h : t.find key = some value) : value ∈ t.values :=
  List.mem_map_of_mem (mem_of_lookup h)

theorem lookup_of_mem (hnodup : (entries.map Prod.fst).Nodup) (h : (key, value) ∈ entries) :
    entries.lookup key = some value := by
  induction entries with
  | nil => cases h
  | cons entry entries ih =>
    obtain ⟨hnew, hrest⟩ := List.nodup_cons.mp hnodup
    rw [lookup_cons_eq]
    rcases List.mem_cons.mp h with rfl | h
    · rw [if_pos rfl]
    · have hkey : key ∈ entries.map Prod.fst := List.mem_map_of_mem (f := Prod.fst) h
      have hne : key ≠ entry.1 := by
        rintro rfl
        exact hnew hkey
      rw [if_neg hne]
      exact ih hrest h

theorem find_of_mem_values (h : value ∈ t.values) : ∃ key, t.find key = some value := by
  obtain ⟨⟨key, found⟩, hentry, rfl⟩ := List.mem_map.mp h
  exact ⟨key, lookup_of_mem t.distinct hentry⟩

theorem values_eq_map (h : ∀ key ∈ t.keys, t.find key = some (f key)) :
    t.values = t.keys.map f := by
  obtain ⟨entries, hnodup⟩ := t
  simp only [keys, values, find] at h ⊢
  induction entries with
  | nil => rfl
  | cons entry entries ih =>
    obtain ⟨hnew, hrest⟩ := List.nodup_cons.mp hnodup
    have hhead := h entry.1 (by simp)
    rw [lookup_cons_eq, if_pos rfl, Option.some.injEq] at hhead
    rw [List.map_cons, List.map_cons, List.map_cons, hhead, ih hrest]
    intro key hkey
    have hne : key ≠ entry.1 := by
      rintro rfl
      exact hnew hkey
    simpa [lookup_cons_eq, hne] using h key (List.mem_cons_of_mem _ hkey)

/-- The values of two tables with the same keys are related in order exactly
if the values of each key are. -/
theorem forall₂_values_iff {R : ν → ν → Prop} {t₁ t₂ : OrderedTable κ ν}
    (hkeys : t₁.keys = t₂.keys) :
    List.Forall₂ R t₁.values t₂.values ↔
      ∀ key v₁ v₂, t₁.find key = some v₁ → t₂.find key = some v₂ → R v₁ v₂ := by
  obtain ⟨entries₁, hnodup₁⟩ := t₁
  obtain ⟨entries₂, hnodup₂⟩ := t₂
  simp only [keys, values, find] at hkeys ⊢
  induction entries₁ generalizing entries₂ with
  | nil =>
    obtain rfl : entries₂ = [] := by simpa using hkeys.symm
    simp
  | cons entry₁ entries₁ ih =>
    cases entries₂ with
    | nil => simp at hkeys
    | cons entry₂ entries₂ =>
      obtain ⟨hhead, htail⟩ := List.cons.inj hkeys
      obtain ⟨hnew₁, hrest₁⟩ := List.nodup_cons.mp hnodup₁
      obtain ⟨hnew₂, hrest₂⟩ := List.nodup_cons.mp hnodup₂
      rw [List.map_cons, List.map_cons, List.forall₂_cons, ih hrest₁ entries₂ hrest₂ htail]
      constructor
      · rintro ⟨hR, hall⟩ key v₁ v₂ h₁ h₂
        by_cases hkey : key = entry₁.1
        · rw [lookup_cons_eq, if_pos hkey, Option.some.injEq] at h₁
          rw [lookup_cons_eq, if_pos (hkey.trans hhead), Option.some.injEq] at h₂
          rw [← h₁, ← h₂]
          exact hR
        · refine hall key v₁ v₂ ?_ ?_
          · simpa [lookup_cons_eq, hkey] using h₁
          · simpa [lookup_cons_eq, hkey, ← hhead] using h₂
      · intro hall
        refine ⟨hall entry₁.1 _ _ (by simp [lookup_cons_eq]) (by simp [lookup_cons_eq, hhead]), ?_⟩
        intro key v₁ v₂ h₁ h₂
        have hkey : key ≠ entry₁.1 := by
          rintro rfl
          rw [lookup_eq_none_iff.mpr hnew₁] at h₁
          simp at h₁
        refine hall key v₁ v₂ ?_ ?_
        · simpa [lookup_cons_eq, hkey] using h₁
        · simpa [lookup_cons_eq, hkey, ← hhead] using h₂

/-- The updates one after the other. -/
def ofUpdates (updates : List (κ × ν)) : OrderedTable κ ν :=
  updates.foldl (fun t entry => t.update entry.1 entry.2) empty

def firstKeys (keys : List κ) : List κ :=
  keys.foldl (fun known key => if key ∈ known then known else known ++ [key]) []

theorem keys_foldl_update (updates : List (κ × ν)) (t : OrderedTable κ ν) :
    (updates.foldl (fun t entry => t.update entry.1 entry.2) t).keys =
      (updates.map Prod.fst).foldl (fun known key => if key ∈ known then known else known ++ [key])
        t.keys := by
  induction updates generalizing t with
  | nil => rfl
  | cons entry updates ih =>
    rw [List.foldl_cons, ih, keys_update]
    rfl

/-- A table has its keys in the order of their first update. -/
theorem keys_ofUpdates (updates : List (κ × ν)) :
    (ofUpdates updates).keys = firstKeys (updates.map Prod.fst) :=
  keys_foldl_update updates empty

theorem find_foldl_update_const (h : ∀ entry ∈ updates, entry.2 = f entry.1) (t : OrderedTable κ ν)
    (key : κ) :
    (updates.foldl (fun t entry => t.update entry.1 entry.2) t).find key =
      if key ∈ updates.map Prod.fst then some (f key) else t.find key := by
  induction updates generalizing t with
  | nil => simp
  | cons entry updates ih =>
    rw [List.foldl_cons, ih fun e he => h e (List.mem_cons_of_mem _ he), find_update]
    by_cases hrest : key ∈ updates.map Prod.fst
    · simp [if_pos hrest, List.mem_cons_of_mem _ hrest]
    · by_cases hkey : key = entry.1
      · simp [hkey, h entry List.mem_cons_self]
      · rw [if_neg hrest, if_neg hkey, if_neg]
        simp only [List.map_cons, List.mem_cons, not_or]
        exact ⟨hkey, hrest⟩

theorem find_ofUpdates_const (h : ∀ entry ∈ updates, entry.2 = f entry.1) (key : κ) :
    (ofUpdates updates).find key = if key ∈ updates.map Prod.fst then some (f key) else none := by
  rw [ofUpdates, find_foldl_update_const h, find_empty]

theorem mem_foldl_firstKeys (keys known : List κ) (key : κ) :
    key ∈ keys.foldl (fun known key => if key ∈ known then known else known ++ [key]) known ↔
      key ∈ known ∨ key ∈ keys := by
  induction keys generalizing known with
  | nil => simp
  | cons head keys ih =>
    rw [List.foldl_cons, ih, List.mem_cons]
    by_cases h : head ∈ known
    · rw [if_pos h]
      constructor
      · rintro (hk | hk)
        · exact .inl hk
        · exact .inr (.inr hk)
      · rintro (hk | rfl | hk)
        · exact .inl hk
        · exact .inl h
        · exact .inr hk
    · rw [if_neg h, List.mem_append, List.mem_singleton, or_assoc]

@[simp] theorem mem_firstKeys {keys : List κ} {key : κ} : key ∈ firstKeys keys ↔ key ∈ keys := by
  rw [firstKeys, mem_foldl_firstKeys]
  simp

theorem values_ofUpdates_const (h : ∀ entry ∈ updates, entry.2 = f entry.1) :
    (ofUpdates updates).values = (firstKeys (updates.map Prod.fst)).map f := by
  rw [← keys_ofUpdates]
  refine values_eq_map fun key hkey => ?_
  rw [keys_ofUpdates, mem_firstKeys] at hkey
  rw [find_ofUpdates_const h, if_pos hkey]

theorem firstKeys_nodup (keys : List κ) : (firstKeys keys).Nodup := by
  have h := keys_ofUpdates (keys.map fun key => (key, ()))
  rw [List.map_map, Function.comp_def, List.map_id'] at h
  rw [← h]
  exact keys_nodup _

end OrderedTable
end ScyllaDriver
