import Mathlib.Tactic

/-!
# A finite map, from the history of its changes

A finite map up to an equality `same` of its keys, described by what was done to
it: keys were put, with a value, and dropped. `current` is the value of a key,
by the last event about a key that is the same; `firstInsertions` lists the keys
in the order in which they came in, each as it was put the first time since it
was last dropped.

`Tracks` says that a list of entries is the map of a history. Its rules give
the list after one more event.
-/

namespace ScyllaDriver
namespace MapHistory

inductive Event (κ ν : Type) where
  | put (key : κ) (value : ν)
  | drop (key : κ)

variable {κ ν : Type}

namespace Event

def key : Event κ ν → κ
  | .put key _ => key
  | .drop key => key

/-- The value a key has after the event. -/
def value? : Event κ ν → Option ν
  | .put _ value => some value
  | .drop _ => none

end Event

section

variable (same : κ → κ → Bool)

/-- The value of a key after a history. -/
def current (history : List (Event κ ν)) (key : κ) : Option ν :=
  (history.reverse.find? fun e => same e.key key).bind Event.value?

/-- The event leaves the key in the map. -/
def Event.spares (key : κ) : Event κ ν → Bool
  | .put _ _ => true
  | .drop dropped => !same dropped key

/-- The keys put by the later events that were not in the map then and were not
dropped since. -/
def firstInsertionsAfter (before : List (Event κ ν)) : List (Event κ ν) → List κ
  | [] => []
  | .put key value :: later =>
    if (current same before key).isNone && later.all (Event.spares same key) then
      key :: firstInsertionsAfter (before ++ [.put key value]) later
    else
      firstInsertionsAfter (before ++ [.put key value]) later
  | .drop key :: later => firstInsertionsAfter (before ++ [.drop key]) later

/-- The keys of the map in the order of their first insertion since they were
last dropped. -/
def firstInsertions (history : List (Event κ ν)) : List κ :=
  firstInsertionsAfter same [] history

end

section

variable {same : κ → κ → Bool}

@[simp] theorem current_nil (key : κ) : current same ([] : List (Event κ ν)) key = none :=
  rfl

theorem current_put (history : List (Event κ ν)) (k key : κ) (value : ν) :
    current same (history ++ [.put k value]) key =
      if same k key then some value else current same history key := by
  unfold current
  rw [List.reverse_append, List.reverse_singleton, List.singleton_append, List.find?_cons]
  simp only [Event.key]
  cases same k key <;> rfl

theorem current_drop (history : List (Event κ ν)) (k key : κ) :
    current same (history ++ [.drop k]) key =
      if same k key then none else current same history key := by
  unfold current
  rw [List.reverse_append, List.reverse_singleton, List.singleton_append, List.find?_cons]
  simp only [Event.key]
  cases same k key <;> rfl

theorem firstInsertionsAfter_put (before history : List (Event κ ν)) (key : κ) (value : ν) :
    firstInsertionsAfter same before (history ++ [.put key value]) =
      firstInsertionsAfter same before history ++
        if (current same (before ++ history) key).isNone then [key] else [] := by
  induction history generalizing before with
  | nil => simp [firstInsertionsAfter]
  | cons e history ih =>
    rw [List.append_cons before]
    cases e with
    | put k v =>
      simp only [List.cons_append, firstInsertionsAfter, ih, List.all_append, List.all_cons,
        List.all_nil, Event.spares, Bool.and_true]
      split_ifs <;> rfl
    | drop k => simp only [List.cons_append, firstInsertionsAfter, ih]

theorem firstInsertionsAfter_drop (before history : List (Event κ ν)) (key : κ) :
    firstInsertionsAfter same before (history ++ [.drop key]) =
      (firstInsertionsAfter same before history).filter fun k => !same key k := by
  induction history generalizing before with
  | nil => simp [firstInsertionsAfter]
  | cons e history ih =>
    cases e with
    | put k v =>
      simp only [List.cons_append, firstInsertionsAfter, ih, List.all_append, List.all_cons,
        List.all_nil, Event.spares, Bool.and_true]
      -- the key stays if it was in the list and is not the one dropped
      cases hsame : same key k with
      | false =>
        simp only [Bool.not_false, Bool.and_true]
        split_ifs
        · rw [List.filter_cons_of_pos (by simp [hsame])]
        · rfl
      | true =>
        simp only [Bool.not_true, Bool.and_false, Bool.false_eq_true, if_false]
        split_ifs
        · rw [List.filter_cons_of_neg (by simp [hsame])]
        · rfl
    | drop k => simp only [List.cons_append, firstInsertionsAfter, ih]

theorem firstInsertions_put (history : List (Event κ ν)) (key : κ) (value : ν) :
    firstInsertions same (history ++ [.put key value]) =
      firstInsertions same history ++ if (current same history key).isNone then [key] else [] :=
  firstInsertionsAfter_put [] history key value

theorem firstInsertions_drop (history : List (Event κ ν)) (key : κ) :
    firstInsertions same (history ++ [.drop key]) =
      (firstInsertions same history).filter fun k => !same key k :=
  firstInsertionsAfter_drop [] history key

end

/-- An equality of keys, on the keys that come up. -/
structure SameOn (same : κ → κ → Bool) (S : Set κ) : Prop where
  refl : ∀ a ∈ S, same a a
  symm : ∀ a ∈ S, ∀ b ∈ S, same a b → same b a
  trans : ∀ a ∈ S, ∀ b ∈ S, ∀ c ∈ S, same a b → same b c → same a c

/-- The entries are those of the map, in order of insertion. -/
structure Tracks (same : κ → κ → Bool) (S : Set κ) (entries : List (κ × ν))
    (history : List (Event κ ν)) : Prop where
  keys : entries.map Prod.fst = firstInsertions same history
  apart : entries.Pairwise fun p q => ¬ same p.1 q.1
  values : ∀ p ∈ entries, current same history p.1 = some p.2
  complete : ∀ key ∈ S, (current same history key).isSome → ∃ p ∈ entries, same p.1 key
  inside : ∀ p ∈ entries, p.1 ∈ S
  events : ∀ e ∈ history, e.key ∈ S

section

variable {same : κ → κ → Bool} {S : Set κ} {entries : List (κ × ν)}
variable {history : List (Event κ ν)} {key : κ} {value : ν}

theorem SameOn.comm (hsame : SameOn same S) {a b : κ} (ha : a ∈ S) (hb : b ∈ S) :
    same a b = same b a :=
  Bool.eq_iff_iff.mpr ⟨hsame.symm a ha b hb, hsame.symm b hb a ha⟩

theorem tracks_nil : Tracks same S ([] : List (κ × ν)) [] where
  keys := rfl
  apart := .nil
  values := fun _ hmem => (List.not_mem_nil hmem).elim
  complete := fun _ _ hsome => by simp at hsome
  inside := fun _ hmem => (List.not_mem_nil hmem).elim
  events := fun _ hmem => (List.not_mem_nil hmem).elim

theorem current_congr (hsame : SameOn same S) (hevents : ∀ e ∈ history, e.key ∈ S) {key' : κ}
    (hkey : key ∈ S) (hkey' : key' ∈ S) (h : same key key') :
    current same history key = current same history key' := by
  induction history using List.reverseRecOn with
  | nil => rfl
  | append_singleton history e ih =>
    have hin : e.key ∈ S := hevents e (by simp)
    have hrest := ih fun e' he' => hevents e' (List.mem_append_left _ he')
    have hboth : same e.key key = same e.key key' :=
      Bool.eq_iff_iff.mpr ⟨fun hk => hsame.trans _ hin _ hkey _ hkey' hk h,
        fun hk => hsame.trans _ hin _ hkey' _ hkey hk (hsame.symm _ hkey _ hkey' h)⟩
    cases e with
    | put k v =>
      rw [current_put, current_put, hrest]
      rw [show same k key = same k key' from hboth]
    | drop k =>
      rw [current_drop, current_drop, hrest]
      rw [show same k key = same k key' from hboth]

theorem Tracks.current_eq_some (hsame : SameOn same S) (h : Tracks same S entries history)
    {p : κ × ν} (hp : p ∈ entries) (hin : key ∈ S) (hkey : same p.1 key) :
    current same history key = some p.2 := by
  rw [← current_congr hsame h.events (h.inside p hp) hin hkey]
  exact h.values p hp

theorem Tracks.current_eq_none (h : Tracks same S entries history) (hin : key ∈ S)
    (hnone : ∀ p ∈ entries, ¬ same p.1 key) : current same history key = none := by
  cases hcurrent : current same history key with
  | none => rfl
  | some v =>
    obtain ⟨p, hp, hkey⟩ := h.complete key hin (by rw [hcurrent]; rfl)
    exact absurd hkey (hnone p hp)

theorem Tracks.events_snoc (h : Tracks same S entries history) {e : Event κ ν} (he : e.key ∈ S) :
    ∀ e' ∈ history ++ [e], e'.key ∈ S := by
  intro e' he'
  rcases List.mem_append.mp he' with he' | he'
  · exact h.events e' he'
  · rw [List.mem_singleton.mp he']
    exact he

theorem Tracks.put_new (hsame : SameOn same S) (h : Tracks same S entries history) (hin : key ∈ S)
    (hnone : ∀ p ∈ entries, ¬ same p.1 key) (value : ν) :
    Tracks same S (entries ++ [(key, value)]) (history ++ [.put key value]) where
  keys := by
    rw [List.map_append, h.keys, firstInsertions_put, h.current_eq_none hin hnone]
    rfl
  apart := by
    refine List.pairwise_append.mpr ⟨h.apart, List.pairwise_singleton _ _, ?_⟩
    intro p hp q hq
    rw [List.mem_singleton.mp hq]
    exact hnone p hp
  values := by
    intro p hp
    rw [current_put]
    rcases List.mem_append.mp hp with hp | hp
    · rw [if_neg fun hkey => hnone p hp (hsame.symm _ hin _ (h.inside p hp) hkey)]
      exact h.values p hp
    · obtain rfl := List.mem_singleton.mp hp
      rw [if_pos (hsame.refl key hin)]
  complete := by
    intro k hk hsome
    rw [current_put] at hsome
    by_cases hkey : same key k = true
    · exact ⟨(key, value), List.mem_append_right _ (List.mem_singleton.mpr rfl), hkey⟩
    · rw [if_neg hkey] at hsome
      obtain ⟨p, hp, hpk⟩ := h.complete k hk hsome
      exact ⟨p, List.mem_append_left _ hp, hpk⟩
  inside := by
    intro p hp
    rcases List.mem_append.mp hp with hp | hp
    · exact h.inside p hp
    · rw [List.mem_singleton.mp hp]
      exact hin
  events := h.events_snoc hin

def replaced (same : κ → κ → Bool) (key : κ) (value : ν) (p : κ × ν) : κ × ν :=
  if same p.1 key then (p.1, value) else p

theorem replaced_fst (p : κ × ν) : (replaced same key value p).1 = p.1 := by
  unfold replaced
  split <;> rfl

theorem Tracks.put_known (hsame : SameOn same S) (h : Tracks same S entries history) (hin : key ∈ S)
    {p : κ × ν} (hp : p ∈ entries) (hkey : same p.1 key) (value : ν) :
    Tracks same S (entries.map (replaced same key value)) (history ++ [.put key value]) where
  keys := by
    rw [firstInsertions_put, h.current_eq_some hsame hp hin hkey, List.map_map, ← h.keys]
    simp only [Option.isNone_some, Bool.false_eq_true, if_false, List.append_nil]
    exact List.map_congr_left fun q _ => replaced_fst q
  apart := by
    rw [List.pairwise_map]
    exact h.apart.imp fun hapart => by rwa [replaced_fst, replaced_fst]
  values := by
    intro q' hq'
    obtain ⟨q, hq, rfl⟩ := List.mem_map.mp hq'
    rw [current_put, replaced_fst, replaced, hsame.comm hin (h.inside q hq)]
    by_cases hqk : same q.1 key = true
    · rw [if_pos hqk, if_pos hqk]
    · rw [if_neg hqk, if_neg hqk]
      exact h.values q hq
  complete := by
    intro k hk hsome
    have hfound : ∃ q ∈ entries, same q.1 k := by
      rw [current_put] at hsome
      by_cases hkk : same key k = true
      · exact ⟨p, hp, hsame.trans _ (h.inside p hp) _ hin _ hk hkey hkk⟩
      · rw [if_neg hkk] at hsome
        exact h.complete k hk hsome
    obtain ⟨q, hq, hqk⟩ := hfound
    exact ⟨_, List.mem_map_of_mem hq, by rwa [replaced_fst]⟩
  inside := by
    intro q' hq'
    obtain ⟨q, hq, rfl⟩ := List.mem_map.mp hq'
    rw [replaced_fst]
    exact h.inside q hq
  events := h.events_snoc hin

theorem Tracks.drop (hsame : SameOn same S) (h : Tracks same S entries history) (key : κ)
    (hin : key ∈ S) :
    Tracks same S (entries.filter fun p => !same p.1 key) (history ++ [.drop key]) where
  keys := by
    rw [firstInsertions_drop, ← h.keys, List.filter_map]
    refine congrArg (List.map Prod.fst) (List.filter_congr fun p hp => ?_)
    exact congrArg not (hsame.comm (h.inside p hp) hin)
  apart := h.apart.filter _
  values := by
    intro p hp
    obtain ⟨hp, hkey⟩ := List.mem_filter.mp hp
    rw [current_drop, hsame.comm hin (h.inside p hp)]
    cases hpk : same p.1 key with
    | true =>
      rw [hpk] at hkey
      cases hkey
    | false => exact h.values p hp
  complete := by
    intro k hk hsome
    rw [current_drop] at hsome
    by_cases hkey : same key k = true
    · rw [if_pos hkey] at hsome
      cases hsome
    · rw [if_neg hkey] at hsome
      obtain ⟨p, hp, hpk⟩ := h.complete k hk hsome
      refine ⟨p, List.mem_filter.mpr ⟨hp, ?_⟩, hpk⟩
      rw [Bool.not_eq_true', Bool.eq_false_iff]
      intro hpkey
      have hinside := h.inside p hp
      exact hkey (hsame.trans _ hin _ hinside _ hk (hsame.symm _ hinside _ hin hpkey) hpk)
  inside := fun p hp => h.inside p (List.mem_filter.mp hp).1
  events := h.events_snoc hin

end

end MapHistory
end ScyllaDriver
