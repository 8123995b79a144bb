import ScyllaDriver.Library.OrderedTable
import ScyllaDriver.Library.Transition

/-!
# `awaitAll` of the event loop adapters

`Revolt::awaitAll` and `ReactorRevolt::awaitAll` queue one closure for each
future of an iterable and suspend the calling fiber; every closure awaits its
future and counts `$pending` down, and the one that reaches zero resumes the
caller. The two methods differ only in the `await` the closures call, which
here returns or throws as it likes.

The closures run while the caller does not. That is so after its `suspend()`,
but also while the iterable's own code has suspended the fiber, and after an
exception of the iterable has left `awaitAll`. In both cases the count may
reach zero although the caller is not waiting for it.
-/

namespace ScyllaDriver
namespace AwaitAll

open Transition

/-- What the iterable does when `foreach` asks it to go on. -/
inductive Answer (κ : Type) where
  | yields (key : κ)
  /-- Its code suspends the fiber, which is resumed later. -/
  | suspends
  | ends
  | throws
deriving DecidableEq

/-- An iterable, by its answers to the requests it gets. -/
abbrev Iterable (κ : Type) := Nat → Answer κ

inductive Parent (κ α ε : Type) where
  | iterating
  /-- Suspended by the iterable's code. -/
  | paused
  /-- In the `suspend()` of `awaitAll`. -/
  | suspended
  /-- Resumed from there, and not yet running. -/
  | scheduled
  | returned (results : OrderedTable κ α)
  | threw (failure : ε)
  /-- An exception of the iterable left `awaitAll`. -/
  | failed

/-- One call of `awaitAll`. -/
structure Call (κ α ε : Type) where
  parent : Parent κ α ε := .iterating
  /-- How often the iterable was asked to go on and did. -/
  asked : Nat := 0
  pending : Int := 0
  results : OrderedTable κ α := .empty
  errors : OrderedTable κ ε := .empty
  /-- The keys of the closures that have not settled. -/
  waiting : List κ := []
  /-- Auxiliary: how the `await` of every settled closure ended. -/
  settled : List (κ × Except ε α) := []
  /-- Auxiliary: what the caller did at every `resume()`, and the closures that
  had not settled then. -/
  resumes : List (Parent κ α ε × List κ) := []

variable {κ α ε : Type} [DecidableEq κ]

def Call.afterLoop (s : Call κ α ε) : Call κ α ε :=
  { s with parent := if s.pending = 0 then .returned .empty else .suspended }

/-- `foreach` asks for the next element. -/
def Call.ask (it : Iterable κ) (s : Call κ α ε) : Call κ α ε :=
  match it s.asked with
  | .yields key =>
    { s with
      asked := s.asked + 1
      pending := s.pending + 1
      waiting := s.waiting ++ [key] }
  | .suspends => { s with asked := s.asked + 1, parent := .paused }
  | .ends => s.afterLoop
  | .throws => { s with parent := .failed }

/-- `$parent->resume()`. A fiber that is not suspended is left alone, and a
paused iterable may go on at any time. -/
def Call.resume (s : Call κ α ε) : Call κ α ε :=
  { s with
    parent :=
      match s.parent with
      | .suspended => .scheduled
      | parent => parent
    resumes := (s.parent, s.waiting) :: s.resumes }

/-- The `finally` of a closure. -/
def Call.countDown (s : Call κ α ε) : Call κ α ε :=
  let s := { s with pending := s.pending - 1 }
  if s.pending = 0 then s.resume else s

/-- The `await` of a closure returns or throws. -/
def Call.settle (s : Call κ α ε) (key : κ) (outcome : Except ε α) : Call κ α ε :=
  { s with
    results :=
      match outcome with
      | .ok value => s.results.update key value
      | .error _ => s.results
    errors :=
      match outcome with
      | .ok _ => s.errors
      | .error failure => s.errors.update key failure
    waiting := s.waiting.erase key
    settled := (key, outcome) :: s.settled }.countDown

/-- The caller goes on after its `suspend()`. -/
def Call.finish (s : Call κ α ε) : Call κ α ε :=
  { s with
    parent :=
      match s.errors.values with
      | failure :: _ => .threw failure
      | [] => .returned s.results }

inductive Event (κ α ε : Type) where
  | ask
  /-- The fiber suspended by the iterable goes on. -/
  | wake
  | settle (key : κ) (outcome : Except ε α)
  | finish

def step (it : Iterable κ) (s : Call κ α ε) : Event κ α ε → Option (Call κ α ε)
  | .ask =>
    match s.parent with
    | .iterating => some (s.ask it)
    | _ => none
  | .wake =>
    match s.parent with
    | .paused => some { s with parent := .iterating }
    | _ => none
  | .settle key outcome =>
    match s.parent with
    | .iterating => none
    | _ => if key ∈ s.waiting then some (s.settle key outcome) else none
  | .finish =>
    match s.parent with
    | .scheduled => some s.finish
    | _ => none

/-- The iterable produced the key before it was asked so often. -/
def Iterable.Produced (it : Iterable κ) (asked : Nat) (key : κ) : Prop :=
  ∃ i < asked, it i = .yields key

/-- The caller is resumed once at most, from the `suspend()` of the call and with
nothing left to settle; the call returns a result for each key or throws one of
the failures. -/
structure Correct (it : Iterable κ) (s : Call κ α ε) : Prop where
  once : s.resumes.length ≤ 1
  inside : ∀ r ∈ s.resumes, r = (.suspended, [])
  returned : ∀ results, s.parent = .returned results →
    (∀ key, key ∈ results.keys ↔ it.Produced s.asked key) ∧
      ∀ key value, results.find key = some value → (key, .ok value) ∈ s.settled
  threw : ∀ failure, s.parent = .threw failure → ∃ key, (key, .error failure) ∈ s.settled

/-- Once it has produced a future, the iterable neither throws nor suspends the
fiber. -/
def Iterable.Quiet (it : Iterable κ) : Prop :=
  ∀ i j key, i < j → it i = .yields key → (∀ k < j, it k ≠ .ends ∧ it k ≠ .throws) →
    it j ≠ .throws ∧ it j ≠ .suspends

/-- What the caller's state says about the closures. -/
def Phase (s : Call κ α ε) : Prop :=
  match s.parent with
  | .iterating => s.settled = [] ∧ s.resumes = []
  | .paused | .failed => s.waiting = [] ∧ s.settled = [] ∧ s.resumes = []
  | .suspended => s.waiting ≠ [] ∧ s.resumes = []
  | .scheduled => s.waiting = [] ∧ s.resumes = [(.suspended, [])]
  | .returned results =>
    s.waiting = [] ∧ (s.resumes = [] ∨ s.resumes = [(.suspended, [])]) ∧
      (∀ key, key ∈ results.keys ↔ key ∈ s.settled.map Prod.fst) ∧
      ∀ key value, results.find key = some value → (key, .ok value) ∈ s.settled
  | .threw failure =>
    s.waiting = [] ∧ s.resumes = [(.suspended, [])] ∧ ∃ key, (key, .error failure) ∈ s.settled

/-- What every run with a quiet iterable keeps. -/
structure Kept (it : Iterable κ) (s : Call κ α ε) : Prop where
  goes : ∀ k < s.asked, it k ≠ .ends ∧ it k ≠ .throws
  pending : s.pending = s.waiting.length
  keys : ∀ key, it.Produced s.asked key ↔ key ∈ s.waiting ∨ key ∈ s.settled.map Prod.fst
  results : ∀ key value, s.results.find key = some value → (key, .ok value) ∈ s.settled
  errors : ∀ failure ∈ s.errors.values, ∃ key, (key, .error failure) ∈ s.settled
  stored : ∀ key ∈ s.settled.map Prod.fst, key ∈ s.results.keys ∨ s.errors.values ≠ []
  phase : Phase s

section

variable {it : Iterable κ} {s s' : Call κ α ε} {key : κ}

omit [DecidableEq κ] in
theorem produced_succ {asked : Nat} :
    it.Produced (asked + 1) key ↔ it.Produced asked key ∨ it asked = .yields key := by
  unfold Iterable.Produced
  constructor
  · rintro ⟨i, hi, hkey⟩
    obtain hi | rfl := Nat.lt_succ_iff_lt_or_eq.mp hi
    · exact .inl ⟨i, hi, hkey⟩
    · exact .inr hkey
  · rintro (⟨i, hi, hkey⟩ | hkey)
    · exact ⟨i, by omega, hkey⟩
    · exact ⟨_, by omega, hkey⟩

theorem Kept.goes_succ (h : Kept it s) (hends : it s.asked ≠ .ends)
    (hthrows : it s.asked ≠ .throws) :
    ∀ k < s.asked + 1, it k ≠ .ends ∧ it k ≠ .throws := by
  intro k hk
  obtain hk | rfl := Nat.lt_succ_iff_lt_or_eq.mp hk
  · exact h.goes k hk
  · exact ⟨hends, hthrows⟩

theorem Kept.waiting_nil (h : Kept it s) (hquiet : it.Quiet)
    (hloud : it s.asked = .throws ∨ it s.asked = .suspends) : s.waiting = [] := by
  refine List.eq_nil_iff_forall_not_mem.mpr fun key hkey => ?_
  obtain ⟨i, hi, hyields⟩ := (h.keys key).mpr (.inl hkey)
  obtain ⟨hthrows, hsuspends⟩ := hquiet i s.asked key hi hyields h.goes
  exact hloud.elim hthrows hsuspends

theorem Kept.ask (h : Kept it s) (hquiet : it.Quiet) (hparent : s.parent = .iterating) :
    Kept it (s.ask it) := by
  have hphase := h.phase
  simp only [Phase, hparent] at hphase
  unfold Call.ask
  split
  · next key hkey =>
      refine { h with goes := ?_, pending := ?_, keys := ?_, phase := ?_ }
      · exact h.goes_succ (by simp [hkey]) (by simp [hkey])
      · simp [h.pending]
      · intro other
        rw [produced_succ, h.keys, hkey]
        simp
        grind
      · simpa [Phase, hparent] using hphase
  · next hsuspends =>
      have hnil := h.waiting_nil hquiet (.inr hsuspends)
      refine { h with goes := ?_, keys := ?_, phase := ⟨hnil, hphase⟩ }
      · exact h.goes_succ (by simp [hsuspends]) (by simp [hsuspends])
      · intro key
        rw [produced_succ, h.keys, hsuspends]
        simp
  · refine { h with phase := ?_ }
    have hpending := h.pending
    unfold Call.afterLoop Phase
    split_ifs with hzero
    · have hnil : s.waiting = [] := List.length_eq_zero_iff.mp (by omega)
      simp [hnil, hphase]
    · have hne : s.waiting ≠ [] := fun hnil => hzero (by simp [hpending, hnil])
      exact ⟨hne, hphase.2⟩
  · next hthrows => exact { h with phase := ⟨h.waiting_nil hquiet (.inl hthrows), hphase⟩ }

theorem Kept.suspended (h : Kept it s) (hkey : key ∈ s.waiting) (hrunning : s.parent ≠ .iterating) :
    s.parent = .suspended ∧ s.resumes = [] := by
  have hne := List.ne_nil_of_mem hkey
  have hphase := h.phase
  unfold Phase at hphase
  split at hphase <;> simp_all

omit [DecidableEq κ] in
theorem countDown_eq (hpending : s.pending = s.waiting.length + 1) (hparent : s.parent = .suspended)
    (hresumes : s.resumes = []) :
    s.countDown = { s with
      pending := s.waiting.length
      parent := if s.waiting = [] then .scheduled else .suspended
      resumes := if s.waiting = [] then [(.suspended, [])] else [] } := by
  unfold Call.countDown
  simp only [hpending, add_sub_cancel_right, Int.natCast_eq_zero, List.length_eq_zero_iff]
  split_ifs with hnil
  · simp [Call.resume, hparent, hresumes, hnil]
  · cases s
    simp_all

theorem Kept.settle (h : Kept it s) (hkey : key ∈ s.waiting) (hrunning : s.parent ≠ .iterating)
    (outcome : Except ε α) : Kept it (s.settle key outcome) := by
  obtain ⟨hparent, hresumes⟩ := h.suspended hkey hrunning
  have hlength : s.pending = (s.waiting.erase key).length + 1 := by
    have := List.length_erase_add_one hkey
    rw [h.pending]
    omega
  have hkeys : ∀ other, it.Produced s.asked other ↔
      other ∈ s.waiting.erase key ∨ other = key ∨ other ∈ s.settled.map Prod.fst := by
    intro other
    rw [h.keys, ← or_assoc]
    refine or_congr_left ?_
    by_cases hother : other = key
    · simp [hother, hkey]
    · simp [hother]
  unfold Call.settle
  rw [countDown_eq (by exact hlength) (by exact hparent) (by exact hresumes)]
  constructor
  · exact h.goes
  · rfl
  · simpa using hkeys
  · intro other value hvalue
    cases outcome with
    | ok v =>
      dsimp only at hvalue
      rw [OrderedTable.find_update] at hvalue
      split_ifs at hvalue with hother
      · simp_all
      · exact List.mem_cons_of_mem _ (h.results other value hvalue)
    | error e => exact List.mem_cons_of_mem _ (h.results other value hvalue)
  · intro failure hfailure
    cases outcome with
    | ok v =>
      obtain ⟨other, hother⟩ := h.errors failure hfailure
      exact ⟨other, List.mem_cons_of_mem _ hother⟩
    | error e =>
      rcases OrderedTable.mem_values_update hfailure with rfl | hfailure
      · exact ⟨key, List.mem_cons_self⟩
      · obtain ⟨other, hother⟩ := h.errors failure hfailure
        exact ⟨other, List.mem_cons_of_mem _ hother⟩
  · intro other hother
    have hstored := h.stored other
    cases outcome with
    | ok v =>
      simp only [OrderedTable.keys_update]
      grind
    | error e =>
      have hfind : (s.errors.update key e).find key = some e := by
        rw [OrderedTable.find_update, if_pos rfl]
      exact .inr (List.ne_nil_of_mem (OrderedTable.mem_values_of_find hfind))
  · by_cases hnil : s.waiting.erase key = [] <;> simp [Phase, hnil]

theorem Kept.finish (h : Kept it s) (hparent : s.parent = .scheduled) : Kept it s.finish := by
  have hphase := h.phase
  simp only [Phase, hparent] at hphase
  refine { h with phase := ?_ }
  unfold Call.finish Phase
  cases hvalues : s.errors.values with
  | cons failure rest =>
    exact ⟨hphase.1, hphase.2, h.errors failure (by simp [hvalues])⟩
  | nil =>
    refine ⟨hphase.1, .inr hphase.2, fun key => ⟨fun hkey => ?_, fun hkey => ?_⟩, h.results⟩
    · obtain ⟨value, hvalue⟩ := Option.ne_none_iff_exists'.mp
        (mt OrderedTable.find_eq_none_iff.mp (not_not.mpr hkey))
      exact List.mem_map.mpr ⟨_, h.results key value hvalue, rfl⟩
    · exact (h.stored key hkey).resolve_right (by simp [hvalues])

theorem Kept.correct (h : Kept it s) : Correct it s := by
  have hphase := h.phase
  have hkeys := h.keys
  unfold Phase at hphase
  constructor
  · split at hphase <;> grind
  · split at hphase <;> grind
  · intro results hparent
    simp only [hparent] at hphase
    obtain ⟨hnil, -, hall, hfound⟩ := hphase
    refine ⟨fun key => ?_, hfound⟩
    rw [hall, hkeys, hnil]
    simp
  · intro failure hparent
    simp only [hparent] at hphase
    exact hphase.2.2

end

end AwaitAll
end ScyllaDriver
