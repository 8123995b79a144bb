import Mathlib.Logic.Basic

/-!
# Loops that end by themselves

A C loop `for (;;)` leaves by `break` or `return`. Its body either goes on
with new variables or stops with a result (`Round`). `run` executes the loop
for a bounded number of rounds, so it computes; `Ends` says what the loop
does, without a bound. Where a measure falls in every round, enough rounds
make the two the same.
-/

namespace ScyllaDriver
namespace Loop

universe u v

/-- How one execution of the loop body ends. -/
inductive Round (σ : Type u) (α : Type v)
  | next (s : σ)
  | stop (a : α)
  deriving DecidableEq, Repr

variable {σ : Type u} {α : Type v}

def run (body : σ → Round σ α) : Nat → σ → Option α
  | 0, _ => none
  | rounds + 1, s =>
    match body s with
    | .next s' => run body rounds s'
    | .stop a => some a

/-- The states in which the rounds start. -/
def visited (body : σ → Round σ α) : Nat → σ → List σ
  | 0, _ => []
  | rounds + 1, s =>
    s :: match body s with
      | .next s' => visited body rounds s'
      | .stop _ => []

/-- The loop started in `s` stops with `a`. -/
inductive Ends (body : σ → Round σ α) : σ → α → Prop
  | stop {s : σ} {a : α} :
      body s = .stop a → Ends body s a
  | next {s s' : σ} {a : α} :
      body s = .next s' → Ends body s' a → Ends body s a

variable {body : σ → Round σ α}

theorem ends_stop_iff {s : σ} {a b : α} (h : body s = .stop b) : Ends body s a ↔ b = a := by
  constructor
  · intro hends
    cases hends with
    | stop h' =>
      rw [h] at h'
      cases h'
      rfl
    | next h' _ =>
      rw [h] at h'
      cases h'
  · rintro rfl
    exact .stop h

theorem ends_next_iff {s s' : σ} {a : α} (h : body s = .next s') :
    Ends body s a ↔ Ends body s' a := by
  constructor
  · intro hends
    cases hends with
    | stop h' =>
      rw [h] at h'
      cases h'
    | next h' hrest =>
      rw [h] at h'
      cases h'
      exact hrest
  · exact .next h

theorem ends_congr {s t : σ} {a : α} (h : body s = body t) : Ends body s a ↔ Ends body t a := by
  cases hbody : body t with
  | next t' =>
    rw [ends_next_iff (h.trans hbody), ends_next_iff hbody]
  | stop b =>
    rw [ends_stop_iff (h.trans hbody), ends_stop_iff hbody]

theorem ends_of_run {rounds : Nat} {s : σ} {a : α} (h : run body rounds s = some a) :
    Ends body s a := by
  induction rounds generalizing s with
  | zero =>
    cases h
  | succ rounds ih =>
    unfold run at h
    split at h
    · next s' hbody =>
        exact .next hbody (ih h)
    · next b hbody =>
        cases h
        exact .stop hbody

/-- A measure that falls as long as the loop goes on bounds its rounds. -/
theorem exists_run {kept : σ → Prop} (measure : σ → Nat)
    (hstep : ∀ s s', kept s → body s = .next s' →
      kept s' ∧ measure s' < measure s) {rounds : Nat} {s : σ} (hkept : kept s)
    (hrounds : measure s < rounds) : ∃ a, run body rounds s = some a := by
  induction rounds generalizing s with
  | zero =>
    exact absurd hrounds (Nat.not_lt_zero _)
  | succ rounds ih =>
    unfold run
    split
    · next s' hbody =>
        obtain ⟨hkept', hlt⟩ := hstep s s' hkept hbody
        exact ih hkept' (by omega)
    · next a _ =>
        exact ⟨a, rfl⟩

theorem Ends.last {kept : σ → Prop} (hnext : ∀ s s', kept s → body s = .next s' → kept s')
    {s : σ} {a : α} (h : Ends body s a) (hkept : kept s) : ∃ t, kept t ∧ body t = .stop a := by
  induction h with
  | stop hbody => exact ⟨_, hkept, hbody⟩
  | next hbody _ ih => exact ih (hnext _ _ hkept hbody)

theorem Ends.invariant {kept : σ → Prop} {result : α → Prop}
    (hnext : ∀ s s', kept s → body s = .next s' → kept s')
    (hstop : ∀ s a, kept s → body s = .stop a → result a) {s : σ} {a : α} (h : Ends body s a)
    (hkept : kept s) : result a := by
  obtain ⟨t, ht, hbody⟩ := h.last hnext hkept
  exact hstop t a ht hbody

theorem kept_of_mem_visited {kept : σ → Prop}
    (hnext : ∀ s s', kept s → body s = .next s' → kept s') {rounds : Nat} {s t : σ} (hs : kept s)
    (ht : t ∈ visited body rounds s) : kept t := by
  induction rounds generalizing s with
  | zero => cases ht
  | succ rounds ih =>
    rw [visited] at ht
    obtain rfl | ht := List.mem_cons.mp ht
    · exact hs
    · split at ht
      · next s' hbody => exact ih (hnext s s' hs hbody) ht
      · cases ht

/-- A round that leads past a point of no return happens once at most. -/
theorem countP_visited_le_one {kept : σ → Prop} {rare : σ → Bool} (after : σ → Bool)
    (hnext : ∀ s s', kept s → body s = .next s' → kept s')
    (hbefore : ∀ s, rare s = true → after s = false)
    (hafter : ∀ s s', kept s → body s = .next s' → rare s = true ∨ after s = true →
      after s' = true) {s : σ} (hs : kept s) (rounds : Nat) :
    (visited body rounds s).countP rare ≤ 1 := by
  suffices h : (visited body rounds s).countP rare ≤ if after s then 0 else 1 from
    Nat.le_trans h (by split <;> omega)
  induction rounds generalizing s with
  | zero => simp [visited]
  | succ rounds ih =>
    have hnot := hbefore s
    rw [visited, List.countP_cons]
    split
    · next s' hbody =>
        have hrest := ih (hnext s s' hs hbody)
        have hlater := hafter s s' hs hbody
        grind
    · grind

theorem Ends.unique {s : σ} {a b : α} (ha : Ends body s a) (hb : Ends body s b) : a = b := by
  induction ha with
  | stop h =>
    exact (ends_stop_iff h).mp hb
  | next h _ ih =>
    exact ih ((ends_next_iff h).mp hb)

/-- With enough rounds the bounded loop is the loop. -/
theorem run_eq_some_iff {kept : σ → Prop} (measure : σ → Nat)
    (hstep : ∀ s s', kept s → body s = .next s' →
      kept s' ∧ measure s' < measure s) {rounds : Nat} {s : σ} {a : α} (hkept : kept s)
    (hrounds : measure s < rounds) : run body rounds s = some a ↔ Ends body s a := by
  constructor
  · exact ends_of_run
  · intro hends
    obtain ⟨b, hb⟩ := exists_run measure hstep hkept hrounds
    rw [hb, hends.unique (ends_of_run hb)]

end Loop
end ScyllaDriver
