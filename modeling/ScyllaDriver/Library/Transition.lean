import Mathlib.Logic.Relation
import Mathlib.Tactic

/-!
# Runs of an event-driven machine

A machine is a partial function `step` from a state and an event to the next
state; `none` means that the event cannot happen in the state. `Reachable`
collects the states of the runs whose events all satisfy a side condition on
the state they meet, and `exec` plays a fixed list of such events. For one run,
`Throughout` says that all of its states have a property and `EachStep` that all
of its events meet a condition.
-/

namespace ScyllaDriver
namespace Transition

variable {σ ε : Type}

/-- States of the runs from `init` in which every event was admissible in the
state it met. -/
inductive Reachable
    (step : σ → ε → Option σ)
    (admissible : σ → ε → Prop)
    (init : σ) : σ → Prop
  | init : Reachable step admissible init init
  | step {s s' : σ} {e : ε} :
      Reachable step admissible init s →
      admissible s e →
      step s e = some s' →
      Reachable step admissible init s'

variable {step : σ → ε → Option σ} {admissible : σ → ε → Prop} {init : σ}

/-- What holds at the start and is kept by every admissible step holds in
every reachable state. -/
theorem Reachable.invariant {Inv : σ → Prop} (hinit : Inv init)
    (hstep : ∀ s e s', Inv s → admissible s e → step s e = some s' → Inv s') {s : σ}
    (hreach : Reachable step admissible init s) : Inv s := by
  induction hreach with
  | init => exact hinit
  | step _ hadm hnext ih => exact hstep _ _ _ ih hadm hnext

theorem Reachable.trans {s₁ s₂ : σ} (hfirst : Reachable step admissible init s₁)
    (hsecond : Reachable step admissible s₁ s₂) : Reachable step admissible init s₂ := by
  induction hsecond with
  | init => exact hfirst
  | step _ hadm hnext ih => exact ih.step hadm hnext

def exec (step : σ → ε → Option σ) (admissible : σ → ε → Prop) [∀ s e, Decidable (admissible s e)] :
    σ → List ε → Option σ
  | s, [] => some s
  | s, e :: events =>
    if admissible s e then
      (step s e).bind fun s' => exec step admissible s' events
    else
      none

theorem Reachable.of_exec [∀ s e, Decidable (admissible s e)] {s : σ} {events : List ε}
    (h : exec step admissible init events = some s) : Reachable step admissible init s := by
  induction events generalizing init with
  | nil =>
    cases h
    exact .init
  | cons e events ih =>
    simp only [exec] at h
    split_ifs at h with hadm
    obtain ⟨s₁, hnext, hrest⟩ := Option.bind_eq_some_iff.mp h
    exact (Reachable.init.step hadm hnext).trans (ih hrest)

/-- Every state of a run has a property. -/
def Throughout (step : σ → ε → Option σ) (P : σ → Prop) : σ → List ε → Prop
  | s, [] => P s
  | s, e :: events => P s ∧ ∀ s', step s e = some s' → Throughout step P s' events

/-- Every event of a run meets a condition in the state it finds. -/
def EachStep (step : σ → ε → Option σ) (Q : σ → ε → Prop) : σ → List ε → Prop
  | _, [] => True
  | s, e :: events =>
    ∀ s', step s e = some s' → Q s e ∧ EachStep step Q s' events

theorem Throughout.head {P : σ → Prop} {s : σ} {events : List ε} (h : Throughout step P s events) :
    P s := by
  cases events with
  | nil => exact h
  | cons e events => exact h.1

theorem EachStep.mono {Q Q' : σ → ε → Prop} (hweaker : ∀ s e, Q s e → Q' s e) {s : σ}
    {events : List ε} (h : EachStep step Q s events) : EachStep step Q' s events := by
  induction events generalizing s with
  | nil => trivial
  | cons e events ih =>
    intro s' hnext
    exact ⟨hweaker s e (h s' hnext).1, ih (h s' hnext).2⟩

/-- What the steps that meet a condition keep holds throughout a run of them. -/
theorem EachStep.throughout (Inv : σ → Prop) {P : σ → Prop} {Q : σ → ε → Prop}
    (hstep : ∀ s e s', Inv s → Q s e → step s e = some s' → Inv s') (hP : ∀ s, Inv s → P s) {s : σ}
    (hs : Inv s) {events : List ε} (h : EachStep step Q s events) : Throughout step P s events := by
  induction events generalizing s with
  | nil => exact hP s hs
  | cons e events ih =>
    refine ⟨hP s hs, fun s' hnext => ?_⟩
    obtain ⟨hQ, hrest⟩ := h s' hnext
    exact ih (hstep s e s' hs hQ hnext) hrest

/-- If a step out of a state with the property leads to one exactly when it meets
the condition, a run keeps the property exactly when all its steps meet it. -/
theorem throughout_iff_eachStep (Inv : σ → Prop) {P : σ → Prop} {Q : σ → ε → Prop}
    (hinv : ∀ s e s', Inv s → step s e = some s' → Inv s')
    (hstep : ∀ s e s', Inv s → P s → step s e = some s' → (P s' ↔ Q s e)) {s : σ} (hs : Inv s)
    (hP : P s) (events : List ε) : Throughout step P s events ↔ EachStep step Q s events := by
  induction events generalizing s with
  | nil => exact iff_of_true hP trivial
  | cons e events ih =>
    refine (and_iff_right hP).trans (forall_congr' fun s' => forall_congr' fun hnext => ?_)
    have hiff := hstep s e s' hs hP hnext
    constructor
    · intro h
      exact ⟨hiff.mp h.head, (ih (hinv s e s' hs hnext) h.head).mp h⟩
    · rintro ⟨hQ, h⟩
      exact (ih (hinv s e s' hs hnext) (hiff.mpr hQ)).mpr h

end Transition
end ScyllaDriver
