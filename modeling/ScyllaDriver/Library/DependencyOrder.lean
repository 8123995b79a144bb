import Mathlib.Data.Set.Finite.Basic
import Mathlib.Order.WellFounded
import Mathlib.Logic.Relation
import Mathlib.Data.Fintype.Order

/-!
# Orders that put needs first

`needs a b` says that `a` can come only after `b`. A list is in order if everything an
element needs stands before it. An order rules out cycles, and a finite set in which every
element needs another one has a cycle that each of its elements leads to.

One way to an order is to walk over a list again and again and to take every element that is
ready by then.
-/

namespace ScyllaDriver
namespace DependencyOrder

open Relation

variable {α : Type} {needs : α → α → Prop}

/-- The element is on a cycle, or needs one that is, by way of others. -/
def LeadsToCycle (needs : α → α → Prop) (a : α) : Prop :=
  ∃ b, ReflTransGen needs a b ∧ TransGen needs b b

/-- Everything that an element of the list needs stands before it. -/
def Ordered (needs : α → α → Prop) (l : List α) : Prop :=
  ∀ before a after, l = before ++ a :: after → ∀ b, needs a b → b ∈ before

/-- Whoever needs another element of a finite set, and so on for ever, leads to a cycle. -/
theorem leadsToCycle_of_forall_exists {s : Set α} (hfinite : s.Finite)
    (hnext : ∀ a ∈ s, ∃ b ∈ s, needs a b) {a : α} (ha : a ∈ s) : LeadsToCycle needs a := by
  by_contra hnone
  -- among the elements that `a` leads to, the chains of needs would have to end
  let t : Set α := {b | b ∈ s ∧ ReflTransGen needs a b}
  have hfinite' : Finite t := (hfinite.subset fun b hb => hb.1).to_subtype
  let below : t → t → Prop := fun b c => TransGen needs c.1 b.1
  have htrans : IsTrans t below := ⟨fun _ _ _ hab hbc => hbc.trans hab⟩
  have hirrefl : Std.Irrefl below := ⟨fun b hb => hnone ⟨b.1, b.2.2, hb⟩⟩
  obtain ⟨⟨b, hb, hreach⟩, -, hleast⟩ :=
    (Finite.wellFounded_of_trans_of_irrefl below).has_min Set.univ ⟨⟨a, ha, .refl⟩, trivial⟩
  obtain ⟨c, hc, hneeds⟩ := hnext b hb
  exact hleast ⟨c, hc, hreach.tail hneeds⟩ trivial (.single hneeds)

theorem Ordered.mem_of_transGen {l before after : List α} {a b : α} (hordered : Ordered needs l)
    (hl : l = before ++ a :: after) (h : TransGen needs a b) : b ∈ before := by
  induction h with
  | single hneeds => exact hordered before a after hl _ hneeds
  | tail _ hneeds ih =>
    obtain ⟨before', after', rfl⟩ := List.append_of_mem ih
    refine List.mem_append_left _ (hordered before' _ (after' ++ a :: after) ?_ _ hneeds)
    rw [hl, List.append_assoc, List.cons_append]

theorem Ordered.not_transGen_self {l : List α} {a : α} (hordered : Ordered needs l)
    (hnodup : l.Nodup) (ha : a ∈ l) : ¬ TransGen needs a a := by
  intro h
  obtain ⟨before, after, hl⟩ := List.append_of_mem ha
  have hmem := hordered.mem_of_transGen hl h
  rw [hl, List.nodup_append] at hnodup
  exact hnodup.2.2 a hmem a List.mem_cons_self rfl

section Walks

variable (ready : List α → α → Bool)

/-- The element joins those that were taken, if it is ready. -/
def take (taken : List α) (a : α) : List α :=
  if ready taken a then taken ++ [a] else taken

/-- What has been taken after some walks over the list. -/
def walks (l : List α) : Nat → List α
  | 0 => []
  | k + 1 => l.foldl (take ready) (walks l k)

theorem prefix_take (taken : List α) (a : α) : taken <+: take ready taken a := by
  unfold take
  split
  · exact List.prefix_append _ _
  · exact List.prefix_refl _

theorem prefix_foldl_take (l taken : List α) : taken <+: l.foldl (take ready) taken := by
  induction l generalizing taken with
  | nil => exact List.prefix_refl _
  | cons a l ih => exact (prefix_take ready taken a).trans (ih _)

theorem prefix_walks (l : List α) {j k : Nat} (h : j ≤ k) :
    walks ready l j <+: walks ready l k := by
  induction h with
  | refl => exact List.prefix_refl _
  | step _ ih => exact ih.trans (prefix_foldl_take ready l _)

theorem mem_foldl_take
    {l taken : List α}
    {a : α}
    (h : a ∈ l.foldl (take ready) taken) :
    a ∈ taken ∨ a ∈ l := by
  induction l generalizing taken with
  | nil => exact .inl h
  | cons b l ih =>
    rcases ih h with htaken | hl
    · unfold take at htaken
      split at htaken
      · simpa [or_assoc] using Or.inl (b := a ∈ l) (List.mem_append.mp htaken)
      · exact .inl htaken
    · exact .inr (.tail _ hl)

theorem mem_of_mem_walks {l : List α} {k : Nat} {a : α} (h : a ∈ walks ready l k) : a ∈ l := by
  induction k with
  | zero => cases h
  | succ k ih => exact (mem_foldl_take ready h).elim ih id

/-- A walk that takes nothing is followed by no other that does. -/
theorem walks_eq_of_succ_eq
    {l : List α}
    {j k : Nat}
    (h : walks ready l (j + 1) = walks ready l j)
    (hle : j ≤ k) :
    walks ready l k = walks ready l j := by
  induction hle with
  | refl => rfl
  | step _ ih => rw [walks, ih, ← walks, h]

end Walks

end DependencyOrder
end ScyllaDriver
