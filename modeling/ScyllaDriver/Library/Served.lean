import Mathlib.Data.List.Pairwise
import Mathlib.Tactic

/-!
# A line of which some have been served

`line` lists those who have come, the first one first, and `served` those who
have been served. They are served in order if nobody is served before somebody
who came earlier.
-/

namespace ScyllaDriver
namespace Served

variable {α : Type} [DecidableEq α]

/-- Those who are still in line. -/
def left (line served : List α) : List α :=
  line.filter (· ∉ served)

/-- Whoever came before one who was served has been served or is in `excused`. -/
def InOrder (line served excused : List α) : Prop :=
  line.Pairwise fun a b => b ∈ served → a ∈ served ∨ a ∈ excused

section

variable {line served excused : List α} {a b t : α}

theorem mem_left : a ∈ left line served ↔ a ∈ line ∧ a ∉ served := by
  simp [left]

theorem left_serve (line served ts : List α) :
    left line (ts ++ served) = (left line served).filter (· ∉ ts) := by
  rw [left, left, List.filter_filter]
  refine List.filter_congr fun a _ => ?_
  simp

theorem left_come (ht : t ∉ served) : left (line ++ [t]) served = left line served ++ [t] := by
  rw [left, left, List.filter_append, List.filter_cons_of_pos (by simpa using ht), List.filter_nil]

variable {first second : List α}

theorem sublist_of_left (hleft : left line served = first ++ second) (ha : a ∈ first)
    (hb : b ∈ second) : [a, b].Sublist line := by
  have hpair : [a, b].Sublist (first ++ second) :=
    (List.singleton_sublist.mpr ha).append (List.singleton_sublist.mpr hb)
  exact (hleft ▸ hpair).trans List.filter_sublist

theorem mem_first_of_sublist (hnodup : (left line served).Nodup)
    (hleft : left line served = first ++ second) (hb : b ∈ first) (hbefore : [a, b].Sublist line)
    (ha : a ∉ served) : a ∈ first := by
  have hmem : ∀ x ∈ [a, b], x ∉ served := by
    have hbleft : b ∈ left line served := hleft ▸ List.mem_append_left _ hb
    intro x hx
    rcases List.mem_pair.mp hx with rfl | rfl
    · exact ha
    · exact (mem_left.mp hbleft).2
  have hpair : [a, b].Sublist (first ++ second) := by
    rw [← hleft, left]
    have := hbefore.filter (· ∉ served)
    rwa [List.filter_eq_self.mpr (by simpa using hmem)] at this
  rw [hleft] at hnodup
  have hdisjoint := List.disjoint_of_nodup_append hnodup
  obtain ⟨u, v, huv, hu, hv⟩ := List.sublist_append_iff.mp hpair
  rcases u with - | ⟨x, u⟩
  · rw [List.nil_append] at huv
    exact absurd (hv.subset (huv ▸ List.mem_cons_of_mem _ List.mem_cons_self))
      (fun hsecond => hdisjoint hb hsecond)
  · obtain rfl : a = x := (List.cons.inj huv).1
    exact hu.subset List.mem_cons_self

omit [DecidableEq α] in
theorem InOrder.come (h : InOrder line served excused) (ht : t ∉ served) :
    InOrder (line ++ [t]) served excused := by
  refine List.pairwise_append.mpr ⟨h, List.pairwise_singleton _ _, ?_⟩
  intro a _ b hb hserved
  rw [List.mem_singleton.mp hb] at hserved
  exact absurd hserved ht

omit [DecidableEq α] in
theorem InOrder.excuse {excused' : List α} (h : InOrder line served excused)
    (hsub : ∀ a ∈ excused, a ∈ served ∨ a ∈ excused') : InOrder line served excused' :=
  h.imp fun hab hb => (hab hb).elim .inl (hsub _)

theorem InOrder.serve {ts : List α} (h : InOrder line served excused)
    (hnodup : (left line served).Nodup) (hleft : left line served = (first ++ ts) ++ second)
    (hfirst : ∀ a ∈ first, a ∈ excused) : InOrder line (ts ++ served) excused := by
  rw [InOrder, List.pairwise_iff_forall_sublist] at h ⊢
  intro a b hbefore hb
  by_cases ha : a ∈ served
  · exact .inl (List.mem_append_right _ ha)
  rcases List.mem_append.mp hb with hb | hb
  · have hmem := mem_first_of_sublist hnodup hleft (List.mem_append_right _ hb) hbefore ha
    rcases List.mem_append.mp hmem with hmem | hmem
    · exact .inr (hfirst a hmem)
    · exact .inl (List.mem_append_left _ hmem)
  · exact (h hbefore hb).imp_left (List.mem_append_right _)

/-- One in line is served in order exactly if everybody before is excused. -/
theorem inOrder_serve_iff (h : InOrder line served excused) (hnodup : (left line served).Nodup)
    (hleft : left line served = first ++ t :: second) :
    InOrder line (t :: served) excused ↔ ∀ a ∈ first, a ∈ excused := by
  constructor
  · intro hserved a ha
    rw [InOrder, List.pairwise_iff_forall_sublist] at hserved
    have hbefore := sublist_of_left hleft ha List.mem_cons_self
    have hnot : a ∉ t :: served := by
      have hmem : a ∈ left line served := hleft ▸ List.mem_append_left _ ha
      rw [hleft] at hnodup
      rw [List.mem_cons, not_or]
      refine ⟨?_, (mem_left.mp hmem).2⟩
      rintro rfl
      exact List.disjoint_of_nodup_append hnodup ha List.mem_cons_self
    exact (hserved hbefore List.mem_cons_self).resolve_left hnot
  · intro hfirst
    have hsplit : left line served = (first ++ [t]) ++ second := by simp [hleft]
    exact h.serve hnodup hsplit hfirst

end

end Served
end ScyllaDriver
