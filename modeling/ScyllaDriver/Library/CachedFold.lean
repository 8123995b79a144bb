import Mathlib.Logic.Relation
import Mathlib.Tactic

/-!
# A cached attribute of the nodes of a graph

A node has members in an order: leaves, and other nodes. Its attribute is a fold
over the attributes of its members, at all depths. A node may have its attribute
in a cache; a visit takes a cached attribute as it is, and caches what it has
computed.

The graph is ranked: a member that is a node has a lower rank. Both functions
go down at most as many levels as they are told, and one more than the rank of
the node is enough.
-/

namespace ScyllaDriver
namespace CachedFold

variable {ν β α : Type} [DecidableEq ν]

/-- Members that are nodes have a lower rank. -/
def Ranked (members : ν → List (β ⊕ ν)) (rank : ν → Nat) : Prop :=
  ∀ n m, .inr m ∈ members n → rank m < rank n

/-- A node leads to another one over members. -/
def Reaches (members : ν → List (β ⊕ ν)) : ν → ν → Prop :=
  Relation.ReflTransGen fun n m => .inr m ∈ members n

section

variable (leaf : β → α) (combine : α → α → α) (zero : α)

/-- The attribute from the members at all depths. -/
def total (members : ν → List (β ⊕ ν)) : Nat → ν → α
  | 0, _ => zero
  | depth + 1, n =>
    (members n).foldl (fun a m => combine a (m.elim leaf (total members depth))) zero

/-- The attribute with the help of a cache, and the cache afterwards. -/
def visit (members : ν → List (β ⊕ ν)) : Nat → ν → (ν → Option α) → α × (ν → Option α)
  | 0, _, cache => (zero, cache)
  | depth + 1, n, cache =>
    match cache n with
    | some a => (a, cache)
    | none =>
      let folded := (members n).foldl
        (fun found m =>
          match m with
          | .inl b => (combine found.1 (leaf b), found.2)
          | .inr k =>
            let below := visit members depth k found.2
            (combine found.1 below.1, below.2))
        (zero, cache)
      (folded.1, Function.update folded.2 n (some folded.1))

end

section

variable {leaf : β → α} {combine : α → α → α} {zero : α}
  {members members' : ν → List (β ⊕ ν)} {rank : ν → Nat} {cache : ν → Option α}
  {n : ν} {depth : Nat}

omit [DecidableEq ν] in
/-- Two graphs that agree on all nodes a node leads to give it one attribute. -/
theorem total_congr (hagree : ∀ m, Reaches members n m → members' m = members m) (depth : Nat) :
    total leaf combine zero members' depth n = total leaf combine zero members depth n := by
  induction depth generalizing n with
  | zero => rfl
  | succ depth ih =>
    rw [total, total, hagree n .refl]
    refine List.foldl_ext _ _ _ fun a m hm => ?_
    cases m with
    | inl b => rfl
    | inr k =>
      rw [Sum.elim_inr, Sum.elim_inr, ih fun m hreach => hagree m (.head hm hreach)]

omit [DecidableEq ν] in
theorem total_eq_of_lt (hranked : Ranked members rank) {depth' : Nat} (hdepth : rank n < depth)
    (hdepth' : rank n < depth') :
    total leaf combine zero members depth n = total leaf combine zero members depth' n := by
  induction depth generalizing n depth' with
  | zero => omega
  | succ depth ih =>
    cases depth' with
    | zero => omega
    | succ depth' =>
      rw [total, total]
      refine List.foldl_ext _ _ _ fun a m hm => ?_
      cases m with
      | inl b => rfl
      | inr k =>
        have hlower := hranked n k hm
        have hk : total leaf combine zero members depth k =
            total leaf combine zero members depth' k := ih (by omega) (by omega)
        rw [Sum.elim_inr, Sum.elim_inr, hk]

/-- Every cached attribute is the one computed from the members. -/
def Right (leaf : β → α) (combine : α → α → α) (zero : α) (members : ν → List (β ⊕ ν))
    (rank : ν → Nat) (cache : ν → Option α) : Prop :=
  ∀ n a, cache n = some a → a = total leaf combine zero members (rank n + 1) n

theorem Right.update (hright : Right leaf combine zero members rank cache) {a : α}
    (ha : a = total leaf combine zero members (rank n + 1) n) :
    Right leaf combine zero members rank (Function.update cache n (some a)) := by
  intro m b hm
  by_cases hmn : m = n
  · subst hmn
    rw [Function.update_self] at hm
    rw [← Option.some.inj hm, ha]
  · rw [Function.update_of_ne hmn] at hm
    exact hright m b hm

theorem foldl_visit {ms : List (β ⊕ ν)}
    (hvisit : ∀ k cache, .inr k ∈ ms → Right leaf combine zero members rank cache →
      (visit leaf combine zero members depth k cache).1 = total leaf combine zero members depth k ∧
        Right leaf combine zero members rank (visit leaf combine zero members depth k cache).2)
    (a : α) (hright : Right leaf combine zero members rank cache) :
    let folded := ms.foldl
      (fun found m =>
        match m with
        | .inl b => (combine found.1 (leaf b), found.2)
        | .inr k =>
          let below := visit leaf combine zero members depth k found.2
          (combine found.1 below.1, below.2))
      (a, cache)
    folded.1 =
        ms.foldl (fun a m => combine a (m.elim leaf (total leaf combine zero members depth))) a ∧
      Right leaf combine zero members rank folded.2 := by
  induction ms generalizing a cache with
  | nil => exact ⟨rfl, hright⟩
  | cons m ms ih =>
    have hrest := fun k cache hk => hvisit k cache (List.mem_cons_of_mem m hk)
    cases m with
    | inl b => exact ih hrest (combine a (leaf b)) hright
    | inr k =>
      obtain ⟨hvalue, hkept⟩ := hvisit k cache List.mem_cons_self hright
      have hloop := ih hrest (combine a (total leaf combine zero members depth k)) hkept
      rw [List.foldl_cons, List.foldl_cons]
      dsimp only [Sum.elim_inr]
      rw [hvalue]
      exact hloop

/-- With a right cache a visit computes the attribute and leaves the cache right. -/
theorem visit_spec (hranked : Ranked members rank) (hdepth : rank n < depth)
    (hright : Right leaf combine zero members rank cache) :
    (visit leaf combine zero members depth n cache).1 = total leaf combine zero members depth n ∧
      Right leaf combine zero members rank (visit leaf combine zero members depth n cache).2 := by
  induction depth generalizing n cache with
  | zero => omega
  | succ depth ih =>
    rw [visit]
    cases hcache : cache n with
    | some a =>
      refine ⟨?_, hright⟩
      rw [hright n a hcache]
      exact total_eq_of_lt hranked (Nat.lt_succ_self _) hdepth
    | none =>
      have hvisit : ∀ k cache, .inr k ∈ members n →
          Right leaf combine zero members rank cache →
          (visit leaf combine zero members depth k cache).1 =
              total leaf combine zero members depth k ∧
            Right leaf combine zero members rank
              (visit leaf combine zero members depth k cache).2 := by
        intro k cache hk hright
        have hlower := hranked n k hk
        exact ih (by omega) hright
      obtain ⟨hvalue, hkept⟩ := foldl_visit hvisit zero hright
      refine ⟨hvalue, hkept.update ?_⟩
      rw [hvalue]
      exact total_eq_of_lt hranked hdepth (Nat.lt_succ_self _)

end

end CachedFold
end ScyllaDriver
