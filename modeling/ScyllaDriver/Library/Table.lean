import Mathlib.Tactic

/-!
# Tables of objects

A list as a table: an object is known by its number, objects are changed in
place and new ones come last. `Keeps R` compares two such tables: every object
of the first is in the second under its number, in a state that `R` allows
after the one it had.
-/

namespace ScyllaDriver
namespace Table

variable {α : Type}

/-- No object was lost, and each changed as `R` allows. -/
def Keeps (R : α → α → Prop) (l l' : List α) : Prop :=
  ∀ (i : Nat) (x : α), l[i]? = some x → ∃ x', l'[i]? = some x' ∧ R x x'

variable {R : α → α → Prop} {l l' l'' : List α} {i : Nat} {x y : α}

theorem getElem?_push (h : l[i]? = some x) (y : α) : (l ++ [y])[i]? = some x :=
  (List.getElem?_append_left (List.getElem?_eq_some_iff.mp h).1).trans h

theorem getElem?_push_self (l : List α) (x : α) : (l ++ [x])[l.length]? = some x :=
  List.getElem?_concat_length

theorem forall_of_getElem? {P : α → Prop} (h : l[i]? = some x) (hx : P x) :
    ∀ y, l[i]? = some y → P y := by
  intro y hy
  rw [← Option.some.inj (h.symm.trans hy)]
  exact hx

theorem Keeps.refl (hrefl : ∀ x, R x x) (l : List α) : Keeps R l l :=
  fun _ x hx => ⟨x, hx, hrefl x⟩

theorem Keeps.trans (htrans : ∀ x y z, R x y → R y z → R x z) (h : Keeps R l l')
    (h' : Keeps R l' l'') : Keeps R l l'' := by
  intro i x hx
  obtain ⟨x', hx', hR⟩ := h i x hx
  obtain ⟨x'', hx'', hR'⟩ := h' i x' hx'
  exact ⟨x'', hx'', htrans _ _ _ hR hR'⟩

theorem Keeps.push (h : Keeps R l l') (y : α) : Keeps R l (l' ++ [y]) := by
  intro i x hx
  obtain ⟨x', hx', hR⟩ := h i x hx
  exact ⟨x', getElem?_push hx' y, hR⟩

theorem Keeps.set (hrefl : ∀ x, R x x) (h : l[i]? = some x) (hR : R x y) :
    Keeps R l (l.set i y) := by
  intro j z hz
  by_cases hij : i = j
  · subst hij
    obtain rfl : x = z := Option.some.inj (h.symm.trans hz)
    exact ⟨y, List.getElem?_set_self (List.getElem?_eq_some_iff.mp h).1, hR⟩
  · exact ⟨z, (List.getElem?_set_ne hij).trans hz, hrefl z⟩

theorem Keeps.modify (hrefl : ∀ x, R x x) {change : α → α} (hR : ∀ x, R x (change x)) (i : Nat)
    (l : List α) : Keeps R l (l.modify i change) := by
  intro j z hz
  rw [List.getElem?_modify, hz]
  by_cases hij : i = j
  · exact ⟨change z, by simp [hij], hR z⟩
  · exact ⟨z, by simp [hij], hrefl z⟩

theorem forall_mem_push {P : α → Prop} (h : ∀ z ∈ l, P z) (hx : P x) : ∀ z ∈ l ++ [x], P z := by
  intro z hz
  rcases List.mem_append.mp hz with hz | hz
  · exact h z hz
  · exact List.mem_singleton.mp hz ▸ hx

theorem forall_mem_set {P : α → Prop} (h : ∀ z ∈ l, P z) (hx : P x) : ∀ z ∈ l.set i x, P z := by
  intro z hz
  rcases List.mem_or_eq_of_mem_set hz with hz | rfl
  · exact h z hz
  · exact hx

end Table
end ScyllaDriver
