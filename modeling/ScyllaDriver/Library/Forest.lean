import Mathlib.Data.List.Basic

/-!
# Ordered forests, by first child and next sibling

A `Forest` is the chain of siblings a node pointer leads to: null, or a node
with its label, its first child and its next sibling. This is the shape of a
C tree node with two pointers, so functions that walk such nodes are
recursions on it.
-/

namespace ScyllaDriver

universe u v

inductive Forest (α : Type u)
  | nil
  | cons (label : α) (children siblings : Forest α)
  deriving DecidableEq, Repr

namespace Forest

variable {α : Type u} {β : Type v}

def isNil : Forest α → Bool
  | .nil => true
  | .cons _ _ _ => false

@[simp] theorem isNil_nil : (Forest.nil : Forest α).isNil = true :=
  rfl

@[simp] theorem isNil_cons (label : α) (children siblings : Forest α) :
    (Forest.cons label children siblings).isNil = false :=
  rfl

def map (f : α → β) : Forest α → Forest β
  | .nil => .nil
  | .cons label children siblings =>
    .cons (f label) (children.map f) (siblings.map f)

@[simp] theorem isNil_map (f : α → β) (forest : Forest α) :
    (forest.map f).isNil = forest.isNil := by
  cases forest <;> rfl

theorem map_map {γ : Type*} (g : β → γ) (f : α → β) (forest : Forest α) :
    (forest.map f).map g = forest.map (g ∘ f) := by
  induction forest with
  | nil => rfl
  | cons label children siblings ihchildren ihsiblings =>
    simp [map, ihchildren, ihsiblings]

/-- Trees in front of a forest, in order. -/
def prepend : List (α × Forest α) → Forest α → Forest α
  | [], rest => rest
  | (label, children) :: trees, rest =>
    .cons label children (prepend trees rest)

/-- Every label of the forest. -/
def All (p : α → Prop) : Forest α → Prop
  | .nil => True
  | .cons label children siblings =>
    p label ∧ children.All p ∧ siblings.All p

theorem All.imp {p q : α → Prop} (himp : ∀ label, p label → q label) {forest : Forest α}
    (h : forest.All p) : forest.All q := by
  induction forest with
  | nil => trivial
  | cons label children siblings ihchildren ihsiblings =>
    exact ⟨himp label h.1, ihchildren h.2.1, ihsiblings h.2.2⟩

@[simp] theorem prepend_append (trees : List (α × Forest α)) (label : α)
    (children rest : Forest α) :
    prepend (trees ++ [(label, children)]) rest = prepend trees (.cons label children rest) := by
  induction trees with
  | nil =>
    rfl
  | cons tree trees ih =>
    simp [prepend, ih]

theorem map_prepend (f : α → β) (trees : List (α × Forest α)) (rest : Forest α) :
    (prepend trees rest).map f =
      prepend (trees.map fun tree => (f tree.1, tree.2.map f)) (rest.map f) := by
  induction trees with
  | nil =>
    rfl
  | cons tree trees ih =>
    simp [prepend, map, ih]

theorem exists_last {forest : Forest α} (hne : forest ≠ .nil) :
    ∃ trees label children, forest = prepend trees (.cons label children .nil) := by
  induction forest with
  | nil => exact absurd rfl hne
  | cons label children siblings _ ih =>
    by_cases hsiblings : siblings = .nil
    · subst hsiblings
      exact ⟨[], label, children, rfl⟩
    · obtain ⟨trees, label', children', rfl⟩ := ih hsiblings
      exact ⟨(label, children) :: trees, label', children', rfl⟩

theorem all_map {p : β → Prop} (f : α → β) (forest : Forest α) :
    (forest.map f).All p ↔ forest.All fun label => p (f label) := by
  induction forest with
  | nil => rfl
  | cons label children siblings ihchildren ihsiblings =>
    simp only [map, All, ihchildren, ihsiblings]

end Forest
end ScyllaDriver
