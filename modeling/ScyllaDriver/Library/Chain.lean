import Mathlib.Data.List.Basic
import Mathlib.Logic.Function.Basic
import Mathlib.Tactic

/-!
# Null-terminated chains of links

A singly linked list in memory is a function `next` that gives the link of
every cell, and a head pointer. `Chain next head cells` says that following
the links from `head` visits exactly `cells`, in this order, and ends at a
null link.

The lemmas are the ones an algorithm on such lists needs: writes outside the
list do not matter, the list is determined by its head, and one write at the
last cell joins two lists.
-/

namespace ScyllaDriver
namespace Linked

variable {α : Type}

/-- The cells met from a head pointer up to the null link. -/
def Chain (next : α → Option α) : Option α → List α → Prop
  | head, [] => head = none
  | head, a :: cells => head = some a ∧ Chain next (next a) cells

@[simp] theorem chain_nil (next : α → Option α) (head : Option α) :
    Chain next head [] ↔ head = none :=
  Iff.rfl

@[simp] theorem chain_cons (next : α → Option α) (head : Option α) (a : α) (cells : List α) :
    Chain next head (a :: cells) ↔ head = some a ∧ Chain next (next a) cells :=
  Iff.rfl

variable {cells : List α} {head : Option α} {next : α → Option α} {a : α}

theorem Chain.congr {next' : α → Option α} (hchain : Chain next head cells)
    (hsame : ∀ a ∈ cells, next' a = next a) : Chain next' head cells := by
  induction cells generalizing head with
  | nil =>
    exact hchain
  | cons a cells ih =>
    refine ⟨hchain.1, ?_⟩
    rw [hsame a (by simp)]
    exact ih hchain.2 (fun b hb => hsame b (by simp [hb]))

theorem Chain.update [DecidableEq α] (hchain : Chain next head cells) (ha : a ∉ cells)
    (link : Option α) : Chain (Function.update next a link) head cells := by
  refine hchain.congr ?_
  intro b hb
  have hne : b ≠ a := by
    rintro rfl
    exact ha hb
  rw [Function.update_of_ne hne]

theorem Chain.unique {cells' : List α} (hchain : Chain next head cells)
    (hchain' : Chain next head cells') : cells = cells' := by
  induction cells generalizing head cells' with
  | nil =>
    cases cells' with
    | nil => rfl
    | cons a rest =>
      rw [chain_nil] at hchain
      rw [chain_cons, hchain] at hchain'
      exact absurd hchain'.1 (by simp)
  | cons a cells ih =>
    cases cells' with
    | nil =>
      rw [chain_nil] at hchain'
      rw [chain_cons, hchain'] at hchain
      exact absurd hchain.1 (by simp)
    | cons b rest =>
      obtain ⟨hhead, hrest⟩ := hchain
      obtain ⟨hhead', hrest'⟩ := hchain'
      obtain rfl : a = b := Option.some.inj (hhead.symm.trans hhead')
      rw [ih hrest hrest']

theorem Chain.head_eq_none_iff (hchain : Chain next head cells) : head = none ↔ cells = [] := by
  cases cells with
  | nil => simpa using hchain
  | cons a cells => simp [hchain.1]

theorem Chain.exists_cons (hchain : Chain next (some a) cells) :
    ∃ rest, cells = a :: rest ∧ Chain next (next a) rest := by
  cases cells with
  | nil => simp at hchain
  | cons b rest =>
    obtain ⟨hhead, hrest⟩ := hchain
    cases hhead
    exact ⟨rest, rfl, hrest⟩

theorem Chain.next_eq_head {before after : List α}
    (hchain : Chain next head (before ++ a :: after)) : next a = after.head? := by
  induction before generalizing head with
  | nil =>
    cases after with
    | nil => exact hchain.2
    | cons b rest => exact hchain.2.1
  | cons c before ih =>
    exact ih hchain.2

/-- Writing the head of one chain into the last cell of another joins them. -/
theorem Chain.join [DecidableEq α] {link : Option α} {before : List α} {last : α}
    (hfirst : Chain next head (before ++ [last])) (hsecond : Chain next link cells)
    (hbefore : last ∉ before) (hcells : last ∉ cells) :
    Chain (Function.update next last link) head (before ++ last :: cells) := by
  induction before generalizing head with
  | nil =>
    refine ⟨hfirst.1, ?_⟩
    rw [Function.update_self]
    exact hsecond.update hcells link
  | cons b before ih =>
    have hne : b ≠ last := fun h => hbefore (by simp [h])
    refine ⟨hfirst.1, ?_⟩
    rw [Function.update_of_ne hne]
    exact ih hfirst.2 (fun h => hbefore (by simp [h]))

end Linked
end ScyllaDriver
