import Mathlib.Data.Set.Prod
import Mathlib.Tactic

/-!
# Three-way comparators

A comparator returns an `Ordering`, the sign of a C comparison function.
`TotalPreorderOn cmp s` says that it orders the elements of `s`: it is
reflexive and transitive there, and swapping the arguments swaps the result.

Comparators of records and lists are built from others by `Ordering.then`:
compare one part, and the next part only where the first ones agree. The
rules below follow that construction. The second comparator of a chain need
only be an order among elements that agree in the first.
-/

namespace ScyllaDriver
namespace Comparator

variable {α β : Type}

/-- The comparator orders the elements of the set. -/
structure TotalPreorderOn (cmp : α → α → Ordering) (s : Set α) : Prop where
  refl : ∀ a ∈ s, cmp a a = .eq
  swap : ∀ a ∈ s, ∀ b ∈ s, cmp b a = (cmp a b).swap
  trans : ∀ a ∈ s, ∀ b ∈ s, ∀ c ∈ s, cmp a b ≠ .gt → cmp b c ≠ .gt → cmp a c ≠ .gt

namespace TotalPreorderOn

variable {cmp cmp' : α → α → Ordering} {s t : Set α}

theorem mono (h : TotalPreorderOn cmp s) (hsub : t ⊆ s) : TotalPreorderOn cmp t where
  refl a ha := h.refl a (hsub ha)
  swap a ha b hb := h.swap a (hsub ha) b (hsub hb)
  trans a ha b hb c hc := h.trans a (hsub ha) b (hsub hb) c (hsub hc)

theorem congr (h : TotalPreorderOn cmp s) (hsame : ∀ a ∈ s, ∀ b ∈ s, cmp' a b = cmp a b) :
    TotalPreorderOn cmp' s where
  refl a ha := by rw [hsame a ha a ha, h.refl a ha]
  swap a ha b hb := by rw [hsame b hb a ha, hsame a ha b hb, h.swap a ha b hb]
  trans a ha b hb c hc := by
    rw [hsame a ha b hb, hsame b hb c hc, hsame a ha c hc]
    exact h.trans a ha b hb c hc

theorem transfer {cmpβ : β → β → Ordering} {u : Set β} (h : TotalPreorderOn cmpβ u)
    (R : α → β → Prop) (hrelated : ∀ a ∈ s, ∃ b ∈ u, R a b)
    (hcmp : ∀ a b a' b', R a b → R a' b' → cmp a a' = cmpβ b b') :
    TotalPreorderOn cmp s where
  refl a ha := by
    obtain ⟨x, hx, hax⟩ := hrelated a ha
    rw [hcmp a x a x hax hax, h.refl x hx]
  swap a ha b hb := by
    obtain ⟨x, hx, hax⟩ := hrelated a ha
    obtain ⟨y, hy, hby⟩ := hrelated b hb
    rw [hcmp b y a x hby hax, hcmp a x b y hax hby, h.swap x hx y hy]
  trans a ha b hb c hc := by
    obtain ⟨x, hx, hax⟩ := hrelated a ha
    obtain ⟨y, hy, hby⟩ := hrelated b hb
    obtain ⟨z, hz, hcz⟩ := hrelated c hc
    rw [hcmp a x b y hax hby, hcmp b y c z hby hcz, hcmp a x c z hax hcz]
    exact h.trans x hx y hy z hz

theorem comap {cmpβ : β → β → Ordering} {u : Set β} (h : TotalPreorderOn cmpβ u) (f : α → β)
    (hf : ∀ a ∈ s, f a ∈ u) : TotalPreorderOn (fun a b => cmpβ (f a) (f b)) s := by
  refine h.transfer (fun a b => b = f a) (fun a ha => ⟨f a, hf a ha, rfl⟩) ?_
  rintro a _ a' _ rfl rfl
  rfl

theorem of_image (f : β → α) {u : Set β} (h : TotalPreorderOn (fun x y => cmp (f x) (f y)) u)
    (hs : s ⊆ Set.image f u) : TotalPreorderOn cmp s := by
  refine h.transfer (fun a b => f b = a) hs ?_
  rintro _ b _ b' rfl rfl
  rfl

theorem of_ord [Ord α] [Std.TransOrd α] (s : Set α) :
    TotalPreorderOn (fun a b : α => compare a b) s where
  refl a _ := Std.ReflCmp.compare_self
  swap a _ b _ := Std.OrientedCmp.eq_swap
  trans a _ b _ c _ hab hbc := by
    rw [Ne, ← Ordering.isLE_iff_ne_gt] at *
    exact Std.TransCmp.isLE_trans hab hbc

theorem of_key [Ord β] [Std.TransOrd β] (key : α → β) (s : Set α) :
    TotalPreorderOn (fun a b => compare (key a) (key b)) s :=
  (of_ord Set.univ).comap key fun a _ => Set.mem_univ (key a)

theorem eq_symm (h : TotalPreorderOn cmp s) {a b : α} (ha : a ∈ s) (hb : b ∈ s)
    (hab : cmp a b = .eq) : cmp b a = .eq := by
  rw [h.swap a ha b hb, hab]
  rfl

theorem congr_left (h : TotalPreorderOn cmp s) {a b c : α} (ha : a ∈ s) (hb : b ∈ s) (hc : c ∈ s)
    (hab : cmp a b = .eq) : cmp a c = cmp b c := by
  have hba := h.eq_symm ha hb hab
  have hle : ∀ x ∈ s, ∀ y ∈ s, cmp x y = .eq → cmp y c ≠ .gt → cmp x c ≠ .gt :=
    fun x hx y hy hxy => h.trans x hx y hy c hc (by simp [hxy])
  have hge : ∀ x ∈ s, ∀ y ∈ s, cmp x y = .eq → cmp c x ≠ .gt → cmp c y ≠ .gt :=
    fun x hx y hy hxy hcx => h.trans c hc x hx y hy hcx (by simp [hxy])
  have h₁ := hle a ha b hb hab
  have h₂ := hle b hb a ha hba
  have h₃ := hge a ha b hb hab
  have h₄ := hge b hb a ha hba
  rw [h.swap a ha c hc, h.swap b hb c hc] at h₃ h₄
  generalize cmp a c = o₁ at *
  generalize cmp b c = o₂ at *
  cases o₁ <;> cases o₂ <;> simp_all [Ordering.swap]

theorem lt_of_lt_of_le (h : TotalPreorderOn cmp s) {a b c : α} (ha : a ∈ s) (hb : b ∈ s)
    (hc : c ∈ s) (hab : cmp a b = .lt) (hbc : cmp b c ≠ .gt) : cmp a c = .lt := by
  have hle := h.trans a ha b hb c hc (by simp [hab]) hbc
  cases hac : cmp a c with
  | lt => rfl
  | gt => exact absurd hac hle
  | eq =>
    -- then `c` is below `a`, so `b` is, against `a` below `b`
    have hca := h.eq_symm ha hc hac
    have hba := h.trans b hb c hc a ha hbc (by simp [hca])
    rw [h.swap a ha b hb, hab] at hba
    simp at hba

/-- Compare by one comparator, and by another where the first one agrees. -/
theorem andThen {cmp₁ cmp₂ : α → α → Ordering} (h₁ : TotalPreorderOn cmp₁ s)
    (h₂ : ∀ a ∈ s, TotalPreorderOn cmp₂ {b | b ∈ s ∧ cmp₁ a b = .eq}) :
    TotalPreorderOn (fun a b => (cmp₁ a b).then (cmp₂ a b)) s where
  refl a ha := by
    have hclass : a ∈ {b | b ∈ s ∧ cmp₁ a b = .eq} := ⟨ha, h₁.refl a ha⟩
    simp [h₁.refl a ha, (h₂ a ha).refl a hclass]
  swap a ha b hb := by
    cases hab : cmp₁ a b with
    | lt | gt => simp [h₁.swap a ha b hb, hab]
    | eq =>
      have hswap := (h₂ a ha).swap a ⟨ha, h₁.refl a ha⟩ b ⟨hb, hab⟩
      simp [h₁.swap a ha b hb, hab, hswap]
  trans a ha b hb c hc hab hbc := by
    cases hab₁ : cmp₁ a b with
    | gt => simp [hab₁] at hab
    | lt =>
      have hbc₁ : cmp₁ b c ≠ .gt := by
        intro hgt
        simp [hgt] at hbc
      simp [h₁.lt_of_lt_of_le ha hb hc hab₁ hbc₁]
    | eq =>
      have hac₁ : cmp₁ a c = cmp₁ b c := h₁.congr_left ha hb hc hab₁
      cases hbc₁ : cmp₁ b c with
      | gt => simp [hbc₁] at hbc
      | lt => simp [hac₁, hbc₁]
      | eq =>
        rw [hbc₁] at hac₁
        simp only [hab₁, hbc₁, hac₁, Ordering.then] at hab hbc ⊢
        exact (h₂ a ha).trans a ⟨ha, h₁.refl a ha⟩ b ⟨hb, hab₁⟩ c ⟨hc, hac₁⟩ hab hbc

end TotalPreorderOn

/-- The results of comparing `a` with `b`, `b` with `c` and `a` with `c` are those of
an order: whichever of the three stands between the other two. -/
def Consistent (ab bc ac : Ordering) : Prop :=
  (ab.isLE → bc.isLE → ac.isLE) ∧ (bc.swap.isLE → ab.swap.isLE → ac.swap.isLE) ∧
    (ab.swap.isLE → ac.isLE → bc.isLE) ∧ (ac.swap.isLE → ab.isLE → bc.swap.isLE) ∧
    (ac.isLE → bc.swap.isLE → ab.isLE) ∧ (bc.isLE → ac.swap.isLE → ab.swap.isLE)

instance (ab bc ac : Ordering) : Decidable (Consistent ab bc ac) :=
  inferInstanceAs (Decidable (_ ∧ _))

theorem Consistent.rotate {ab bc ac : Ordering} (h : Consistent bc ac.swap ab.swap) :
    Consistent ab bc ac := by
  revert ab bc ac
  decide

theorem Consistent.rotateBack {ab bc ac : Ordering} (h : Consistent ac.swap ab bc.swap) :
    Consistent ab bc ac := by
  revert ab bc ac
  decide

theorem Consistent.of_ord [Ord α] [Std.TransOrd α] (a b c : α) :
    Consistent (compare a b) (compare b c) (compare a c) := by
  have hswap : ∀ x y : α, (compare x y).swap = compare y x := fun x y =>
    Std.OrientedCmp.eq_swap.symm
  unfold Consistent
  simp only [hswap]
  exact ⟨Std.TransCmp.isLE_trans, Std.TransCmp.isLE_trans, Std.TransCmp.isLE_trans,
    Std.TransCmp.isLE_trans, Std.TransCmp.isLE_trans, Std.TransCmp.isLE_trans⟩

/-- In a chain the last parts matter only where all three agree in the first. -/
theorem Consistent.andThen {ab bc ac ab' bc' ac' : Ordering} (h : Consistent ab bc ac)
    (h' : ab = .eq → bc = .eq → ac = .eq → Consistent ab' bc' ac') :
    Consistent (ab.then ab') (bc.then bc') (ac.then ac') := by
  revert ab bc ac ab' bc' ac'
  decide

/-- A comparator that swaps is an order if every three results are consistent. -/
theorem TotalPreorderOn.of_consistent {cmp : α → α → Ordering} {s : Set α}
    (hrefl : ∀ a ∈ s, cmp a a = .eq) (hswap : ∀ a ∈ s, ∀ b ∈ s, cmp b a = (cmp a b).swap)
    (h : ∀ a ∈ s, ∀ b ∈ s, ∀ c ∈ s, Consistent (cmp a b) (cmp b c) (cmp a c)) :
    TotalPreorderOn cmp s where
  refl := hrefl
  swap := hswap
  trans a ha b hb c hc hab hbc := by
    rw [Ne, ← Ordering.isLE_iff_ne_gt] at *
    exact (h a ha b hb c hc).1 hab hbc

theorem then_congr {o a b : Ordering} (h : o = .eq → a = b) : o.then a = o.then b := by
  cases o with
  | lt => rfl
  | gt => rfl
  | eq => exact h rfl

/-- Compare position by position until one of the lists ends. -/
def compareLists (cmp : α → α → Ordering) : List α → List α → Ordering
  | a :: as, b :: bs => (cmp a b).then (compareLists cmp as bs)
  | _, _ => .eq

/-- The lists of the given length over the set. -/
def listsOver (s : Set α) (n : Nat) : Set (List α) :=
  {l | l.length = n ∧ ∀ a ∈ l, a ∈ s}

theorem listsOver_succ_subset (s : Set α) (n : Nat) :
    listsOver s (n + 1) ⊆ Set.image (fun p : α × List α => p.1 :: p.2) (s ×ˢ listsOver s n) := by
  rintro l ⟨hlen, hmem⟩
  cases l with
  | nil => simp at hlen
  | cons a l =>
    refine ⟨(a, l), ⟨hmem a List.mem_cons_self, Nat.succ.inj hlen, ?_⟩, rfl⟩
    exact fun b hb => hmem b (List.mem_cons_of_mem a hb)

theorem TotalPreorderOn.compareLists {cmp : α → α → Ordering} {s : Set α}
    (h : TotalPreorderOn cmp s) (n : Nat) : TotalPreorderOn (compareLists cmp) (listsOver s n) := by
  induction n with
  | zero =>
    have hnil : ∀ l ∈ listsOver s 0, l = [] := fun l hl =>
      List.length_eq_zero_iff.mp hl.1
    constructor
    · intro a ha
      simp [hnil a ha, Comparator.compareLists]
    · intro a ha b hb
      simp [hnil a ha, hnil b hb, Comparator.compareLists]
    · intro a ha b hb c hc
      simp [hnil a ha, hnil b hb, hnil c hc, Comparator.compareLists]
  | succ n ih =>
    have hhead : TotalPreorderOn (fun p q : α × List α => cmp p.1 q.1)
        (s ×ˢ listsOver s n) := h.comap Prod.fst fun p hp => hp.1
    have htail : TotalPreorderOn (fun p q : α × List α => Comparator.compareLists cmp p.2 q.2)
        (s ×ˢ listsOver s n) := ih.comap Prod.snd fun p hp => hp.2
    refine of_image (fun p : α × List α => p.1 :: p.2) ?_ (listsOver_succ_subset s n)
    exact hhead.andThen fun p _ => htail.mono fun q hq => hq.1

end Comparator
end ScyllaDriver
