import Mathlib.Data.List.Basic
import Mathlib.Data.List.Forall2
import Mathlib.Tactic

/-!
# Codes that can be read off from the front

A text made by writing code words one after the other determines the words, if
no word can be taken for another one at the front of a text. `Separable enc R`
says so for pairs of values related by `R`; the relation leaves out pairs whose
words are never in each other's place, and values that must not occur.

Words closed by a mark that does not occur inside are separable. Sequences of
separable words are separable when both follow one pattern; sequences of any
length can be told apart at the end of the text.
-/

namespace ScyllaDriver
namespace PrefixCode

variable {α ε : Type}

/-- Of related values, the word at the front of a text tells which it is and
where it ends. -/
def Separable (enc : α → List ε) (R : α → α → Prop) : Prop :=
  ∀ a b, R a b → ∀ r s, enc a ++ r = enc b ++ s → a = b ∧ r = s

theorem append_mark_inj {mark : ε} {a b r s : List ε} (ha : mark ∉ a) (hb : mark ∉ b)
    (h : a ++ mark :: r = b ++ mark :: s) : a = b ∧ r = s := by
  induction a generalizing b with
  | nil =>
    cases b with
    | nil =>
      exact ⟨rfl, (List.cons.inj h).2⟩
    | cons y b =>
      have hy : mark = y := (List.cons.inj h).1
      exact absurd (hy ▸ List.mem_cons_self) hb
  | cons x a ih =>
    cases b with
    | nil =>
      have hx : x = mark := (List.cons.inj h).1
      exact absurd (hx ▸ List.mem_cons_self) ha
    | cons y b =>
      obtain ⟨hhead, htail⟩ := List.cons.inj h
      obtain ⟨hword, hrest⟩ := ih (fun hx => ha (List.mem_cons_of_mem x hx))
        (fun hy => hb (List.mem_cons_of_mem y hy)) htail
      exact ⟨by rw [hhead, hword], hrest⟩

theorem Separable.flatMap {enc : α → List ε} {R : α → α → Prop} (h : Separable enc R)
    {as bs : List α} (hpattern : List.Forall₂ R as bs) {r s : List ε}
    (htext : as.flatMap enc ++ r = bs.flatMap enc ++ s) : as = bs ∧ r = s := by
  induction hpattern with
  | nil =>
    exact ⟨rfl, htext⟩
  | cons hR _ ih =>
    rw [List.flatMap_cons, List.flatMap_cons, List.append_assoc, List.append_assoc] at htext
    obtain ⟨hhead, hrest⟩ := h _ _ hR _ _ htext
    obtain ⟨htail, hend⟩ := ih hrest
    exact ⟨by rw [hhead, htail], hend⟩

/-- Sequences of any length, up to the end of the text. -/
theorem Separable.flatMap_inj {enc : α → List ε} {R : α → α → Prop} (h : Separable enc R)
    {as bs : List α} (has : ∀ a ∈ as, enc a ≠ []) (hbs : ∀ b ∈ bs, enc b ≠ [])
    (hrelated : ∀ a ∈ as, ∀ b ∈ bs, R a b) (htext : as.flatMap enc = bs.flatMap enc) : as = bs := by
  induction as generalizing bs with
  | nil =>
    cases bs with
    | nil =>
      rfl
    | cons b bs =>
      have hempty := List.append_eq_nil_iff.mp htext.symm
      exact absurd hempty.1 (hbs b List.mem_cons_self)
  | cons a as ih =>
    cases bs with
    | nil =>
      have hempty := List.append_eq_nil_iff.mp htext
      exact absurd hempty.1 (has a List.mem_cons_self)
    | cons b bs =>
      obtain ⟨hhead, hrest⟩ := h a b (hrelated a List.mem_cons_self b List.mem_cons_self) _ _ htext
      have htail := ih (fun a' ha' => has a' (List.mem_cons_of_mem a ha'))
        (fun b' hb' => hbs b' (List.mem_cons_of_mem b hb'))
        (fun a' ha' b' hb' => hrelated a' (List.mem_cons_of_mem a ha') b'
          (List.mem_cons_of_mem b hb')) hrest
      rw [hhead, htail]

theorem eq_of_views_eq {β γ : Type} {f : α → β} {g : α → γ} {as bs : List α}
    (htell : ∀ a ∈ as, ∀ b ∈ bs, f a = f b → g a = g b → a = b) (hf : as.map f = bs.map f)
    (hg : as.map g = bs.map g) : as = bs := by
  induction as generalizing bs with
  | nil =>
    exact (List.map_eq_nil_iff.mp hf.symm).symm
  | cons a as ih =>
    cases bs with
    | nil => cases hf
    | cons b bs =>
      obtain ⟨hfa, hfs⟩ := List.cons.inj hf
      obtain ⟨hga, hgs⟩ := List.cons.inj hg
      have hhead := htell a List.mem_cons_self b List.mem_cons_self hfa hga
      have htail := ih (fun a' ha' b' hb' => htell a' (List.mem_cons_of_mem a ha') b'
        (List.mem_cons_of_mem b hb')) hfs hgs
      rw [hhead, htail]

end PrefixCode
end ScyllaDriver
