import ScyllaDriver.Library.Transition

/-!
# A cursor with a look-ahead over a list that changes

A cursor stands on one member of a list of distinct members and knows the member
that it will stand on next. Members may be removed and appended while it moves.
A removal moves the look-ahead on when it points at the removed member; nothing
is done for the member the cursor stands on.

The last part is about objects that contain such a cursor and change it by their
calls.
-/

namespace ScyllaDriver
namespace LookAhead

variable {α : Type} [DecidableEq α]

def successor : List α → α → Option α
  | [], _ => none
  | m :: rest, x => if m = x then rest.head? else successor rest x

structure Cursor (α : Type) where
  members : List α
  curr : Option α
  temp : Option α

inductive Change (α : Type)
  | rewind
  | next
  | remove (x : α)
  | append (x : α)

namespace Cursor

def rewind (c : Cursor α) : Cursor α :=
  { c with
    curr := c.members.head?
    temp := c.members.head?.bind (successor c.members) }

def next (c : Cursor α) : Cursor α :=
  { c with
    curr := c.temp
    temp := c.temp.bind (successor c.members) }

def remove (c : Cursor α) (x : α) : Cursor α :=
  { c with
    members := c.members.filter (· ≠ x)
    temp := if c.temp = some x then successor c.members x else c.temp }

def append (c : Cursor α) (x : α) : Cursor α :=
  { c with members := c.members ++ [x] }

def change (c : Cursor α) : Change α → Cursor α
  | .rewind => c.rewind
  | .next => c.next
  | .remove x => c.remove x
  | .append x => c.append x

/-- The references are null or members. -/
def Anchored (c : Cursor α) : Prop :=
  (∀ x, c.curr = some x → x ∈ c.members) ∧ ∀ x, c.temp = some x → x ∈ c.members

/-- The look-ahead is at the first member of a part of the list. -/
def Ahead (c : Cursor α) (passed rest : List α) : Prop :=
  c.members = passed ++ rest ∧ c.temp = rest.head?

/-- The members are distinct, and the look-ahead is at one of them. -/
structure Sound (c : Cursor α) : Prop where
  distinct : c.members.Nodup
  ahead : ∃ passed rest, c.Ahead passed rest

end Cursor

/-- A change is possible if a new member is appended. -/
def Change.Possible (c : Cursor α) : Change α → Prop
  | .append x => x ∉ c.members
  | _ => True

/-- A change does not remove the member the cursor stands on. -/
def Change.Keeps (c : Cursor α) : Change α → Prop
  | .remove x => c.curr ≠ some x
  | _ => True

section

variable {c : Cursor α} {passed rest : List α} {x : α}

theorem successor_append (hpassed : x ∉ passed) :
    successor (passed ++ x :: rest) x = rest.head? := by
  induction passed with
  | nil => simp [successor]
  | cons m passed ih =>
    rw [List.mem_cons, not_or] at hpassed
    rw [List.cons_append, successor, if_neg (Ne.symm hpassed.1), ih hpassed.2]

theorem filter_ne_of_not_mem {l : List α} (hx : x ∉ l) : l.filter (· ≠ x) = l := by
  rw [List.filter_eq_self]
  intro y hy
  simpa using fun h : y = x => hx (h ▸ hy)

theorem ahead_rewind_nil (hmembers : c.members = []) : c.rewind.Ahead [] [] := by
  simp [Cursor.Ahead, Cursor.rewind, hmembers]

theorem ahead_rewind_cons (hmembers : c.members = x :: rest) : c.rewind.Ahead [x] rest := by
  simp [Cursor.Ahead, Cursor.rewind, hmembers, successor]

theorem ahead_next_nil (h : c.Ahead passed []) : c.next.Ahead passed [] := by
  obtain ⟨hmembers, htemp⟩ := h
  simp [Cursor.Ahead, Cursor.next, hmembers, htemp]

theorem ahead_next_cons (hdistinct : c.members.Nodup) (h : c.Ahead passed (x :: rest)) :
    c.next.Ahead (passed ++ [x]) rest := by
  obtain ⟨hmembers, htemp⟩ := h
  rw [hmembers] at hdistinct
  have hpassed : x ∉ passed := fun hmem =>
    (List.nodup_append.mp hdistinct).2.2 x hmem x List.mem_cons_self rfl
  refine ⟨?_, ?_⟩
  · simp [Cursor.next, hmembers]
  · simp [Cursor.next, htemp, hmembers, successor_append hpassed]

theorem ahead_remove (hdistinct : c.members.Nodup) (h : c.Ahead passed rest) (x : α) :
    (c.remove x).Ahead (passed.filter (· ≠ x)) (rest.filter (· ≠ x)) := by
  obtain ⟨hmembers, htemp⟩ := h
  refine ⟨by simp only [Cursor.remove, hmembers, List.filter_append], ?_⟩
  rw [hmembers] at hdistinct
  cases rest with
  | nil =>
    simp [Cursor.remove, htemp]
  | cons y rest =>
    have hpassed : y ∉ passed := fun hmem =>
      (List.nodup_append.mp hdistinct).2.2 y hmem y List.mem_cons_self rfl
    have hrest : y ∉ rest := (List.nodup_cons.mp (List.nodup_append.mp hdistinct).2.1).1
    by_cases hxy : y = x
    · subst hxy
      rw [List.filter_cons_of_neg (by simp), filter_ne_of_not_mem hrest]
      simp [Cursor.remove, htemp, hmembers, successor_append hpassed]
    · rw [List.filter_cons_of_pos (by simpa using hxy)]
      simp [Cursor.remove, htemp, hxy]

omit [DecidableEq α] in
theorem ahead_append (h : c.Ahead passed rest) (x : α) :
    ∃ passed' rest', (c.append x).Ahead passed' rest' := by
  obtain ⟨hmembers, htemp⟩ := h
  cases rest with
  | nil => exact ⟨passed ++ [x], [], by simp [Cursor.append, hmembers], htemp⟩
  | cons y rest => exact ⟨passed, y :: rest ++ [x], by simp [Cursor.append, hmembers], htemp⟩

theorem Cursor.Sound.change (hsound : c.Sound) {e : Change α} (hpossible : e.Possible c) :
    (c.change e).Sound := by
  obtain ⟨hdistinct, passed, rest, hahead⟩ := hsound
  cases e with
  | rewind =>
    refine ⟨hdistinct, ?_⟩
    cases hmembers : c.members with
    | nil => exact ⟨_, _, ahead_rewind_nil hmembers⟩
    | cons m members => exact ⟨_, _, ahead_rewind_cons hmembers⟩
  | next =>
    refine ⟨hdistinct, ?_⟩
    cases rest with
    | nil => exact ⟨_, _, ahead_next_nil hahead⟩
    | cons m rest => exact ⟨_, _, ahead_next_cons hdistinct hahead⟩
  | remove x => exact ⟨hdistinct.filter _, _, _, ahead_remove hdistinct hahead x⟩
  | append x =>
    refine ⟨List.nodup_append.mpr ⟨hdistinct, List.nodup_singleton x, ?_⟩, ahead_append hahead x⟩
    intro y hy z hz
    rw [List.mem_singleton] at hz
    subst hz
    exact fun heq => hpossible (heq ▸ hy)

omit [DecidableEq α] in
theorem Cursor.Sound.temp_mem (hsound : c.Sound) (htemp : c.temp = some x) : x ∈ c.members := by
  obtain ⟨-, passed, rest, hmembers, hhead⟩ := hsound
  rw [hmembers]
  exact List.mem_append_right _ (List.mem_of_mem_head? (hhead ▸ htemp))

/-- Of the two references only the one to the visited member can be lost, and
only by its removal. -/
theorem anchored_change_iff (hsound : c.Sound) (hanchored : c.Anchored) {e : Change α}
    (hpossible : e.Possible c) : (c.change e).Anchored ↔ e.Keeps c := by
  have htemp : ∀ x, (c.change e).temp = some x → x ∈ (c.change e).members :=
    fun _ => (hsound.change hpossible).temp_mem
  cases e with
  | rewind =>
    refine iff_of_true ⟨?_, htemp⟩ trivial
    intro x hx
    exact List.mem_of_mem_head? hx
  | next => exact iff_of_true ⟨fun x hx => hsound.temp_mem hx, htemp⟩ trivial
  | append y =>
    refine iff_of_true ⟨?_, htemp⟩ trivial
    intro x hx
    exact List.mem_append_left _ (hanchored.1 x hx)
  | remove y =>
    constructor
    · rintro ⟨hcurr, -⟩ heq
      simpa [Cursor.change, Cursor.remove] using hcurr y heq
    · intro hkeeps
      refine ⟨?_, htemp⟩
      intro x hx
      refine List.mem_filter.mpr ⟨hanchored.1 x hx, ?_⟩
      simpa using fun heq : x = y => hkeeps (heq ▸ hx)

/-- A pass that began with `size` members has visited some of them in `steps`
moves of the cursor. -/
structure InPass (size : Nat) (c : Cursor α) (visited : List α) (steps : Nat) : Prop where
  distinct : c.members.Nodup
  once : visited.Nodup
  split : ∃ passed rest, c.Ahead passed rest ∧ (∀ x ∈ passed, x ∈ visited) ∧
    (∀ x ∈ rest, x ∉ visited) ∧
    (c.curr = none → rest = []) ∧
    (c.curr ≠ none → rest.length + steps < size)

variable {size steps : Nat} {visited : List α}

theorem inPass_rewind (hdistinct : c.members.Nodup) :
    InPass c.members.length c.rewind c.rewind.curr.toList 0 := by
  cases hmembers : c.members with
  | nil =>
    refine ⟨hdistinct, by simp [Cursor.rewind, hmembers], [], [], ahead_rewind_nil hmembers, ?_⟩
    simp [Cursor.rewind, hmembers]
  | cons m members =>
    rw [hmembers, List.nodup_cons] at hdistinct
    have hcurr : c.rewind.curr = some m := by simp [Cursor.rewind, hmembers]
    refine ⟨?_, ?_, [m], members, ahead_rewind_cons hmembers, ?_, ?_, ?_, ?_⟩
    · simpa [Cursor.rewind, hmembers] using hdistinct
    · simp [hcurr]
    · simp [hcurr]
    · intro x hx heq
      rw [hcurr, Option.toList_some, List.mem_singleton] at heq
      exact hdistinct.1 (heq ▸ hx)
    · simp [hcurr]
    · simp

theorem InPass.next (h : InPass size c visited steps) :
    InPass size c.next (visited ++ c.next.curr.toList) (steps + 1) := by
  obtain ⟨hdistinct, honce, passed, rest, hahead, hpassed, hrest, hnone, hsome⟩ := h
  cases rest with
  | nil =>
    have hcurr : c.next.curr = none := hahead.2
    refine ⟨hdistinct, ?_, passed, [], ahead_next_nil hahead, ?_, ?_, fun _ => rfl, ?_⟩
    · simpa [hcurr] using honce
    · simpa [hcurr] using hpassed
    · simp
    · simp [hcurr]
  | cons m rest =>
    have hcurr : c.next.curr = some m := hahead.2
    have hparts := hdistinct
    rw [hahead.1] at hparts
    have hm : m ∉ rest := (List.nodup_cons.mp (List.nodup_append.mp hparts).2.1).1
    have hnew : m ∉ visited := hrest m List.mem_cons_self
    have hlen : rest.length + 1 + steps < size :=
      hsome fun hcurr => List.cons_ne_nil m rest (hnone hcurr)
    refine ⟨hdistinct, ?_, passed ++ [m], rest, ahead_next_cons hdistinct hahead, ?_, ?_, ?_, ?_⟩
    · rw [hcurr, Option.toList_some]
      exact List.nodup_append.mpr ⟨honce, List.nodup_singleton m, by
        intro x hx y hy
        rw [List.mem_singleton.mp hy]
        exact fun heq => hnew (heq ▸ hx)⟩
    · intro x hx
      rw [hcurr, Option.toList_some]
      rcases List.mem_append.mp hx with hx | hx
      · exact List.mem_append_left _ (hpassed x hx)
      · exact List.mem_append_right _ hx
    · intro x hx
      rw [hcurr, Option.toList_some, List.mem_append, List.mem_singleton, not_or]
      exact ⟨hrest x (List.mem_cons_of_mem m hx), fun heq => hm (heq ▸ hx)⟩
    · simp [hcurr]
    · intro _
      omega

theorem InPass.remove (h : InPass size c visited steps) (x : α) :
    InPass size (c.remove x) visited steps := by
  obtain ⟨hdistinct, honce, passed, rest, hahead, hpassed, hrest, hnone, hsome⟩ := h
  refine ⟨hdistinct.filter _, honce, _, _, ahead_remove hdistinct hahead x, ?_, ?_, ?_, ?_⟩
  · exact fun y hy => hpassed y (List.mem_of_mem_filter hy)
  · exact fun y hy => hrest y (List.mem_of_mem_filter hy)
  · intro hcurr
    rw [hnone hcurr, List.filter_nil]
  · intro hcurr
    have hlen := List.length_filter_le (fun y => decide (y ≠ x)) rest
    have hbound := hsome hcurr
    omega

/-- When the cursor has run out every member has been visited, once. -/
theorem InPass.count_eq_one (h : InPass size c visited steps) (hend : c.curr = none)
    (hx : x ∈ c.members) : visited.count x = 1 := by
  obtain ⟨-, honce, passed, rest, ⟨hmembers, -⟩, hpassed, -, hnone, -⟩ := h
  rw [hmembers, hnone hend, List.append_nil] at hx
  exact List.count_eq_one_of_mem honce (hpassed x hx)

omit [DecidableEq α] in
theorem InPass.ends (h : InPass size c visited steps) (hsteps : size ≤ steps) : c.curr = none := by
  obtain ⟨-, -, passed, rest, -, -, -, -, hsome⟩ := h
  by_contra hcurr
  have hbound := hsome hcurr
  omega

end

section

variable {σ ε : Type}

/-- Each call `e` on an object `s` does `change s e` to its cursor. -/
structure Follows
    (after : σ → ε → σ)
    (cursor : σ → Cursor α)
    (change : σ → ε → Option (Change α))
    (Inv : σ → Prop) : Prop where
  kept : ∀ s e, Inv s → Inv (after s e)
  idle : ∀ s e, Inv s → change s e = none → cursor (after s e) = cursor s
  moves : ∀ s e d, Inv s → change s e = some d →
    cursor (after s e) = (cursor s).change d ∧ d.Possible (cursor s)

/-- The members visited by the calls that move the cursor on. -/
def visits (after : σ → ε → σ) (cursor : σ → Cursor α) (isNext : ε → Bool) : σ → List ε → List α
  | _, [] => []
  | s, e :: calls =>
    (if isNext e then (cursor (after s e)).curr.toList else []) ++
      visits after cursor isNext (after s e) calls

variable {after : σ → ε → σ} {cursor : σ → Cursor α} {change : σ → ε → Option (Change α)}
  {Inv : σ → Prop} {s : σ} {e : ε} {calls : List ε}

theorem Follows.sound_after (h : Follows after cursor change Inv) (hinv : Inv s)
    (hsound : (cursor s).Sound) : (cursor (after s e)).Sound := by
  cases hchange : change s e with
  | none => rwa [h.idle s e hinv hchange]
  | some d =>
    obtain ⟨hcursor, hpossible⟩ := h.moves s e d hinv hchange
    rw [hcursor]
    exact hsound.change hpossible

omit [DecidableEq α] in
theorem keeps_iff {c : Cursor α} {d : Change α} :
    d.Keeps c ↔ ∀ x, d = .remove x → c.curr ≠ some x := by
  cases d <;> simp [Change.Keeps]

theorem Follows.anchored_after_iff (h : Follows after cursor change Inv) (hinv : Inv s)
    (hsound : (cursor s).Sound) (hanchored : (cursor s).Anchored) :
    (cursor (after s e)).Anchored ↔
      ∀ x, change s e = some (.remove x) → (cursor s).curr ≠ some x := by
  cases hchange : change s e with
  | none =>
    rw [h.idle s e hinv hchange]
    exact iff_of_true hanchored fun _ hsome => nomatch hsome
  | some d =>
    obtain ⟨hcursor, hpossible⟩ := h.moves s e d hinv hchange
    rw [hcursor, anchored_change_iff hsound hanchored hpossible, keeps_iff]
    simp only [Option.some.injEq]

/-- Throughout a run the references are null or members if and only if no call
removes the member that is being visited. -/
theorem Follows.anchored_iff (h : Follows after cursor change Inv) (hinv : Inv s)
    (hsound : (cursor s).Sound) (hanchored : (cursor s).Anchored) (calls : List ε) :
    Transition.Throughout (fun s e => some (after s e)) (fun s => (cursor s).Anchored) s calls ↔
      Transition.EachStep (fun s e => some (after s e))
        (fun s e => ∀ x, change s e = some (.remove x) → (cursor s).curr ≠ some x) s calls := by
  refine Transition.throughout_iff_eachStep (fun s => Inv s ∧ (cursor s).Sound)
    ?_ ?_ ⟨hinv, hsound⟩ hanchored calls
  · rintro s e _ ⟨hinv, hsound⟩ ⟨⟩
    exact ⟨h.kept s e hinv, h.sound_after hinv hsound⟩
  · rintro s e _ ⟨hinv, hsound⟩ hanchored ⟨⟩
    exact h.anchored_after_iff hinv hsound hanchored

theorem Follows.invariant (h : Follows after cursor change Inv) (hinv : Inv s)
    (hsound : (cursor s).Sound) (calls : List ε) :
    Inv (calls.foldl after s) ∧ (cursor (calls.foldl after s)).Sound := by
  induction calls generalizing s with
  | nil => exact ⟨hinv, hsound⟩
  | cons e calls ih => exact ih (h.kept s e hinv) (h.sound_after hinv hsound)

theorem Follows.inPass_after {isNext : ε → Bool} {size steps : Nat} {visited : List α}
    (h : Follows after cursor change Inv) (hnext : ∀ s e, isNext e ↔ change s e = some .next)
    (hinv : Inv s) (hpass : InPass size (cursor s) visited steps)
    (hcall : ∀ d, change s e = some d → d = .next ∨ ∃ x, d = .remove x) :
    InPass size (cursor (after s e))
      (visited ++ if isNext e then (cursor (after s e)).curr.toList else [])
      (steps + if isNext e then 1 else 0) := by
  cases hchange : change s e with
  | none =>
    have hno : ¬ isNext e := by simp [hnext s e, hchange]
    simpa [hno, h.idle s e hinv hchange] using hpass
  | some d =>
    have hcursor := (h.moves s e d hinv hchange).1
    rcases hcall d hchange with rfl | ⟨x, rfl⟩
    · rw [if_pos ((hnext s e).mpr hchange), if_pos ((hnext s e).mpr hchange), hcursor]
      exact hpass.next
    · have hno : ¬ isNext e := by simp [hnext s e, hchange]
      simpa [hno, hcursor, Cursor.change] using hpass.remove x

theorem Follows.inPass {isNext : ε → Bool} {size steps : Nat} {visited : List α}
    (h : Follows after cursor change Inv) (hnext : ∀ s e, isNext e ↔ change s e = some .next)
    (hinv : Inv s) (hpass : InPass size (cursor s) visited steps)
    (hcalls : ∀ e ∈ calls, ∀ s d, change s e = some d → d = .next ∨ ∃ x, d = .remove x) :
    InPass size (cursor (calls.foldl after s)) (visited ++ visits after cursor isNext s calls)
      (steps + calls.countP isNext) := by
  induction calls generalizing s visited steps with
  | nil => simpa [visits] using hpass
  | cons e calls ih =>
    have hfirst := h.inPass_after hnext hinv hpass (hcalls e List.mem_cons_self s)
    have hlast := ih (h.kept s e hinv) hfirst fun e' he' =>
      hcalls e' (List.mem_cons_of_mem e he')
    rwa [List.append_assoc, Nat.add_assoc, Nat.add_comm (if isNext e then 1 else 0),
      ← List.countP_cons] at hlast

end

end LookAhead
end ScyllaDriver
