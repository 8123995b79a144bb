import ScyllaDriver.Registry.Registration

/-!
# What the registration does

The passes register the classes in the order of `walks`, which depends on the list and on the
dependencies between its classes only (`Follows`). A visit to a descriptor waits, registers
the class, or finds a dependency that nobody has; a pass without progress leaves only classes
that wait for each other.

The registration goes wrong exactly if it gets through and on the way a dependency that is no
descriptor's name is found among the classes that were added by earlier register functions:
the name of a descriptor in other letter case, or a class that has no descriptor.
-/

namespace ScyllaDriver
namespace Registry

open CString Loop DependencyOrder

variable {Ce : Type} {internal : Bytes → Option Ce} {head : List (Descriptor Ce)}
variable {calls : List (Call Ce)} {d : Descriptor Ce} {fqn : Bytes}

theorem registryFind_eq_none_iff : registryFind head fqn = none ↔ fqn ∉ names head := by
  simp [registryFind, names]

theorem name_of_registryFind {p : Descriptor Ce} (h : registryFind head fqn = some p) :
    p.name = fqn ∧ fqn ∈ names head := by
  have hname : p.name = fqn := by simpa using List.find?_some h
  exact ⟨hname, hname ▸ List.mem_map_of_mem (List.mem_of_find?_eq_some h)⟩

theorem registered_iff : registered calls fqn = true ↔ fqn ∈ calls.map Call.name := by
  simp [registered]

theorem ceOut_eq_none_iff : ceOut calls fqn = none ↔ fqn ∉ calls.map Call.name := by
  simp [ceOut]

variable {ce : Ce}

theorem exists_call_of_ceOut (h : ceOut calls fqn = some ce) :
    ∃ call ∈ calls, call.name = fqn ∧ call.made.ce = ce := by
  obtain ⟨call, hfind, hce⟩ := Option.map_eq_some_iff.mp h
  exact ⟨call, List.mem_of_find?_eq_some hfind, by simpa using List.find?_some hfind, hce⟩

/-- A class is in Zend's table because a register function added it, or was there before. -/
theorem classTable_cases
    (internal : Bytes → Option Ce)
    (calls : List (Call Ce))
    (lookup : Bytes) :
    (∃ call ∈ calls, ∃ c ∈ call.made.added, c.1 = lookup ∧
        classTable internal calls lookup = some c.2) ∨
      ((∀ call ∈ calls, lookup ∉ call.made.added.map Prod.fst) ∧
        classTable internal calls lookup = internal lookup) := by
  unfold classTable
  split
  · rename_i c hfind
    obtain ⟨call, hcall, hadded⟩ := List.mem_flatMap.mp (List.mem_of_find?_eq_some hfind)
    exact .inl ⟨call, List.mem_reverse.mp hcall, c, hadded,
      by simpa using List.find?_some hfind, rfl⟩
  · rename_i hnone
    refine .inr ⟨fun call hcall hmem => ?_, rfl⟩
    obtain ⟨c, hadded, hname⟩ := List.mem_map.mp hmem
    have hflat : c ∈ calls.reverse.flatMap fun call => call.made.added :=
      List.mem_flatMap.mpr ⟨call, List.mem_reverse.mpr hcall, hadded⟩
    exact absurd hname (by simpa using List.find?_eq_none.mp hnone c hflat)

theorem resolveDep_of_mem (h : fqn ∈ names head) :
    resolveDep internal head calls fqn =
      match ceOut calls fqn with
      | none => .deferred
      | some ce => .resolved ce := by
  unfold resolveDep
  split
  · rename_i p hfind
    obtain rfl := (name_of_registryFind hfind).1
    rfl
  · rename_i hnone
    exact absurd h (registryFind_eq_none_iff.mp hnone)

theorem resolveDep_of_not_mem (h : fqn ∉ names head) :
    resolveDep internal head calls fqn =
      match classTable internal calls (zendStrTolower fqn) with
      | none => .unresolved
      | some ce => .resolved ce := by
  have hnone := registryFind_eq_none_iff.mpr h
  cases hclass : classTable internal calls (zendStrTolower fqn) with
  | none | some ce => simp [resolveDep, hnone, hclass]

theorem waits_of_deferred (h : resolveDep internal head calls fqn = .deferred) :
    fqn ∈ names head ∧ fqn ∉ calls.map Call.name := by
  by_cases hmem : fqn ∈ names head
  · rw [resolveDep_of_mem hmem] at h
    refine ⟨hmem, ceOut_eq_none_iff.mp ?_⟩
    split at h
    · assumption
    · cases h
  · rw [resolveDep_of_not_mem hmem] at h
    split at h <;> cases h

/-- A dependency is found nowhere: it has no descriptor, was not known before and no register
function has added it. -/
theorem resolveDep_unresolved_iff :
    resolveDep internal head calls fqn = .unresolved ↔
      fqn ∉ names head ∧ internal (zendStrTolower fqn) = none ∧
        ∀ call ∈ calls, zendStrTolower fqn ∉ call.made.added.map Prod.fst := by
  by_cases hmem : fqn ∈ names head
  · rw [resolveDep_of_mem hmem]
    refine iff_of_false ?_ fun h => h.1 hmem
    intro h
    split at h <;> cases h
  · rw [resolveDep_of_not_mem hmem]
    obtain ⟨call, hcall, c, hadded, hname, htable⟩ | ⟨hnone, htable⟩ :=
      classTable_cases internal calls (zendStrTolower fqn)
    · rw [htable]
      refine iff_of_false (by simp) fun h => h.2.2 call hcall ?_
      exact List.mem_map.mpr ⟨c, hadded, hname⟩
    · rw [htable]
      cases internal (zendStrTolower fqn) with
      | none => exact iff_of_true rfl ⟨hmem, rfl, hnone⟩
      | some ce => simp

theorem not_known_of_unresolved (h : resolveDep internal head calls fqn = .unresolved) :
    ¬ Known internal head fqn := by
  obtain ⟨hmem, hnone, -⟩ := resolveDep_unresolved_iff.mp h
  rintro (hmem' | hsome)
  · exact hmem hmem'
  · rw [hnone] at hsome
    cases hsome

/-- The loop over the dependencies comes to this one: the classes before it that have a
descriptor are all there. -/
def LookedAt (head : List (Descriptor Ce)) (present deps : List Bytes) (fqn : Bytes) : Prop :=
  ∃ before after, deps = before ++ fqn :: after ∧ ∀ e ∈ before, e ∈ names head → e ∈ present

theorem LookedAt.mem {present deps : List Bytes} (h : LookedAt head present deps fqn) :
    fqn ∈ deps := by
  obtain ⟨before, after, rfl, -⟩ := h
  exact List.mem_append_right _ List.mem_cons_self

theorem LookedAt.cons
    {present deps : List Bytes}
    {first : Bytes}
    (hfirst : first ∈ names head → first ∈ present)
    (h : LookedAt head present deps fqn) :
    LookedAt head present (first :: deps) fqn := by
  obtain ⟨before, after, rfl, hbefore⟩ := h
  exact ⟨first :: before, after, rfl, List.forall_mem_cons.mpr ⟨hfirst, hbefore⟩⟩

theorem LookedAt.of_cons
    {present deps : List Bytes}
    {first : Bytes}
    (h : LookedAt head present (first :: deps) fqn) :
    fqn = first ∨ (first ∈ names head → first ∈ present) ∧ LookedAt head present deps fqn := by
  obtain ⟨_ | ⟨e, before⟩, after, heq, hbefore⟩ := h
  · exact .inl (List.cons.inj heq).1.symm
  · obtain ⟨rfl, rfl⟩ := List.cons.inj heq
    exact .inr ⟨hbefore _ List.mem_cons_self, before, after, rfl,
      fun x hx => hbefore x (.tail _ hx)⟩

theorem mem_of_resolved (h : resolveDep internal head calls fqn = .resolved ce) :
    fqn ∈ names head → fqn ∈ calls.map Call.name := by
  intro hmem
  by_contra hnot
  rw [resolveDep_of_mem hmem, ceOut_eq_none_iff.mpr hnot] at h
  cases h

section

variable (internal : Bytes → Option Ce) (head : List (Descriptor Ce)) (calls : List (Call Ce))

/-- A dependency that the loop comes to is found nowhere. -/
def Fails (deps : List Bytes) : Prop :=
  ∃ fqn, LookedAt head (calls.map Call.name) deps fqn ∧
    resolveDep internal head calls fqn = .unresolved

/-- A dependency is not registered yet. -/
def Waits (deps : List Bytes) : Prop :=
  ∃ fqn ∈ deps, resolveDep internal head calls fqn = .deferred

/-- The dependencies are found as these classes. -/
def Resolves (deps : List Bytes) (resolved : List Ce) : Prop :=
  List.Forall₂ (fun fqn ce => resolveDep internal head calls fqn = .resolved ce) deps resolved

end

/-- The loop over the dependencies fails, or waits, or finds them all. -/
theorem resolveDeps_cases
    (internal : Bytes → Option Ce)
    (head : List (Descriptor Ce))
    (calls : List (Call Ce))
    (d : Descriptor Ce)
    (deps : List Bytes)
    {i : Nat}
    (hfew : i + deps.length ≤ maxDepsPerClass) :
    (∃ e, resolveDeps internal head calls d i deps = .error e ∧ e.name = d.name ∧
        Fails internal head calls deps) ∨
      (resolveDeps internal head calls d i deps = .ok none ∧ Waits internal head calls deps ∧
        ¬ Fails internal head calls deps) ∨
      ∃ resolved, resolveDeps internal head calls d i deps = .ok (some resolved) ∧
        Resolves internal head calls deps resolved := by
  induction deps generalizing i with
  | nil => exact .inr (.inr ⟨[], rfl, .nil⟩)
  | cons fqn rest ih =>
    rw [List.length_cons] at hfew
    rw [resolveDeps, if_neg (by omega)]
    cases hdep : resolveDep internal head calls fqn with
    | deferred =>
      refine .inr (.inl ⟨rfl, ⟨fqn, List.mem_cons_self, hdep⟩, ?_⟩)
      rintro ⟨fqn', hlooked, hfqn'⟩
      obtain rfl | ⟨hfirst, -⟩ := hlooked.of_cons
      · cases hdep.symm.trans hfqn'
      · obtain ⟨hmem, hnot⟩ := waits_of_deferred hdep
        exact hnot (hfirst hmem)
    | unresolved => exact .inl ⟨_, rfl, rfl, fqn, ⟨[], rest, rfl, by simp⟩, hdep⟩
    | resolved ce =>
      have hfirst := mem_of_resolved hdep
      obtain ⟨e, heq, hname, fqn', hlooked, hfqn'⟩ | ⟨heq, ⟨fqn', hmem, hfqn'⟩, hfound⟩ |
        ⟨resolved, heq, hall⟩ := ih (i := i + 1) (by omega)
      · exact .inl ⟨e, by rw [heq], hname, fqn', hlooked.cons hfirst, hfqn'⟩
      · refine .inr (.inl ⟨by rw [heq], ⟨fqn', .tail _ hmem, hfqn'⟩, ?_⟩)
        rintro ⟨fqn'', hlooked, hfqn''⟩
        obtain rfl | ⟨-, hlooked'⟩ := hlooked.of_cons
        · cases hdep.symm.trans hfqn''
        · exact hfound ⟨fqn'', hlooked', hfqn''⟩
      · exact .inr (.inr ⟨ce :: resolved, by rw [heq], .cons hdep hall⟩)

/-- Each of the dependencies is found. -/
theorem Resolves.exists_resolved
    {deps : List Bytes}
    {resolved : List Ce}
    (h : Resolves internal head calls deps resolved)
    (hdep : fqn ∈ deps) :
    ∃ ce, (fqn, ce) ∈ deps.zip resolved ∧ resolveDep internal head calls fqn = .resolved ce := by
  induction h with
  | nil => cases hdep
  | @cons _ ce _ _ hce _ ih =>
    rcases List.mem_cons.mp hdep with rfl | hdep
    · exact ⟨ce, List.mem_cons_self, hce⟩
    · obtain ⟨ce', hzip, hce'⟩ := ih hdep
      exact ⟨ce', .tail _ hzip, hce'⟩

/-- The list of descriptors that the registration is for. -/
structure WellFormed (internal : Bytes → Option Ce) (head : List (Descriptor Ce)) : Prop where
  distinct : (names head).Nodup
  few : ∀ d ∈ head, d.deps.length ≤ maxDepsPerClass
  makes : MakesClasses internal head

/-- The walks take a class that is not taken yet, once its dependencies with a descriptor
are. -/
def ready (head taken : List (Descriptor Ce)) (d : Descriptor Ce) : Bool :=
  ¬ (names taken).contains d.name ∧
    ∀ fqn ∈ d.deps, (names head).contains fqn → (names taken).contains fqn

/-- The classes that some walks over the list take. -/
def walked (head : List (Descriptor Ce)) (k : Nat) : List (Descriptor Ce) :=
  walks (ready head) head k

/-- One of these register functions adds a class of the dependency's name in lower case. -/
def AddedBy (taken : List (Descriptor Ce)) (fqn : Bytes) : Prop :=
  ∃ e ∈ taken, zendStrTolower fqn ∈ e.adds

section

variable (internal : Bytes → Option Ce) (head : List (Descriptor Ce))

/-- A visit to the descriptor raises no error, when these classes are registered. -/
def Clear (taken : List (Descriptor Ce)) (d : Descriptor Ce) : Prop :=
  d.name ∈ names taken ∨
    ∀ fqn, LookedAt head (names taken) d.deps fqn → fqn ∉ names head →
      (internal (zendStrTolower fqn)).isSome ∨ AddedBy taken fqn

/-- No visit of a pass over these descriptors raises an error. -/
def ClearPass (taken : List (Descriptor Ce)) : List (Descriptor Ce) → Prop
  | [] => True
  | d :: ds => Clear internal head taken d ∧ ClearPass (take (ready head) taken d) ds

/-- The walks over the list get to every class, without an error. -/
structure GetsThrough : Prop where
  complete : ∀ d ∈ head, ∃ k, d ∈ walked head k
  found : ∀ k, ClearPass internal head (walked head k) head

/-- The registration gets through, but on the way a dependency that is no descriptor's name
is met by what an earlier register function has added. -/
structure Overlooked : Prop extends GetsThrough internal head where
  added : ∃ k before d after fqn, walked head k = before ++ d :: after ∧
    fqn ∈ d.deps ∧ fqn ∉ names head ∧ AddedBy before fqn

/-- The calls made so far, and the classes that the walks have taken. -/
inductive Follows : List (Call Ce) → List (Descriptor Ce) → Prop
  | nil : Follows [] []
  | snoc {calls : List (Call Ce)} {taken : List (Descriptor Ce)} {d : Descriptor Ce}
      {resolved : List Ce} {made : Made Ce} :
      Follows calls taken →
      d ∈ head →
      d.name ∉ names taken →
      Resolves internal head calls d.deps resolved →
      d.register resolved = some made →
      Follows (calls ++ [⟨d.name, resolved, made⟩]) (taken ++ [d])

end

variable {taken : List (Descriptor Ce)}

/-- The calls are for the classes taken, each of which is in the list, once. -/
theorem Follows.names_eq
    (h : Follows internal head calls taken) :
    calls.map Call.name = names taken ∧ (∀ d ∈ taken, d ∈ head) ∧ (names taken).Nodup := by
  induction h with
  | nil => exact ⟨rfl, by simp, List.nodup_nil⟩
  | @snoc calls taken d resolved made _ hd hnew _ _ ih =>
    obtain ⟨hnames, hmem, hnodup⟩ := ih
    refine ⟨by simp [names, hnames], ?_, ?_⟩
    · simpa [or_imp, forall_and, hd] using hmem
    · rw [names, List.map_append, List.nodup_append]
      exact ⟨hnodup, List.nodup_singleton _, by
        rintro name hname _ hlast rfl
        exact hnew (List.mem_singleton.mp hlast ▸ hname)⟩

theorem Follows.length_le
    (h : Follows internal head calls taken) :
    calls.length ≤ head.length := by
  obtain ⟨hnames, hmem, hnodup⟩ := h.names_eq
  have hsubset : names taken ⊆ names head := List.map_subset _ hmem
  have hle := (hnodup.subperm hsubset).length_le
  rw [← hnames] at hle
  simpa [names] using hle

/-- A call was made for a descriptor, after the calls for those taken before. -/
theorem Follows.split
    (h : Follows internal head calls taken)
    {earlier later : List (Call Ce)}
    {call : Call Ce}
    (hcalls : calls = earlier ++ call :: later) :
    ∃ before d after, taken = before ++ d :: after ∧ d ∈ head ∧ d.name = call.name ∧
      d.register call.resolved = some call.made ∧
      Resolves internal head earlier d.deps call.resolved ∧
      Follows internal head earlier before := by
  induction h generalizing later with
  | nil => simp at hcalls
  | @snoc calls taken d resolved made hfollows hd hnew hresolves hmade ih =>
    rcases List.eq_nil_or_concat later with rfl | ⟨later, last, rfl⟩
    · obtain ⟨rfl, hlast⟩ := List.append_inj' hcalls rfl
      cases hlast
      exact ⟨taken, d, [], rfl, hd, rfl, hmade, hresolves, hfollows⟩
    · rw [List.concat_eq_append, ← List.cons_append, ← List.append_assoc] at hcalls
      obtain ⟨before, e, after, rfl, hrest⟩ := ih (List.append_inj' hcalls rfl).1
      exact ⟨before, e, after ++ [d], by simp, hrest⟩

/-- For a descriptor that was taken a call was made. -/
theorem Follows.split_taken
    (h : Follows internal head calls taken)
    {before after : List (Descriptor Ce)}
    (htaken : taken = before ++ d :: after) :
    ∃ earlier call later, calls = earlier ++ call :: later ∧ d.name = call.name ∧
      Resolves internal head earlier d.deps call.resolved ∧
      Follows internal head earlier before := by
  have hnames := h.names_eq.1
  rw [htaken, names, List.map_append, List.map_cons] at hnames
  obtain ⟨earlier, rest, rfl, hearlier, hrest⟩ := List.map_eq_append_iff.mp hnames
  obtain ⟨call, later, rfl, -, -⟩ := List.map_eq_cons_iff.mp hrest
  obtain ⟨before', d', after', htaken', -, hname, -, hresolves, hfollows⟩ := h.split rfl
  have hlength : before'.length = before.length := by
    simpa [names] using
      congrArg List.length (hfollows.names_eq.1.symm.trans hearlier)
  obtain ⟨rfl, hcons⟩ := List.append_inj (htaken'.symm.trans htaken) hlength
  cases hcons
  exact ⟨earlier, call, later, rfl, hname, hresolves, hfollows⟩

theorem eq_of_name_eq
    (hwf : WellFormed internal head)
    {e : Descriptor Ce}
    (hd : d ∈ head)
    (he : e ∈ head)
    (hname : d.name = e.name) :
    d = e :=
  List.inj_on_of_nodup_map hwf.distinct hd he hname

section

variable (h : Follows internal head calls taken) (hwf : WellFormed internal head)
include h hwf

/-- The calls add a class exactly if their descriptors do, and it is a new one. -/
theorem Follows.addedBy_iff :
    (AddedBy taken fqn ↔ ∃ call ∈ calls, zendStrTolower fqn ∈ call.made.added.map Prod.fst) ∧
      ∀ call ∈ calls, ∀ c ∈ call.made.added, ∀ key, internal key ≠ some c.2 := by
  induction h with
  | nil => simp [AddedBy]
  | @snoc calls taken d resolved made _ hd _ _ hmade ih =>
    obtain ⟨made', hmade', hadds, hnew⟩ := hwf.makes d hd resolved
    cases hmade.symm.trans hmade'
    constructor
    · have hadded := ih.1
      unfold AddedBy at hadded ⊢
      simp only [List.mem_append, List.mem_singleton, or_and_right, exists_or, exists_eq_left,
        hadded, hadds]
    · intro call hcall
      rcases List.mem_append.mp hcall with hcall | hcall
      · exact ih.2 call hcall
      · exact List.mem_singleton.mp hcall ▸ hnew

/-- A descriptor is clear, if it is registered or none of its dependencies fails. -/
theorem Follows.clear_iff :
    Clear internal head taken d ↔
      d.name ∈ calls.map Call.name ∨ ¬ Fails internal head calls d.deps := by
  have hnames := h.names_eq.1
  have hfails : ∀ fqn, resolveDep internal head calls fqn = .unresolved ↔ fqn ∉ names head ∧
      ¬((internal (zendStrTolower fqn)).isSome ∨ AddedBy taken fqn) := by
    intro fqn
    rw [resolveDep_unresolved_iff, (h.addedBy_iff hwf).1, not_or, Option.not_isSome_iff_eq_none,
      not_exists]
    simp only [not_and]
  simp only [Clear, Fails, hnames, hfails, not_exists, not_and, not_not]

/-- A visit raises an error, changes nothing, or makes a call, as the walk does. -/
theorem Follows.visit
    (progress : Bool)
    (hd : d ∈ head) :
    (∃ e, visit internal head (calls, progress) d = .error e ∧ Culprit internal head e.name ∧
        ¬ Clear internal head taken d) ∨
      (visit internal head (calls, progress) d = .ok (calls, progress) ∧
        Clear internal head taken d ∧ take (ready head) taken d = taken ∧
        (d.name ∈ calls.map Call.name ∨ Waits internal head calls d.deps)) ∨
      ∃ call, visit internal head (calls, progress) d = .ok (calls ++ [call], true) ∧
        Clear internal head taken d ∧
        Follows internal head (calls ++ [call]) (take (ready head) taken d) := by
  have hnames := h.names_eq.1
  rw [h.clear_iff hwf, take, Registry.visit]
  by_cases hregistered : d.name ∈ calls.map Call.name
  · have hready : ready head taken d = false := by
      simp [ready, ← hnames, hregistered]
    rw [if_pos (registered_iff.mpr hregistered), hready]
    exact .inr (.inl ⟨rfl, .inl hregistered, rfl, .inl hregistered⟩)
  rw [if_neg (by rwa [registered_iff])]
  obtain ⟨e, heq, hname, hfails⟩ | ⟨heq, hwaits, hfound⟩ | ⟨resolved, heq, hresolves⟩ :=
    resolveDeps_cases internal head calls d d.deps (i := 0) (by simpa using hwf.few d hd)
  · rw [heq]
    obtain ⟨fqn, hlooked, hfqn⟩ := id hfails
    refine .inl ⟨e, rfl, .inl ⟨d, hd, hname.symm, fqn, hlooked.mem, ?_⟩, ?_⟩
    · exact not_known_of_unresolved hfqn
    · exact not_or.mpr ⟨hregistered, not_not.mpr hfails⟩
  · obtain ⟨fqn, hdep, hfqn⟩ := id hwaits
    obtain ⟨hin, hout⟩ := waits_of_deferred hfqn
    have hready : ready head taken d = false := by
      simp only [ready, List.contains_iff_mem, decide_eq_false_iff_not]
      exact fun hready => hout (hnames ▸ hready.2 fqn hdep hin)
    rw [heq, hready]
    exact .inr (.inl ⟨rfl, .inr hfound, rfl, .inr hwaits⟩)
  · have hfound : ¬ Fails internal head calls d.deps := by
      rintro ⟨fqn, hlooked, hfqn⟩
      obtain ⟨ce, -, hce⟩ := hresolves.exists_resolved hlooked.mem
      cases hce.symm.trans hfqn
    have hready : ready head taken d = true := by
      simp only [ready, List.contains_iff_mem, decide_eq_true_eq, ← hnames]
      refine ⟨hregistered, fun fqn hdep => ?_⟩
      obtain ⟨ce, -, hce⟩ := hresolves.exists_resolved hdep
      exact mem_of_resolved hce
    obtain ⟨made, hmade, -⟩ := hwf.makes d hd resolved
    rw [heq, hready]
    dsimp only
    rw [hmade]
    exact .inr (.inr ⟨_, rfl, .inr hfound, h.snoc hd (hnames ▸ hregistered) hresolves hmade⟩)

end

theorem pass_cons (s : List (Call Ce) × Bool) (d : Descriptor Ce) (ds : List (Descriptor Ce)) :
    pass internal head s (d :: ds) =
      match visit internal head s d with
      | .error e => .error e
      | .ok s' => pass internal head s' ds := by
  rw [pass, List.foldlM_cons]
  cases visit internal head s d with
  | error e => rfl
  | ok s' => rfl

/-- A pass raises an error, or does what the walk does; without progress every class is
registered or waits. -/
theorem Follows.pass
    (h : Follows internal head calls taken)
    (hwf : WellFormed internal head)
    (progress : Bool)
    {ds : List (Descriptor Ce)}
    (hds : ∀ d ∈ ds, d ∈ head) :
    (∃ e, pass internal head (calls, progress) ds = .error e ∧ Culprit internal head e.name ∧
        ¬ ClearPass internal head taken ds) ∨
      ∃ calls' progress', pass internal head (calls, progress) ds = .ok (calls', progress') ∧
        ClearPass internal head taken ds ∧
        Follows internal head calls' (ds.foldl (take (ready head)) taken) ∧
        (progress' = true ∧ calls.length < calls'.length ∨
          progress' = progress ∧ calls' = calls ∧ ∀ d ∈ ds,
            d.name ∈ calls.map Call.name ∨ Waits internal head calls d.deps) := by
  induction ds generalizing calls taken progress with
  | nil => exact .inr ⟨calls, progress, rfl, trivial, h, .inr ⟨rfl, rfl, by simp⟩⟩
  | cons d ds ih =>
    rw [pass_cons, ClearPass, List.foldl_cons]
    have hds' : ∀ e ∈ ds, e ∈ head := fun e he => hds e (.tail _ he)
    obtain ⟨e, heq, hculprit, hnot⟩ | ⟨heq, hclear, htake, hwaits⟩ |
      ⟨call, heq, hclear, hfollows⟩ := h.visit hwf progress (hds d List.mem_cons_self)
    · exact .inl ⟨e, by rw [heq], hculprit, fun hclear => hnot hclear.1⟩
    · rw [heq, htake]
      obtain ⟨e, hpass, hculprit, hnot⟩ | ⟨calls', progress', hpass, hclear', hfollows, hend⟩ :=
        ih h progress hds'
      · exact .inl ⟨e, hpass, hculprit, fun hclear => hnot hclear.2⟩
      · refine .inr ⟨calls', progress', hpass, ⟨hclear, hclear'⟩, hfollows, hend.imp_right ?_⟩
        exact fun ⟨hflag, hsame, hrest⟩ =>
          ⟨hflag, hsame, List.forall_mem_cons.mpr ⟨hwaits, hrest⟩⟩
    · rw [heq]
      obtain ⟨e, hpass, hculprit, hnot⟩ | ⟨calls', progress', hpass, hclear', hfollows', hend⟩ :=
        ih hfollows true hds'
      · exact .inl ⟨e, hpass, hculprit, fun hclear => hnot hclear.2⟩
      · refine .inr ⟨calls', progress', hpass, ⟨hclear, hclear'⟩, hfollows', .inl ?_⟩
        have hgrown : calls.length < (calls ++ [call]).length := by simp
        obtain ⟨hflag, hlt⟩ | ⟨hflag, rfl, -⟩ := hend
        · exact ⟨hflag, hgrown.trans hlt⟩
        · exact ⟨hflag, hgrown⟩

/-- A round raises an error, goes on with more calls, or is the last one. -/
theorem Follows.round
    {k : Nat}
    (h : Follows internal head calls (walked head k))
    (hwf : WellFormed internal head) :
    (∃ e, round internal head calls = .stop (.error e) ∧ Culprit internal head e.name ∧
        ¬ ClearPass internal head (walked head k) head) ∨
      ClearPass internal head (walked head k) head ∧
        ((∃ calls', round internal head calls = .next calls' ∧ calls.length < calls'.length ∧
            Follows internal head calls' (walked head (k + 1))) ∨
          round internal head calls = .stop (unregisteredCheck head calls) ∧
            walked head (k + 1) = walked head k ∧ ∀ d ∈ head,
              d.name ∈ calls.map Call.name ∨ Waits internal head calls d.deps) := by
  unfold Registry.round
  obtain ⟨e, heq, hrest⟩ | ⟨calls', progress, heq, hclear, hfollows, hend⟩ :=
    h.pass hwf false fun _ hd => hd
  · exact .inl ⟨e, by rw [heq], hrest⟩
  refine .inr ⟨hclear, ?_⟩
  rw [heq]
  obtain ⟨rfl, hlt⟩ | ⟨rfl, rfl, hwaits⟩ := hend
  · exact .inl ⟨calls', rfl, hlt, hfollows⟩
  · refine .inr ⟨rfl, ?_, hwaits⟩
    have hlength := congrArg List.length (hfollows.names_eq.1.symm.trans h.names_eq.1)
    rw [names, names, List.length_map, List.length_map] at hlength
    exact ((prefix_walks (ready head) head (Nat.le_succ k)).eq_of_length hlength.symm).symm

/-- The classes that are left wait for each other. -/
theorem leadsToCycle_of_waiting
    (hwaits : ∀ d ∈ head, d.name ∈ calls.map Call.name ∨ Waits internal head calls d.deps)
    (hd : d ∈ head)
    (hleft : d.name ∉ calls.map Call.name) :
    LeadsToCycle (DependsOn head) d.name := by
  refine leadsToCycle_of_forall_exists
    (s := {name | name ∈ names head ∧ name ∉ calls.map Call.name}) ?_ ?_ ?_
  · exact (List.finite_toSet (names head)).subset fun name hname => hname.1
  · rintro name ⟨hname, hleft⟩
    obtain ⟨e, he, rfl⟩ := List.mem_map.mp hname
    obtain ⟨fqn, hdep, hdeferred⟩ := (hwaits e he).resolve_left hleft
    have hwaiting := waits_of_deferred hdeferred
    exact ⟨fqn, hwaiting, e, he, rfl, hdep, hwaiting.1⟩
  · exact ⟨List.mem_map_of_mem hd, hleft⟩

theorem unregisteredCheck_cases
    (head : List (Descriptor Ce))
    (calls : List (Call Ce)) :
    (∃ e, unregisteredCheck head calls = .error e ∧
        ∃ d ∈ head, d.name = e.name ∧ d.name ∉ calls.map Call.name) ∨
      unregisteredCheck head calls = .ok calls ∧ names head ⊆ calls.map Call.name := by
  unfold unregisteredCheck
  split
  · rename_i d hfind
    refine .inl ⟨_, rfl, d, List.mem_of_find?_eq_some hfind, rfl, ?_⟩
    rw [← registered_iff]
    simpa using List.find?_some hfind
  · rename_i hnone
    refine .inr ⟨rfl, fun name hname => ?_⟩
    obtain ⟨d, hd, rfl⟩ := List.mem_map.mp hname
    rw [← registered_iff]
    simpa using List.find?_eq_none.mp hnone d hd

/-- The calls so far are those of some walks, none of which raised an error. -/
def FollowsWalks (internal : Bytes → Option Ce) (head : List (Descriptor Ce))
    (calls : List (Call Ce)) : Prop :=
  ∃ k, Follows internal head calls (walked head k) ∧
    ∀ j < k, ClearPass internal head (walked head j) head

/-- The registration ends in a round that follows a walk. -/
theorem exists_last_round
    (hwf : WellFormed internal head) :
    ∃ outcome calls, Minit internal head outcome ∧ FollowsWalks internal head calls ∧
      round internal head calls = .stop outcome := by
  have hnext : ∀ calls calls', FollowsWalks internal head calls →
      round internal head calls = .next calls' → FollowsWalks internal head calls' ∧
        head.length - calls'.length < head.length - calls.length := by
    rintro calls calls' ⟨k, hfollows, hclear⟩ hround
    obtain ⟨e, heq, -⟩ | ⟨hpass, ⟨calls'', heq, hlt, hfollows'⟩ | ⟨heq, -⟩⟩ := hfollows.round hwf
    · cases heq.symm.trans hround
    · cases heq.symm.trans hround
      have hle := hfollows'.length_le
      refine ⟨⟨k + 1, hfollows', fun j hj => ?_⟩, by omega⟩
      rcases Nat.lt_succ_iff_lt_or_eq.mp hj with hj | rfl
      · exact hclear j hj
      · exact hpass
    · cases heq.symm.trans hround
  have hstart : FollowsWalks internal head [] := ⟨0, .nil, by simp⟩
  obtain ⟨outcome, hrun⟩ :=
    exists_run (fun calls => head.length - calls.length) hnext hstart (Nat.lt_succ_self _)
  have hminit : Minit internal head outcome := ends_of_run hrun
  obtain ⟨calls, hkept, hstop⟩ :=
    hminit.last (fun calls calls' hkept hround => (hnext calls calls' hkept hround).1) hstart
  exact ⟨outcome, calls, hminit, hkept, hstop⟩

/-- The registration ends with an error that names a culprit, or it gets through. -/
theorem minit_cases
    (hwf : WellFormed internal head) :
    (∃ e, Minit internal head (.error e) ∧ Culprit internal head e.name ∧
        ¬ GetsThrough internal head) ∨
      ∃ calls k, Minit internal head (.ok calls) ∧ GetsThrough internal head ∧
        Follows internal head calls (walked head k) ∧ names head ⊆ calls.map Call.name ∧
        ∀ j, walked head j <+: walked head k := by
  obtain ⟨outcome, calls, hminit, ⟨k, hfollows, hclear⟩, hstop⟩ := exists_last_round hwf
  obtain ⟨e, heq, hculprit, hnot⟩ | ⟨hpass, ⟨calls', heq, -⟩ | ⟨heq, hsame, hwaits⟩⟩ :=
    hfollows.round hwf
  · cases heq.symm.trans hstop
    exact .inl ⟨e, hminit, hculprit, fun hthrough => hnot (hthrough.found k)⟩
  · cases heq.symm.trans hstop
  · cases heq.symm.trans hstop
    have hstay : ∀ j, k ≤ j → walked head j = walked head k := fun j hle =>
      walks_eq_of_succ_eq (ready head) hsame hle
    have hmax : ∀ j, walked head j <+: walked head k := by
      intro j
      rcases Nat.le_total j k with hle | hle
      · exact prefix_walks (ready head) head hle
      · rw [hstay j hle]
    obtain ⟨e, heq', d, hd, hname, hleft⟩ | ⟨heq', hall⟩ := unregisteredCheck_cases head calls
    · rw [heq'] at hminit
      refine .inl ⟨e, hminit, hname ▸ .inr (leadsToCycle_of_waiting hwaits hd hleft), ?_⟩
      intro hthrough
      obtain ⟨j, hj⟩ := hthrough.complete d hd
      rw [hfollows.names_eq.1] at hleft
      exact hleft (List.mem_map_of_mem ((hmax j).subset hj))
    · rw [heq'] at hminit
      refine .inr ⟨calls, k, hminit, ⟨fun d hd => ⟨k, ?_⟩, fun j => ?_⟩, hfollows, hall, hmax⟩
      · have hmem := hall (List.mem_map_of_mem hd)
        rw [hfollows.names_eq.1] at hmem
        obtain ⟨e, he, hname⟩ := List.mem_map.mp hmem
        exact eq_of_name_eq hwf hd (hfollows.names_eq.2.1 e he) hname.symm ▸ he
      · rcases Nat.lt_or_ge j k with hlt | hle
        · exact hclear j hlt
        · exact hstay j hle ▸ hpass

theorem resolved_cases (h : resolveDep internal head calls fqn = .resolved ce) :
    (fqn ∈ names head ∧ ∃ call ∈ calls, call.name = fqn ∧ call.made.ce = ce) ∨
      (fqn ∉ names head ∧ ((∃ call ∈ calls, ∃ c ∈ call.made.added,
          c.1 = zendStrTolower fqn ∧ c.2 = ce) ∨
        (∀ call ∈ calls, zendStrTolower fqn ∉ call.made.added.map Prod.fst) ∧
          internal (zendStrTolower fqn) = some ce)) := by
  by_cases hmem : fqn ∈ names head
  · rw [resolveDep_of_mem hmem] at h
    split at h
    · cases h
    · rename_i hce
      cases h
      exact .inl ⟨hmem, exists_call_of_ceOut hce⟩
  · rw [resolveDep_of_not_mem hmem] at h
    obtain ⟨call, hcall, c, hadded, hname, htable⟩ | ⟨hnone, htable⟩ :=
      classTable_cases internal calls (zendStrTolower fqn)
    · rw [htable] at h
      cases h
      exact .inr ⟨hmem, .inl ⟨call, hcall, c, hadded, hname, rfl⟩⟩
    · rw [htable] at h
      split at h
      · cases h
      · rename_i hce
        cases h
        exact .inr ⟨hmem, .inr ⟨hnone, hce⟩⟩

/-- A dependency is found as the class it stands for, unless it is no descriptor's name and
was added by a register function. -/
theorem Follows.standsFor_iff
    (h : Follows internal head calls taken)
    (hwf : WellFormed internal head)
    (hresolved : resolveDep internal head calls fqn = .resolved ce) :
    StandsFor internal head calls fqn ce ↔ (fqn ∉ names head → ¬ AddedBy taken fqn) := by
  obtain ⟨hadded, hnew⟩ : (AddedBy taken fqn ↔ _) ∧ _ := h.addedBy_iff hwf
  unfold StandsFor
  obtain ⟨hin, hcall⟩ | ⟨hout, ⟨call, hcall, c, hc, hlower, rfl⟩ | ⟨hnone, hinternal⟩⟩ :=
    resolved_cases hresolved
  · rw [if_pos hin]
    exact iff_of_true hcall fun hout => absurd hin hout
  · rw [if_neg hout, hadded]
    refine iff_of_false (hnew call hcall c hc _) fun hnot => hnot hout ⟨call, hcall, ?_⟩
    exact List.mem_map.mpr ⟨c, hc, hlower⟩
  · rw [if_neg hout, hadded]
    exact iff_of_true hinternal fun _ ⟨call, hcall, hmem⟩ => hnone call hcall hmem

/-- The calls for all classes are those that are wanted, unless a class was added before for
a dependency that is no descriptor's name. -/
theorem Follows.allRegistered_iff
    (h : Follows internal head calls taken)
    (hwf : WellFormed internal head)
    (hall : names head ⊆ calls.map Call.name) :
    AllRegistered internal head calls ↔ ∀ before d after, taken = before ++ d :: after →
      ∀ fqn ∈ d.deps, fqn ∉ names head → ¬ AddedBy before fqn := by
  obtain ⟨hnames, hmem, hnodup⟩ := h.names_eq
  constructor
  · intro hregistered before d after htaken fqn hdep
    obtain ⟨earlier, call, later, hcalls, hname, hresolves, hfollows⟩ := h.split_taken htaken
    obtain ⟨d', hd', hname', -, hstands⟩ := hregistered.inOrder earlier call later hcalls
    have hd : d ∈ head := hmem d (by simp [htaken])
    cases eq_of_name_eq hwf hd' hd (hname'.trans hname.symm)
    obtain ⟨ce, hzip, hce⟩ := hresolves.exists_resolved hdep
    exact (hfollows.standsFor_iff hwf hce).mp ((List.forall₂_iff_zip.mp hstands).2 hzip)
  · refine fun hnone => ⟨?_, fun earlier call later hcalls => ?_⟩
    · refine (List.perm_ext_iff_of_nodup (hnames ▸ hnodup) hwf.distinct).mpr fun name =>
        ⟨fun hname => ?_, fun hname => hall hname⟩
      rw [hnames] at hname
      exact List.map_subset _ hmem hname
    · obtain ⟨before, d, after, htaken, hd, hname, hmade, hresolves, hfollows⟩ := h.split hcalls
      refine ⟨d, hd, hname, hmade, List.forall₂_iff_zip.mpr ⟨hresolves.length_eq, ?_⟩⟩
      intro fqn ce hzip
      refine (hfollows.standsFor_iff hwf ((List.forall₂_iff_zip.mp hresolves).2 hzip)).mpr ?_
      exact hnone before d after htaken fqn (List.of_mem_zip hzip).1

/-- Where all classes can be registered, the dependencies are known and there is no cycle. -/
theorem AllRegistered.registrable
    (h : AllRegistered internal head calls)
    (hwf : WellFormed internal head) :
    Registrable internal head := by
  have hstands : ∀ earlier call later d, calls = earlier ++ call :: later → d ∈ head →
      call.name = d.name → ∀ fqn ∈ d.deps, ∃ ce, StandsFor internal head earlier fqn ce := by
    intro earlier call later d hcalls hd hname fqn hdep
    obtain ⟨d', hd', hname', -, hdeps⟩ := h.inOrder earlier call later hcalls
    cases eq_of_name_eq hwf hd' hd (hname'.trans hname)
    obtain ⟨i, hi, rfl⟩ := List.getElem_of_mem hdep
    exact ⟨_, hdeps.get hi (hdeps.length_eq ▸ hi)⟩
  refine ⟨fun d hd fqn hdep => ?_, ?_⟩
  · obtain ⟨call, hcall, hname⟩ := List.mem_map.mp (h.once.mem_iff.mpr (List.mem_map_of_mem hd))
    obtain ⟨earlier, later, hcalls⟩ := List.append_of_mem hcall
    obtain ⟨ce, hce⟩ := hstands earlier call later d hcalls hd hname fqn hdep
    unfold StandsFor at hce
    split at hce
    · rename_i hin
      exact .inl hin
    · exact .inr (hce ▸ rfl)
  · have hordered : Ordered (DependsOn head) (calls.map Call.name) := by
      intro before name after hsplit b ⟨d, hd, hname, hdep, hb⟩
      obtain ⟨earlier, rest, rfl, rfl, hrest⟩ := List.map_eq_append_iff.mp hsplit
      obtain ⟨call, later, rfl, rfl, -⟩ := List.map_eq_cons_iff.mp hrest
      obtain ⟨ce, hce⟩ := hstands earlier call later d rfl hd hname.symm b hdep
      unfold StandsFor at hce
      rw [if_pos hb] at hce
      obtain ⟨call', hcall', rfl, -⟩ := hce
      exact List.mem_map_of_mem hcall'
    intro a hcycle
    obtain ⟨b, ⟨d, hd, rfl, -⟩, -⟩ := Relation.TransGen.head'_iff.mp hcycle
    exact hordered.not_transGen_self (h.once.nodup_iff.mpr hwf.distinct)
      (h.once.mem_iff.mpr (List.mem_map_of_mem hd)) hcycle

theorem not_registrable_of_culprit {name : Bytes} (h : Culprit internal head name) :
    ¬ Registrable internal head := by
  intro hregistrable
  rcases h with ⟨d, hd, -, fqn, hdep, hunknown⟩ | ⟨b, -, hcycle⟩
  · exact hunknown (hregistrable.known d hd fqn hdep)
  · exact hregistrable.acyclic b hcycle

/-- A registration that gets through is right, if it registers all classes as wanted. -/
theorem registersRight_iff_of_ok
    (hwf : WellFormed internal head)
    (hminit : Minit internal head (.ok calls)) :
    RegistersRight internal head ↔ AllRegistered internal head calls := by
  constructor
  · intro hright
    by_cases hregistrable : Registrable internal head
    · obtain ⟨calls', hminit', hall⟩ := hright.1 hregistrable
      cases hminit.unique hminit'
      exact hall
    · obtain ⟨e, hminit', -⟩ := hright.2 hregistrable
      cases hminit.unique hminit'
  · exact fun hall => ⟨fun _ => ⟨calls, hminit, hall⟩, fun h => absurd (hall.registrable hwf) h⟩

/--
The registration of a list is right, unless something is overlooked.

It goes wrong exactly if it gets through and on the way a dependency that no
descriptor has for its name is found among the classes that earlier register
functions have added.
-/
theorem registersRight_iff
    (hwf : WellFormed internal head) :
    RegistersRight internal head ↔ ¬ Overlooked internal head := by
  obtain ⟨e, hminit, hculprit, hnot⟩ | ⟨calls, k, hminit, hthrough, hfollows, hall, hmax⟩ :=
    minit_cases hwf
  · refine iff_of_true ⟨fun h => absurd h (not_registrable_of_culprit hculprit), ?_⟩ ?_
    · exact fun _ => ⟨e, hminit, hculprit⟩
    · exact fun hover => hnot hover.toGetsThrough
  · rw [registersRight_iff_of_ok hwf hminit, hfollows.allRegistered_iff hwf hall]
    constructor
    · rintro hnone ⟨-, j, before, d, after, fqn, hj, hdep, hout, hadded⟩
      obtain ⟨rest, hrest⟩ := hmax j
      rw [hj, List.append_assoc, List.cons_append] at hrest
      exact hnone before d (after ++ rest) hrest.symm fqn hdep hout hadded
    · intro hnot before d after hk fqn hdep hout hadded
      exact hnot ⟨hthrough, k, before, d, after, fqn, hk, hdep, hout, hadded⟩

/-- Nothing is overlooked where every dependency that some register function adds is the name
of a descriptor. -/
theorem not_overlooked_of_added_mem
    (h : ∀ d ∈ head, ∀ fqn ∈ d.deps, AddedBy head fqn → fqn ∈ names head) :
    ¬ Overlooked internal head := by
  rintro ⟨-, k, before, d, after, fqn, hsplit, hdep, hout, e, he, hadds⟩
  have hmem : ∀ x ∈ before ++ d :: after, x ∈ head :=
    fun x hx => mem_of_mem_walks (ready head) (hsplit ▸ hx)
  exact hout (h d (hmem d (List.mem_append_right _ List.mem_cons_self)) fqn hdep
    ⟨e, hmem e (List.mem_append_left _ he), hadds⟩)

/-- A class made out of nothing, under its own name. -/
def plainClass (name : String) (deps : List String) : Descriptor Nat where
  name := ascii name
  deps := deps.map ascii
  adds := [zendStrTolower (ascii name)]
  register := fun resolved =>
    some ⟨resolved.length, [(zendStrTolower (ascii name), resolved.length)]⟩

theorem wellFormed_plainClasses
    {ds : List (Descriptor Nat)}
    (hdistinct : (names ds).Nodup)
    (hplain : ∀ d ∈ ds, ∃ name deps, d = plainClass name deps ∧ deps.length ≤ 8) :
    WellFormed (fun _ => none) ds where
  distinct := hdistinct
  few d hd := by
    obtain ⟨name, deps, rfl, hfew⟩ := hplain d hd
    simpa [plainClass, maxDepsPerClass] using hfew
  makes d hd resolved := by
    obtain ⟨name, deps, rfl, -⟩ := hplain d hd
    exact ⟨_, rfl, rfl, by simp⟩

theorem value_and_bigint_register_right :
    RegistersRight (fun _ => none)
      [plainClass "Cassandra\\Bigint" ["Cassandra\\Value"], plainClass "Cassandra\\Value" []] := by
  refine (registersRight_iff (wellFormed_plainClasses (by decide) ?_)).mpr
    (not_overlooked_of_added_mem ?_)
  · simp only [List.mem_cons, List.not_mem_nil, or_false, forall_eq_or_imp, forall_eq]
    exact ⟨⟨_, _, rfl, by decide⟩, ⟨_, _, rfl, by decide⟩⟩
  · simp only [List.mem_cons, List.not_mem_nil, or_false, forall_eq_or_imp, forall_eq]
    exact ⟨fun fqn hdep _ => List.mem_singleton.mp hdep ▸ by decide, fun fqn hdep => by cases hdep⟩

/-- A dependency in lower case is found or not, according to the order of the list. -/
theorem lower_case_dependency :
    Minit (fun _ => none)
        [plainClass "Cassandra\\Value" [], plainClass "Cassandra\\Bigint" ["cassandra\\value"]]
        (.ok [⟨ascii "Cassandra\\Value", [], 0, [(ascii "cassandra\\value", 0)]⟩,
          ⟨ascii "Cassandra\\Bigint", [0], 1, [(ascii "cassandra\\bigint", 1)]⟩]) ∧
      Minit (fun _ => none)
        [plainClass "Cassandra\\Bigint" ["cassandra\\value"], plainClass "Cassandra\\Value" []]
        (.error ⟨"scylladb registry: class '%s' declares dep '%s', which is neither " ++
          "registry-owned nor an internal class. An internal dep has to come " ++
          "from a module whose MINIT runs before this one", ascii "Cassandra\\Bigint",
          some (ascii "cassandra\\value")⟩) ∧
      ¬ RegistersRight (fun _ => none)
        [plainClass "Cassandra\\Value" [],
          plainClass "Cassandra\\Bigint" ["cassandra\\value"]] := by
  have hminit : Minit (fun _ => none)
      [plainClass "Cassandra\\Value" [], plainClass "Cassandra\\Bigint" ["cassandra\\value"]]
      (.ok [⟨ascii "Cassandra\\Value", [], 0, [(ascii "cassandra\\value", 0)]⟩,
        ⟨ascii "Cassandra\\Bigint", [0], 1, [(ascii "cassandra\\bigint", 1)]⟩]) :=
    ends_of_run (show run _ 2 _ = _ from rfl)
  refine ⟨hminit, ends_of_run (show run _ 1 _ = _ from rfl), fun hright => ?_⟩
  have hunknown : ¬ Registrable (fun _ => none)
      [plainClass "Cassandra\\Value" [], plainClass "Cassandra\\Bigint" ["cassandra\\value"]] := by
    intro hregistrable
    rcases hregistrable.known _ (.tail _ List.mem_cons_self) _ List.mem_cons_self with hmem | hsome
    · exact absurd hmem (by decide)
    · cases hsome
  obtain ⟨e, herror, -⟩ := hright.2 hunknown
  cases hminit.unique herror

end Registry
end ScyllaDriver
