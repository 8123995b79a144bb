import ScyllaDriver.Values.SharedHeap

/-!
# When the cached hashes are right

The hash of a container changes with a container it leads to, whose change sets
no other flag. So the cached hashes stay right along a run exactly if no call
changes the hash of another container whose flag is clear, and certainly if no
such container leads to the one that is changed.
-/

namespace ScyllaDriver
namespace Values
namespace Sharing

open CString CachedFold

namespace Heap

section

variable {hashFunc : Bytes → UInt32} {h : Heap} {n d : Nat} {container : Container}
  {object : Object}

theorem ranked_objects (h : Heap) : Ranked (membersOf h.objects) (rank h.objects) := by
  intro n m hm
  rw [membersOf] at hm
  cases hobject : h.objects[n]? with
  | none => simp [hobject] at hm
  | some object =>
    rw [hobject, Option.map_some, Option.getD_some, List.mem_map] at hm
    obtain ⟨member, hmember, hm⟩ := hm
    cases member with
    | atom a => cases hm
    | object k =>
      obtain rfl := Sum.inr.inj hm
      obtain ⟨type, htype, hlower⟩ := h.nested object (List.mem_of_getElem? hobject) _ hmember k rfl
      have hown : (typesOf h.objects)[n]? = some object.container.type := by
        rw [typesOf, List.getElem?_map, hobject, Option.map_some]
      simpa [rank, htype, hown] using hlower

theorem membersOf_withCache (objects : List Object) (cached : Nat → Option UInt32) :
    membersOf (withCache objects cached) = membersOf objects := by
  funext n
  rw [membersOf, membersOf, withCache, List.getElem?_mapIdx]
  cases objects[n]? with
  | none => rfl
  | some object => cases cached n <;> rfl

theorem membersOf_create (h : Heap) (container : Container) :
    membersOf (h.create container).objects = membersOf h.objects := by
  funext n
  rw [membersOf, membersOf, create]
  rcases lt_trichotomy n h.objects.length with hn | rfl | hn
  · rw [List.getElem?_append_left hn]
  · simp [Container.members_blank]
  · rw [List.getElem?_eq_none (by simp; omega), List.getElem?_eq_none (by omega)]

theorem membersOf_withContents_of_ne {objects : List Object} (hd : d ≠ n) :
    membersOf (withContents objects n container) d = membersOf objects d := by
  rw [membersOf, membersOf, withContents, List.getElem?_modify]
  simp [Ne.symm hd]

theorem mutate_of_none {use : Use} (hchanged : h.changed n use = none) : h.mutate n use = h := by
  unfold mutate
  split
  · rfl
  · next hsome => cases hchanged.symm.trans hsome

theorem objects_mutate_of_some {use : Use} (hchanged : h.changed n use = some container) :
    (h.mutate n use).objects = withContents h.objects n container := by
  unfold mutate
  split
  · next hnone => cases hchanged.symm.trans hnone
  · next hsome => rw [Option.some.inj (hchanged.symm.trans hsome)]

theorem rank_withContents {use : Use} (hchanged : h.changed n use = some container) :
    rank (withContents h.objects n container) = rank h.objects := by
  obtain ⟨self, hself, hused⟩ := Option.bind_eq_some_iff.mp hchanged
  have htype : ∀ object, h.objects[n]? = some object → container.type = object.container.type := by
    intro object hobject
    rw [hself] at hobject
    rw [(Container.used_spec hused).1, Option.some.inj hobject]
  funext d
  rw [rank, rank, typesOf_withContents htype]

theorem cachesRight_iff_right :
    h.CachesRight hashFunc ↔
      Right (Atom.hash hashFunc) combineHash 0 (membersOf h.objects) (rank h.objects)
        (cache h.objects) := by
  constructor
  · intro hright n hashv hcache
    obtain ⟨object, hobject, hvalue⟩ := Option.bind_eq_some_iff.mp hcache
    split at hvalue
    · cases hvalue
    · next hclean =>
        rw [← Option.some.inj hvalue]
        exact hright n object hobject (by simpa using hclean)
  · intro hright n object hobject hclean
    refine hright n object.hashv ?_
    rw [cache, hobject, Option.bind_some, hclean]
    rfl

theorem cachesRight_create (hright : h.CachesRight hashFunc) (container : Container) :
    (h.create container).CachesRight hashFunc := by
  intro n object hobject hclean
  have hmem : n < h.objects.length ∧ h.objects[n]? = some object := by
    rw [create, List.getElem?_append] at hobject
    split at hobject
    · next hn => exact ⟨hn, hobject⟩
    · rw [List.getElem?_singleton] at hobject
      split at hobject
      · cases hobject
        cases hclean
      · cases hobject
  rw [recomputed, membersOf_create]
  have hrank : rank (h.create container).objects n = rank h.objects n := by
    rw [rank, rank, create, typesOf, typesOf, List.map_append,
      List.getElem?_append_left (by simpa using hmem.1)]
  rw [hrank]
  exact hright n object hmem.2 hclean

theorem cachesRight_hash (hright : h.CachesRight hashFunc) (n : Nat) :
    (h.hash hashFunc n).CachesRight hashFunc := by
  have hvisit := (visit_spec (ranked_objects h) (Nat.lt_succ_self (rank h.objects n))
    (cachesRight_iff_right.mp hright)).2
  intro d object hobject hclean
  have hrecomputed : recomputed hashFunc (h.hash hashFunc n).objects d =
      recomputed hashFunc h.objects d := by
    rw [recomputed, recomputed, hash, membersOf_withCache]
    simp only [rank, typesOf_withCache]
  rw [hrecomputed]
  obtain ⟨old, hold, -, hcached⟩ := getElem?_withCache hobject
  rcases hcached hclean with hsome | ⟨-, hdirty, hsame⟩
  · exact hvisit d object.hashv hsome
  · rw [hsame]
    exact hright d old hold hdirty

theorem cachesRight_mutate_iff (hright : h.CachesRight hashFunc) (n : Nat) (use : Use) :
    (h.mutate n use).CachesRight hashFunc ↔ h.Harmless hashFunc (.mutate n use) := by
  cases hchanged : h.changed n use with
  | none =>
    rw [mutate_of_none hchanged]
    exact iff_of_true hright fun container hsome => nomatch hchanged.symm.trans hsome
  | some container =>
    have hother : ∀ d, d ≠ n → (withContents h.objects n container)[d]? = h.objects[d]? := by
      intro d hd
      rw [withContents, List.getElem?_modify]
      simp [Ne.symm hd]
    rw [CachesRight, objects_mutate_of_some hchanged]
    constructor
    · rintro hafter _ hsome d object hobject hd hclean
      obtain rfl := Option.some.inj (hchanged.symm.trans hsome)
      rw [← hafter d object (by rw [hother d hd, hobject]) hclean, ← hright d object hobject hclean]
    · intro hharmless d object hobject hclean
      by_cases hd : d = n
      · subst hd
        rw [withContents, List.getElem?_modify] at hobject
        obtain ⟨old, -, rfl⟩ := Option.map_eq_some_iff.mp hobject
        simp at hclean
      · rw [hother d hd] at hobject
        rw [hharmless container hchanged d object hobject hd hclean]
        exact hright d object hobject hclean

theorem cachesRight_step_iff (hright : h.CachesRight hashFunc) (e : Event) :
    (h.step hashFunc e).CachesRight hashFunc ↔ h.Harmless hashFunc e := by
  cases e with
  | create container => exact iff_of_true (cachesRight_create hright container) trivial
  | mutate n use => exact cachesRight_mutate_iff hright n use
  | hash n => exact iff_of_true (cachesRight_hash hright n) trivial

/-- A container that does not lead to the one that is changed keeps its hash. -/
theorem harmless_of_unshared {e : Event} (hunshared : h.Unshared e) : h.Harmless hashFunc e := by
  cases e with
  | create container => trivial
  | hash n => trivial
  | mutate n use =>
    intro container hchanged d object hobject hd hclean
    have hreach := hunshared d object hobject hd hclean
    rw [recomputed, recomputed, rank_withContents hchanged]
    refine total_congr (fun m hm => membersOf_withContents_of_ne ?_) _
    rintro rfl
    exact hreach hm

end

end Heap

/-- For every program: the cached hashes of its containers are right in every state
if and only if no call changes the hash of another container whose flag is clear.
That is so if no such container leads to the one that is called. -/
theorem cachesRight_iff_harmless
    (hashFunc : Bytes → UInt32)
    (events : List Event) :
    (Transition.Throughout (fun h e => some (Heap.step hashFunc h e))
        (Heap.CachesRight hashFunc) .empty events ↔
      Transition.EachStep (fun h e => some (Heap.step hashFunc h e))
        (Heap.Harmless hashFunc) .empty events) ∧
    (Transition.EachStep (fun h e => some (Heap.step hashFunc h e))
        Heap.Unshared .empty events →
      Transition.Throughout (fun h e => some (Heap.step hashFunc h e))
        (Heap.CachesRight hashFunc) .empty events) := by
  have hempty : Heap.empty.CachesRight hashFunc := fun _ _ hobject => nomatch hobject
  have hiff : Transition.Throughout (fun h e => some (Heap.step hashFunc h e))
        (Heap.CachesRight hashFunc) .empty events ↔
      Transition.EachStep (fun h e => some (Heap.step hashFunc h e))
        (Heap.Harmless hashFunc) .empty events := by
    refine Transition.throughout_iff_eachStep (fun _ => True) ?_ ?_ trivial hempty events
    · exact fun _ _ _ _ _ => trivial
    · rintro h e _ - hright ⟨⟩
      exact Heap.cachesRight_step_iff hright e
  refine ⟨hiff, fun hunshared => hiff.mpr (hunshared.mono ?_)⟩
  exact fun h e => Heap.harmless_of_unshared

/-- A list of ints in a list of lists, which is hashed; then 1 is added to the inner
list. -/
def innerChanged : Heap :=
  [Event.create (.collection (.scalar .int) [] 0),
    .create (.collection (.list (.scalar .int)) [] 0),
    .mutate 1 (.collectionAdd (.object 0) []),
    .hash 1,
    .mutate 0 (.collectionAdd (.atom (.long 1)) [])].foldl (Heap.step fun _ => 0) .empty

/-- The outer list is clean, and its cached hash is still that of the empty inner
list. -/
theorem innerChanged_not_cachesRight :
    ¬ innerChanged.CachesRight fun _ => 0 := by
  intro hright
  have houter : (innerChanged.objects[1]?).map Object.dirty = some false := by decide +kernel
  have hdiffer : (innerChanged.objects[1]?).map Object.hashv ≠
      some (Heap.recomputed (fun _ => 0) innerChanged.objects 1) := by decide +kernel
  obtain ⟨object, hobject, hclean⟩ := Option.map_eq_some_iff.mp houter
  rw [hobject, Option.map_some, hright 1 object hobject hclean] at hdiffer
  exact hdiffer rfl

end Sharing
end Values
end ScyllaDriver
