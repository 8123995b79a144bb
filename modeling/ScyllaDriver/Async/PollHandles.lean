import ScyllaDriver.Async.PollLoop

/-!
# Handles of watchers in the event loop

The table of watched futures outlives a watcher that the caller removes: the entry stays
under the handle, and the handle can come back with another object. A watcher of `watch`
then takes the entry's place, but one that the caller adds through `context` does not, and
is taken for the old one when it is reported.

`Separate` excludes just that step. Along runs of separate steps every future is handed
out for its own watcher, and after any other step a tick can hand out a wrong one.
-/

namespace ScyllaDriver
namespace Async
namespace Poll

open Transition

variable {lenient : Bool}

/-- No element has an entry with a callback. -/
def Plain (s : State) (items : List Item) : Prop :=
  ∀ w watch, some w ∈ items → s.watched.find w.handle = some watch → watch.callback = false

theorem Plain.nil (s : State) : Plain s [] :=
  fun _ _ hw => by cases hw

theorem Plain.append {s : State} {items items' : List Item} (h : Plain s items)
    (h' : Plain s items') : Plain s (items ++ items') := by
  intro w watch hw hfind
  rcases List.mem_append.mp hw with hw | hw
  · exact h w watch hw hfind
  · exact h' w watch hw hfind

/-- What pass 1 comes to: there is no callback and pass 2 follows, or the first element
with a callback is taken, or the context refuses to remove it. -/
inductive Passes
    (lenient : Bool)
    (caller : Caller)
    (s : State)
    (done : List Item) :
    List Item → State → Prop
  | ended {items : List Item} :
      Plain s items →
      Passes lenient caller s done items
        (finish caller (secondPass lenient caller.channel s [] (done ++ items)))
  | called {pre post : List Item} {w : Watcher} {watch : Watch} :
      Plain s pre →
      s.watched.find w.handle = some watch →
      watch.callback = true →
      s.removes lenient w = true →
      Passes lenient caller s done (pre ++ some w :: post)
        (((s.take w).handOut [⟨watch, w, .callback⟩]).push
          (.callback caller (done ++ pre ++ [some w]) post))
  | refused (pre post : List Item) {w : Watcher} {watch : Watch} :
      s.watched.find w.handle = some watch →
      s.removes lenient w = false →
      Passes lenient caller s done (pre ++ some w :: post) (s.take w)

theorem Passes.cons {caller : Caller} {s s' : State} {done items : List Item} {item : Item}
    (hplain : Plain s [item]) (h : Passes lenient caller s (done ++ [item]) items s') :
    Passes lenient caller s done (item :: items) s' := by
  cases h with
  | ended hrest =>
    have hend : Passes lenient caller s done ([item] ++ items) _ := .ended (hplain.append hrest)
    rwa [← List.append_assoc] at hend
  | @called pre post w watch hpre hfind hcallback hremoves =>
    have hcall : Passes lenient caller s done ([item] ++ pre ++ some w :: post) _ :=
      .called (hplain.append hpre) hfind hcallback hremoves
    rwa [← List.append_assoc done] at hcall
  | @refused pre post w watch hfind hrefused =>
    exact .refused (item :: pre) post hfind hrefused

theorem firstPass_passes (lenient : Bool) (caller : Caller) (s : State) (done items : List Item) :
    Passes lenient caller s done items (firstPass lenient caller s done items) := by
  induction items generalizing done with
  | nil =>
    have hend : Passes lenient caller s done [] _ := .ended (Plain.nil s)
    rwa [List.append_nil] at hend
  | cons item items ih =>
    cases item with
    | none => exact .cons (fun _ _ hw => by simp at hw) (ih (done ++ [none]))
    | some w =>
      simp only [firstPass]
      split
      · next hfind =>
          refine .cons (fun v watch hv hfound => ?_) (ih (done ++ [some w]))
          obtain rfl : v = w := by simpa using hv
          rw [hfind] at hfound
          cases hfound
      · next watch hfind =>
          split_ifs with hcallback hremoves
          · have hcall : Passes lenient caller s done ([] ++ some w :: items) _ :=
              .called (Plain.nil s) hfind hcallback hremoves
            rwa [List.append_nil] at hcall
          · exact .refused [] items hfind (by simpa using hremoves)
          · refine .cons (fun v found hv hfound => ?_) (ih (done ++ [some w]))
            obtain rfl : v = w := by simpa using hv
            obtain rfl : watch = found := Option.some.inj (hfind.symm.trans hfound)
            simpa using hcallback

/-- What every take of pass 2 keeps, with the futures taken and with whether the context
still accepts to remove, pass 2 keeps. -/
theorem secondPass_keeps {P : State → List HandOut → Bool → Prop} {channel : Channel}
    {items : List Item}
    (htake : ∀ s taken w watch, some w ∈ items → P s taken true →
      s.watched.find w.handle = some watch → s.removes lenient w = true →
      P (s.take w) (taken ++ [⟨watch, w, channel⟩]) true)
    (hrefuse : ∀ s taken w watch, some w ∈ items → P s taken true →
      s.watched.find w.handle = some watch → s.removes lenient w = false →
      P (s.take w) taken false) {s : State} {taken : List HandOut} (h : P s taken true) :
    P (secondPass lenient channel s taken items).1 (secondPass lenient channel s taken items).2.1
      (secondPass lenient channel s taken items).2.2 := by
  induction items generalizing s taken with
  | nil => exact h
  | cons item items ih =>
    have hrest := @ih (fun s taken w watch hw => htake s taken w watch (.tail _ hw))
      (fun s taken w watch hw => hrefuse s taken w watch (.tail _ hw))
    cases item with
    | none => exact hrest h
    | some w =>
      cases hfind : s.watched.find w.handle with
      | none =>
        simp only [secondPass, hfind]
        exact hrest h
      | some watch =>
        simp only [secondPass, hfind]
        split
        · next hremoves => exact hrest (htake s taken w watch (.head _) h hfind hremoves)
        · next hrefused =>
            exact hrefuse s taken w watch (.head _) h hfind (by simpa using hrefused)

inductive Steps
    (lenient : Bool)
    (s : State) :
    Event → State → Prop
  | watch {handle : Nat} (future : Nat) (callback : Bool) :
      s.Free handle →
      Steps lenient s (.watch handle future callback) (s.watch handle future callback)
  | add {handle : Nat} :
      s.Free handle →
      Steps lenient s (.add handle) (s.attach handle)
  | detach (w : Watcher) :
      Steps lenient s (.detach w) { s with attached := s.attached.erase w }
  | destroy {w : Watcher} :
      w ∉ s.attached →
      ¬ s.Pinned w →
      Steps lenient s (.destroy w) { s with living := s.living.erase w }
  | tick : Steps lenient s .tick (s.wait .tick)
  | run : Steps lenient s .run (s.wait .run)
  | failed {caller : Caller} {frames : List Frame} :
      s.frames = .waiting caller :: frames →
      Steps lenient s (.waited .failed) { s with frames := frames }
  | notArray {caller : Caller} {frames : List Frame} :
      s.frames = .waiting caller :: frames →
      Steps lenient s (.waited .notArray) (finish caller ({ s with frames := frames }, [], true))
  | reported {caller : Caller} {frames : List Frame} {items : List Item} :
      s.frames = .waiting caller :: frames →
      (∀ w, some w ∈ items → w ∈ s.attached) →
      Steps lenient s (.waited (.reported items))
        (firstPass lenient caller { s with frames := frames } [] items)
  | returned {caller : Caller} {done rest : List Item} {frames : List Frame} :
      s.frames = .callback caller done rest :: frames →
      Steps lenient s .returns (firstPass lenient caller { s with frames := frames } done rest)
  | thrown {caller : Caller} {done rest : List Item} {frames : List Frame} :
      s.frames = .callback caller done rest :: frames →
      Steps lenient s .throws { s with frames := frames }

theorem of_guard {c : Prop} [Decidable c] {s s' : State}
    (h : (if c then some s else none) = some s') : c ∧ s = s' := by
  obtain ⟨hc, heq⟩ := Option.ite_none_right_eq_some.mp h
  exact ⟨hc, Option.some.inj heq⟩

theorem steps_of_step {s s' : State} {e : Event} (h : step lenient s e = some s') :
    Steps lenient s e s' := by
  cases e with
  | watch handle future callback =>
    obtain ⟨⟨-, hfree⟩, rfl⟩ := of_guard h
    exact .watch future callback hfree
  | add handle =>
    obtain ⟨⟨-, hfree⟩, rfl⟩ := of_guard h
    exact .add hfree
  | detach w =>
    obtain ⟨-, rfl⟩ := of_guard h
    exact .detach w
  | destroy w =>
    obtain ⟨⟨hattached, hpinned⟩, rfl⟩ := of_guard h
    exact .destroy hattached hpinned
  | tick =>
    obtain ⟨-, rfl⟩ := of_guard h
    exact .tick
  | run =>
    obtain ⟨-, rfl⟩ := of_guard h
    exact .run
  | waited result =>
    simp only [step] at h
    split at h
    · next hframes =>
        cases result with
        | failed =>
          cases h
          exact .failed hframes
        | notArray =>
          cases h
          exact .notArray hframes
        | reported items =>
          obtain ⟨⟨-, hitems⟩, rfl⟩ := of_guard h
          exact .reported hframes fun w hw => hitems w (by simpa [watchers] using hw)
    · cases h
  | returns =>
    simp only [step] at h
    split at h
    · next hframes =>
        cases h
        exact .returned hframes
    · cases h
  | throws =>
    simp only [step] at h
    split at h
    · next hframes =>
        cases h
        exact .thrown hframes
    · cases h

/-- The future was handed out for its own watcher. -/
def HandOut.Right (given : HandOut) : Prop :=
  given.reported = given.watch.watcher

/-- Every future was handed out when its own watcher was reported. -/
def State.HandsOutRight (s : State) : Prop :=
  ∀ given ∈ s.handedOut, given.Right

/-- No object but the entry's own watcher has the entry's handle. -/
structure Sound (s : State) : Prop where
  handles : (s.living.map Watcher.handle).Nodup
  attached : ∀ w ∈ s.attached, w ∈ s.living
  pinned : ∀ frame ∈ s.frames, ∀ w, some w ∈ frame.items → w ∈ s.living
  keyed : ∀ handle watch, s.watched.find handle = some watch →
    ∀ w ∈ s.living, w.handle = handle → w = watch.watcher
  old : ∀ handle watch, s.watched.find handle = some watch → watch.watcher.id < s.fresh
  right : s.HandsOutRight

namespace Sound

variable {s : State}

theorem initial : Sound .initial where
  handles := List.nodup_nil
  attached := fun _ hw => by cases hw
  pinned := fun _ hframe => by cases hframe
  keyed := fun _ _ hfind => by simp [State.initial] at hfind
  old := fun _ _ hfind => by simp [State.initial] at hfind
  right := fun _ hgiven => by cases hgiven

theorem take (h : Sound s) (w : Watcher) : Sound (s.take w) where
  __ := h
  attached := fun v hv => h.attached v (List.mem_of_mem_erase hv)
  keyed := fun handle watch hfind => by
    rw [State.take, OrderedTable.find_erase] at hfind
    exact h.keyed handle watch (Option.ite_none_left_eq_some.mp hfind).2
  old := fun handle watch hfind => by
    rw [State.take, OrderedTable.find_erase] at hfind
    exact h.old handle watch (Option.ite_none_left_eq_some.mp hfind).2

theorem handOut (h : Sound s) {given : List HandOut} (hgiven : ∀ g ∈ given, g.Right) :
    Sound (s.handOut given) :=
  { h with
    right := fun g hg => (List.mem_append.mp hg).elim (h.right g) (hgiven g) }

theorem push (h : Sound s) {frame : Frame} (hframe : ∀ w, some w ∈ frame.items → w ∈ s.living) :
    Sound (s.push frame) :=
  { h with
    pinned := fun f hf => (List.mem_cons.mp hf).elim (fun heq => heq ▸ hframe) (h.pinned f) }

theorem wait (h : Sound s) (caller : Caller) : Sound (s.wait caller) := by
  unfold State.wait
  split_ifs
  · exact h
  · exact h.push fun _ hw => by cases hw

theorem pop (h : Sound s) {frame : Frame} {frames : List Frame}
    (hframes : s.frames = frame :: frames) : Sound { s with frames := frames } :=
  { h with pinned := fun f hf => h.pinned f (hframes ▸ .tail _ hf) }

theorem attach (h : Sound s) {handle : Nat} (hfree : s.Free handle)
    (hkeys : handle ∉ s.watched.keys) :
    Sound (s.attach handle) where
  handles := List.nodup_cons.mpr ⟨hfree, h.handles⟩
  attached := fun w hw => (List.mem_cons.mp hw).elim (fun heq => heq ▸ .head _)
    fun hw => .tail _ (h.attached w hw)
  pinned := fun frame hframe w hw => .tail _ (h.pinned frame hframe w hw)
  keyed := fun other watch hfind w hw hhandle => by
    rcases List.mem_cons.mp hw with rfl | hw
    · have hnone := OrderedTable.find_eq_none_iff.mpr hkeys
      rw [show handle = other from hhandle] at hnone
      exact absurd (hnone.symm.trans hfind) (by simp)
    · exact h.keyed other watch hfind w hw hhandle
  old := fun other watch hfind => Nat.lt_succ_of_lt (h.old other watch hfind)
  right := h.right

theorem watch (h : Sound s) {handle : Nat} (hfree : s.Free handle) (future : Nat)
    (callback : Bool) :
    Sound (s.watch handle future callback) where
  handles := List.nodup_cons.mpr ⟨hfree, h.handles⟩
  attached := fun w hw => (List.mem_cons.mp hw).elim (fun heq => heq ▸ .head _)
    fun hw => .tail _ (h.attached w hw)
  pinned := fun frame hframe w hw => .tail _ (h.pinned frame hframe w hw)
  keyed := fun other watch hfind w hw hhandle => by
    rw [State.watch, OrderedTable.find_update] at hfind
    split_ifs at hfind with hother
    · cases hfind
      rcases List.mem_cons.mp hw with rfl | hw
      · rfl
      · exact absurd (hother ▸ hhandle ▸ List.mem_map_of_mem hw) hfree
    · rcases List.mem_cons.mp hw with rfl | hw
      · exact absurd hhandle.symm hother
      · exact h.keyed other watch hfind w hw hhandle
  old := fun other watch hfind => by
    rw [State.watch, OrderedTable.find_update] at hfind
    split_ifs at hfind with hother
    · cases hfind
      exact Nat.lt_succ_self _
    · exact Nat.lt_succ_of_lt (h.old other watch hfind)
  right := h.right

theorem detach (h : Sound s) (w : Watcher) : Sound { s with attached := s.attached.erase w } :=
  { h with attached := fun v hv => h.attached v (List.mem_of_mem_erase hv) }

theorem destroy (h : Sound s) {w : Watcher} (hattached : w ∉ s.attached) (hpinned : ¬ s.Pinned w) :
    Sound { s with living := s.living.erase w } where
  __ := h
  handles := h.handles.sublist (List.erase_sublist.map _)
  attached := fun v hv => by
    have hne : v ≠ w := by
      rintro rfl
      exact hattached hv
    exact (List.mem_erase_of_ne hne).mpr (h.attached v hv)
  pinned := fun frame hframe v hv => by
    have hne : v ≠ w := by
      rintro rfl
      exact hpinned ⟨frame, hframe, hv⟩
    exact (List.mem_erase_of_ne hne).mpr (h.pinned frame hframe v hv)
  keyed := fun handle watch hfind v hv => h.keyed handle watch hfind v (List.mem_of_mem_erase hv)

theorem found (h : Sound s) {w : Watcher} {watch : Watch} (hw : w ∈ s.living)
    (hfind : s.watched.find w.handle = some watch) : w = watch.watcher :=
  h.keyed w.handle watch hfind w hw rfl

theorem finish (h : Sound s) {taken : List HandOut} (htaken : ∀ g ∈ taken, g.Right)
    (caller : Caller) (ended : Bool) : Sound (finish caller (s, taken, ended)) := by
  cases caller <;> cases ended
  · exact h
  · exact h.handOut htaken
  · exact h.handOut htaken
  · exact (h.handOut htaken).wait .run

theorem secondPass (h : Sound s) {items : List Item} (hitems : ∀ w, some w ∈ items → w ∈ s.living)
    (caller : Caller) :
    Sound (Poll.finish caller (secondPass lenient caller.channel s [] items)) := by
  obtain ⟨hsound, -, hright⟩ :
      Sound (Poll.secondPass lenient caller.channel s [] items).1 ∧ _ ∧
        ∀ g ∈ (Poll.secondPass lenient caller.channel s [] items).2.1, g.Right :=
    secondPass_keeps (P := fun s' taken _ => Sound s' ∧ s'.living = s.living ∧ ∀ g ∈ taken, g.Right)
      (fun s' taken w watch hw hP hfind _ => by
        obtain ⟨hs', hliving, htaken⟩ := hP
        refine ⟨hs'.take w, hliving, fun g hg => ?_⟩
        rcases List.mem_append.mp hg with hg | hg
        · exact htaken g hg
        · obtain rfl := List.mem_singleton.mp hg
          exact hs'.found (hliving ▸ hitems w hw) hfind)
      (fun s' taken w watch _ hP _ _ => ⟨hP.1.take w, hP.2⟩)
      ⟨h, rfl, fun _ hg => by cases hg⟩
  exact hsound.finish hright caller _

theorem firstPass (h : Sound s) {done items : List Item}
    (hitems : ∀ w, some w ∈ done ++ items → w ∈ s.living) (caller : Caller) :
    Sound (firstPass lenient caller s done items) := by
  have hpasses := firstPass_passes lenient caller s done items
  generalize Poll.firstPass lenient caller s done items = s' at hpasses
  cases hpasses with
  | ended _ => exact h.secondPass hitems caller
  | @called pre post w watch _ hfind _ _ =>
    refine ((h.take w).handOut fun g hg => ?_).push fun v hv => hitems v ?_
    · obtain rfl := List.mem_singleton.mp hg
      exact h.found (hitems w (by simp)) hfind
    · simpa [Frame.items, or_assoc] using hv
  | @refused pre post w watch _ _ => exact h.take w

end Sound

/-- A watcher that the caller adds does not get the handle of an entry. -/
def Separate (s : State) : Event → Prop
  | .add handle => handle ∉ s.watched.keys
  | _ => True

theorem Sound.step {s s' : State} {e : Event} (h : Sound s) (hseparate : Separate s e)
    (hstep : step lenient s e = some s') : Sound s' := by
  cases steps_of_step hstep with
  | watch future callback hfree => exact h.watch hfree future callback
  | add hfree => exact h.attach hfree hseparate
  | detach w => exact h.detach w
  | destroy hattached hpinned => exact h.destroy hattached hpinned
  | tick => exact h.wait .tick
  | run => exact h.wait .run
  | notArray hframes => exact (h.pop hframes).finish (fun _ hg => by cases hg) _ true
  | reported hframes hitems =>
    exact (h.pop hframes).firstPass (fun w hw => h.attached w (hitems w hw)) _
  | @returned caller done rest frames hframes =>
    exact (h.pop hframes).firstPass
      (h.pinned (.callback caller done rest) (by simp [hframes])) caller
  | failed hframes | thrown hframes => exact h.pop hframes

theorem Sound.reachable {s s' : State} (h : Sound s)
    (hreach : Reachable (Poll.step lenient) Separate s s') : Sound s' :=
  hreach.invariant h fun _ _ _ hsound hseparate hstep => hsound.step hseparate hstep

theorem firstPass_single {s : State} {w : Watcher} {watch : Watch} (hattached : w ∈ s.attached)
    (hfind : s.watched.find w.handle = some watch) :
    ∃ channel, ⟨watch, w, channel⟩ ∈ (firstPass lenient .tick s [] [some w]).handedOut := by
  have hremoves : s.removes lenient w = true := by simp [State.removes, hattached]
  by_cases hcallback : watch.callback = true
  · refine ⟨.callback, ?_⟩
    simp [firstPass, hfind, hcallback, hremoves, State.push, State.handOut]
  · refine ⟨.slot, ?_⟩
    simp [firstPass, secondPass, finish, hfind, hcallback, hremoves, State.handOut, Caller.channel]

/-- After a watcher was added under the handle of an entry, a tick can hand out the
entry's future for it. -/
theorem wrong_after_add {s s' : State} {handle : Nat} (h : Sound s)
    (hstep : step lenient s (.add handle) = some s') (hkey : handle ∈ s.watched.keys) :
    ∃ s'', Reachable (step lenient) Separate s' s'' ∧ ¬ s''.HandsOutRight := by
  obtain ⟨⟨huser, -⟩, rfl⟩ := of_guard hstep
  obtain ⟨watch, hfind⟩ := Option.ne_none_iff_exists'.mp fun hnone =>
    OrderedTable.find_eq_none_iff.mp hnone hkey
  have hentries : s.watched.entries ≠ [] := by
    intro hnil
    simp [OrderedTable.keys, hnil] at hkey
  have htick : step lenient (s.attach handle) .tick =
      some ((s.attach handle).push (.waiting .tick)) := by
    have huser' : (s.attach handle).user = true := huser
    have hwait : (s.attach handle).wait .tick = (s.attach handle).push (.waiting .tick) :=
      if_neg hentries
    simp only [step, huser', if_true, hwait]
  have hreports : (s.attach handle).Reports [some ⟨s.fresh, handle⟩] := by
    refine ⟨by simp [watchers], fun w hw => ?_⟩
    obtain rfl : w = ⟨s.fresh, handle⟩ := by simpa [watchers] using hw
    exact .head _
  have hwaited : step lenient ((s.attach handle).push (.waiting .tick))
      (.waited (.reported [some ⟨s.fresh, handle⟩])) =
        some (firstPass lenient .tick (s.attach handle) [] [some ⟨s.fresh, handle⟩]) :=
    if_pos hreports
  obtain ⟨channel, hgiven⟩ : ∃ channel, ⟨watch, ⟨s.fresh, handle⟩, channel⟩ ∈
      (firstPass lenient .tick (s.attach handle) [] [some ⟨s.fresh, handle⟩]).handedOut :=
    firstPass_single (.head _) hfind
  refine ⟨_, (Reachable.init.step (e := .tick) trivial htick).step
    (e := .waited (.reported [some ⟨s.fresh, handle⟩])) trivial hwaited, fun hright => ?_⟩
  have hold := h.old handle watch hfind
  have heq : (⟨s.fresh, handle⟩ : Watcher) = watch.watcher := hright _ hgiven
  rw [← heq] at hold
  exact absurd hold (Nat.lt_irrefl _)

/--
A run in which the caller adds no watcher under the handle of an entry hands out every
future for its own watcher. After such a run a step keeps this, whatever follows, exactly
if it is separate again.
-/
theorem handed_out_right_iff
    (lenient : Bool) :
    (∀ events, EachStep (step lenient) Separate .initial events →
      Throughout (step lenient) State.HandsOutRight .initial events) ∧
    ∀ s e s', Reachable (step lenient) Separate .initial s → step lenient s e = some s' →
      (Separate s e ↔ ∀ s'', Reachable (step lenient) Separate s' s'' → s''.HandsOutRight) := by
  refine ⟨fun events heach => heach.throughout Sound (fun _ _ _ => Sound.step)
    (fun _ => Sound.right) .initial, fun s e s' hreach hstep => ?_⟩
  have hsound := Sound.initial.reachable hreach
  constructor
  · intro hseparate s'' hreach'
    exact ((hsound.step hseparate hstep).reachable hreach').right
  · intro hright
    cases e with
    | add handle =>
      intro hkey
      obtain ⟨s'', hreach', hwrong⟩ := wrong_after_add hsound hstep hkey
      exact hwrong (hright s'' hreach')
    | _ => trivial

/-- The watcher of a watched future is removed and destroyed, and one for something else
gets its handle: the future is handed out when that one is reported. -/
theorem handed_out_for_other_watcher :
    ((exec (step false) (fun _ _ => True) .initial
      [.watch 7 100 false, .detach ⟨0, 7⟩, .destroy ⟨0, 7⟩, .add 7, .tick,
        .waited (.reported [some ⟨1, 7⟩])]).map State.handedOut) =
      some [⟨⟨100, false, ⟨0, 7⟩⟩, ⟨1, 7⟩, .slot⟩] := by
  decide

end Poll
end Async
end ScyllaDriver
