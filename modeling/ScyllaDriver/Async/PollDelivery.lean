import ScyllaDriver.Async.PollHandles

/-!
# Deliveries of the event loop

As long as the caller leaves the watchers of `watch` to the loop, the table and the futures
that were handed out account for every watch: each is in one of the two, once. This holds
at every point, also inside callbacks, under nested ticks and after exceptions.
-/

namespace ScyllaDriver
namespace Async
namespace Poll

open Transition

variable {lenient : Bool}

/-- The elements that pass 1 has been over. -/
def Frame.done : Frame → List Item
  | .waiting _ => []
  | .callback _ done _ => done

/-- The numbers of the watches in the table. -/
def State.tabled (s : State) : List Nat :=
  s.watched.values.map (·.watcher.id)

/-- A callback is called if there is one. -/
def HandOut.Proper (given : HandOut) : Prop :=
  given.channel = .callback ↔ given.watch.callback = true

/-- Every watch is in the table, was handed out, or was taken by the pass that runs. -/
structure Accounted (s : State) (taken : List HandOut) : Prop where
  sound : Sound s
  own : ∀ handle watch, s.watched.find handle = some watch →
    watch.watcher.handle = handle ∧ watch.watcher ∈ s.attached
  ids : ∀ v ∈ s.living, ∀ w ∈ s.living, v.id = w.id → v = w
  young : ∀ w ∈ s.living, w.id < s.fresh
  passed : ∀ frame ∈ s.frames, Plain s frame.done
  right : ∀ given ∈ taken, given.Right
  proper : ∀ given ∈ s.handedOut ++ taken, given.Proper
  issuedOld : ∀ id ∈ s.issued, id < s.fresh
  issuedNodup : s.issued.Nodup
  ledger : (s.tabled ++ (s.handedOut ++ taken).map (·.watch.watcher.id)).Perm s.issued

namespace Accounted

variable {s : State} {taken : List HandOut}

theorem initial : Accounted .initial [] where
  sound := .initial
  own := fun _ _ hfind => by simp [State.initial] at hfind
  ids := fun _ hv => by cases hv
  young := fun _ hw => by cases hw
  passed := fun _ hframe => by cases hframe
  right := fun _ hgiven => by cases hgiven
  proper := fun _ hgiven => by cases hgiven
  issuedOld := fun _ hid => by cases hid
  issuedNodup := List.nodup_nil
  ledger := List.Perm.nil

theorem issued (h : Accounted s taken) {handle : Nat} {watch : Watch}
    (hfind : s.watched.find handle = some watch) : watch.watcher.id ∈ s.issued :=
  h.ledger.subset (List.mem_append_left _
    (List.mem_map_of_mem (OrderedTable.mem_values_of_find hfind)))

theorem not_mem_keys (h : Accounted s taken) {handle : Nat} (hfree : s.Free handle) :
    handle ∉ s.watched.keys := by
  intro hkey
  obtain ⟨watch, hfind⟩ := Option.ne_none_iff_exists'.mp fun hnone =>
    OrderedTable.find_eq_none_iff.mp hnone hkey
  obtain ⟨hhandle, hattached⟩ := h.own handle watch hfind
  exact hfree (hhandle ▸ List.mem_map_of_mem (h.sound.attached _ hattached))

theorem removes (h : Accounted s taken) {w : Watcher} {watch : Watch} (hw : w ∈ s.living)
    (hfind : s.watched.find w.handle = some watch) : s.removes lenient w = true := by
  have hown := (h.own w.handle watch hfind).2
  rw [← h.sound.found hw hfind] at hown
  simp [State.removes, hown]

theorem plain_take {items : List Item} (h : Plain s items) (w : Watcher) :
    Plain (s.take w) items := by
  intro v watch hv hfind
  rw [State.take, OrderedTable.find_erase] at hfind
  exact h v watch hv (Option.ite_none_left_eq_some.mp hfind).2

theorem take (h : Accounted s taken) {w : Watcher} {watch : Watch} {channel : Channel}
    (hw : w ∈ s.living) (hfind : s.watched.find w.handle = some watch)
    (hproper : channel = .callback ↔ watch.callback = true) :
    Accounted (s.take w) (taken ++ [⟨watch, w, channel⟩]) where
  __ := h
  sound := h.sound.take w
  own := fun handle other hother => by
    rw [State.take, OrderedTable.find_erase] at hother
    obtain ⟨hne, hother⟩ := Option.ite_none_left_eq_some.mp hother
    obtain ⟨hhandle, hattached⟩ := h.own handle other hother
    have hneq : other.watcher ≠ w := by
      rintro rfl
      exact hne hhandle.symm
    exact ⟨hhandle, (List.mem_erase_of_ne hneq).mpr hattached⟩
  passed := fun frame hframe => plain_take (h.passed frame hframe) w
  right := fun given hgiven => by
    rcases List.mem_append.mp hgiven with hgiven | hgiven
    · exact h.right given hgiven
    · obtain rfl := List.mem_singleton.mp hgiven
      exact h.sound.found hw hfind
  proper := fun given hgiven => by
    rw [← List.append_assoc] at hgiven
    rcases List.mem_append.mp hgiven with hgiven | hgiven
    · exact h.proper given hgiven
    · obtain rfl := List.mem_singleton.mp hgiven
      exact hproper
  ledger := by
    refine List.Perm.trans ?_ h.ledger
    have hvalues : s.tabled.Perm ([watch.watcher.id] ++ (s.take w).tabled) :=
      (OrderedTable.values_perm_erase hfind).map fun found : Watch => found.watcher.id
    rw [← List.append_assoc, List.map_append, ← List.append_assoc]
    exact List.perm_append_comm.trans (hvalues.symm.append_right _)

theorem handOut (h : Accounted s taken) : Accounted (s.handOut taken) [] where
  __ := h
  sound := h.sound.handOut h.right
  right := fun _ hgiven => by cases hgiven
  proper := fun given hgiven => h.proper given (by simpa [State.handOut] using hgiven)
  ledger := by
    have hledger := h.ledger
    rw [← List.append_nil (s.handedOut ++ taken)] at hledger
    exact hledger

theorem push (h : Accounted s taken) {frame : Frame}
    (hliving : ∀ w, some w ∈ frame.items → w ∈ s.living) (hplain : Plain s frame.done) :
    Accounted (s.push frame) taken :=
  { h with
    sound := h.sound.push hliving
    passed := fun f hf => (List.mem_cons.mp hf).elim (fun heq => heq ▸ hplain) (h.passed f) }

theorem wait (h : Accounted s taken) (caller : Caller) : Accounted (s.wait caller) taken := by
  unfold State.wait
  split_ifs
  · exact h
  · exact h.push (fun _ hw => by cases hw) (.nil s)

theorem pop (h : Accounted s taken) {frame : Frame} {frames : List Frame}
    (hframes : s.frames = frame :: frames) : Accounted { s with frames := frames } taken :=
  { h with
    sound := h.sound.pop hframes
    passed := fun f hf => h.passed f (hframes ▸ .tail _ hf) }

theorem attach (h : Accounted s taken) {handle : Nat} (hfree : s.Free handle) :
    Accounted (s.attach handle) taken where
  __ := h
  sound := h.sound.attach hfree (h.not_mem_keys hfree)
  own := fun other watch hfind => by
    obtain ⟨hhandle, hattached⟩ := h.own other watch hfind
    exact ⟨hhandle, .tail _ hattached⟩
  ids := fun v hv w hw hid => by
    rcases List.mem_cons.mp hv with rfl | hv
    · rcases List.mem_cons.mp hw with rfl | hw
      · rfl
      · exact absurd hid (h.young w hw).ne'
    · rcases List.mem_cons.mp hw with rfl | hw
      · exact absurd hid (h.young v hv).ne
      · exact h.ids v hv w hw hid
  young := fun w hw => by
    rcases List.mem_cons.mp hw with rfl | hw
    · exact Nat.lt_succ_self _
    · exact Nat.lt_succ_of_lt (h.young w hw)
  issuedOld := fun id hid => Nat.lt_succ_of_lt (h.issuedOld id hid)

theorem plain_watch {items : List Item} (h : Plain s items)
    (hliving : ∀ w, some w ∈ items → w ∈ s.living) {handle : Nat} (hfree : s.Free handle)
    (future : Nat) (callback : Bool) : Plain (s.watch handle future callback) items := by
  intro w watch hw hfind
  rw [State.watch, OrderedTable.find_update] at hfind
  split_ifs at hfind with hhandle
  · exact absurd (hhandle ▸ List.mem_map_of_mem (hliving w hw)) hfree
  · exact h w watch hw hfind

theorem watch (h : Accounted s taken) {handle : Nat} (hfree : s.Free handle) (future : Nat)
    (callback : Bool) : Accounted (s.watch handle future callback) taken := by
  have hattach := h.attach hfree
  exact
    { hattach with
      sound := h.sound.watch hfree future callback
      own := fun other watch hfind => by
        rw [State.watch, OrderedTable.find_update] at hfind
        split_ifs at hfind with hother
        · cases hfind
          exact ⟨hother.symm, .head _⟩
        · exact hattach.own other watch hfind
      passed := fun frame hframe => plain_watch (h.passed frame hframe)
        (fun w hw => h.sound.pinned frame hframe w
          (by cases frame <;> simp_all [Frame.done, Frame.items]))
        hfree future callback
      issuedOld := fun id hid => by
        rcases List.mem_cons.mp hid with rfl | hid
        · exact Nat.lt_succ_self _
        · exact Nat.lt_succ_of_lt (h.issuedOld id hid)
      issuedNodup := List.nodup_cons.mpr
        ⟨fun hid => absurd (h.issuedOld _ hid) (Nat.lt_irrefl _), h.issuedNodup⟩
      ledger := by
        have htabled : (s.watch handle future callback).tabled = s.tabled ++ [s.fresh] := by
          simp only [State.tabled, State.watch,
            OrderedTable.values_update_of_not_mem (h.not_mem_keys hfree), List.map_append,
            List.map_singleton]
        rw [htabled]
        have hlast : (s.tabled ++ [s.fresh]).Perm (s.fresh :: s.tabled) := List.perm_append_comm
        exact (hlast.append_right _).trans (h.ledger.cons s.fresh) }

theorem detach (h : Accounted s taken) {w : Watcher} (hw : w.id ∉ s.issued) :
    Accounted { s with attached := s.attached.erase w } taken :=
  { h with
    sound := h.sound.detach w
    own := fun handle watch hfind => by
      obtain ⟨hhandle, hattached⟩ := h.own handle watch hfind
      have hne : watch.watcher ≠ w := by
        rintro rfl
        exact hw (h.issued hfind)
      exact ⟨hhandle, (List.mem_erase_of_ne hne).mpr hattached⟩ }

theorem destroy (h : Accounted s taken) {w : Watcher} (hattached : w ∉ s.attached)
    (hpinned : ¬ s.Pinned w) : Accounted { s with living := s.living.erase w } taken :=
  { h with
    sound := h.sound.destroy hattached hpinned
    ids := fun u hu v hv => h.ids u (List.mem_of_mem_erase hu) v (List.mem_of_mem_erase hv)
    young := fun v hv => h.young v (List.mem_of_mem_erase hv) }

theorem secondPass (h : Accounted s []) {items : List Item}
    (hitems : ∀ w, some w ∈ items → w ∈ s.living) (hplain : Plain s items) (caller : Caller) :
    Accounted (finish caller (secondPass lenient caller.channel s [] items)) [] := by
  have hchannel : caller.channel ≠ .callback := by cases caller <;> decide
  obtain ⟨hended, haccounted, -, -⟩ :
      (Poll.secondPass lenient caller.channel s [] items).2.2 = true ∧
        Accounted (Poll.secondPass lenient caller.channel s [] items).1
          (Poll.secondPass lenient caller.channel s [] items).2.1 ∧ _ ∧ _ :=
    secondPass_keeps
      (P := fun s' taken ended =>
        ended = true ∧ Accounted s' taken ∧ s'.living = s.living ∧ Plain s' items)
      (fun s' taken w watch hw hP hfind _ => by
        obtain ⟨-, hs', hliving, hs'plain⟩ := hP
        have hcallback := hs'plain w watch hw hfind
        exact ⟨rfl, hs'.take (hliving ▸ hitems w hw) hfind (by simp [hchannel, hcallback]),
          hliving, plain_take hs'plain w⟩)
      (fun s' taken w watch hw hP hfind hrefused => by
        obtain ⟨-, hs', hliving, -⟩ := hP
        rw [hs'.removes (hliving ▸ hitems w hw) hfind] at hrefused
        cases hrefused)
      ⟨rfl, h, rfl, hplain⟩
  generalize Poll.secondPass lenient caller.channel s [] items = result at hended haccounted
  obtain ⟨s', taken, ended⟩ := result
  obtain rfl : ended = true := hended
  cases caller with
  | tick => exact haccounted.handOut
  | run => exact haccounted.handOut.wait .run

theorem firstPass (h : Accounted s []) {done items : List Item}
    (hitems : ∀ w, some w ∈ done ++ items → w ∈ s.living) (hplain : Plain s done)
    (caller : Caller) : Accounted (firstPass lenient caller s done items) [] := by
  have hpasses := firstPass_passes lenient caller s done items
  generalize Poll.firstPass lenient caller s done items = s' at hpasses
  cases hpasses with
  | ended hrest => exact h.secondPass hitems (hplain.append hrest) caller
  | @called pre post w watch hpre hfind hcallback _ =>
    have hw : w ∈ s.living := hitems w (by simp)
    refine ((h.take hw hfind (by simp [hcallback])).handOut).push (fun v hv => hitems v ?_) ?_
    · simpa [Frame.items, or_assoc] using hv
    · refine ((plain_take hplain w).append (plain_take hpre w)).append fun v found hv hfound => ?_
      obtain rfl : v = w := by simpa using hv
      rw [State.take, OrderedTable.find_erase, if_pos rfl] at hfound
      cases hfound
  | @refused pre post w watch hfind hrefused =>
    rw [h.removes (hitems w (by simp)) hfind] at hrefused
    cases hrefused

end Accounted

/-- The caller does not remove the watchers that `watch` returns. -/
def LeavesWatchers (s : State) : Event → Prop
  | .detach w => w.id ∉ s.issued
  | _ => True

instance (s : State) : (e : Event) → Decidable (LeavesWatchers s e)
  | .detach w => inferInstanceAs (Decidable (w.id ∉ s.issued))
  | .watch _ _ _ | .add _ | .destroy _ | .tick | .run | .waited _ | .returns | .throws =>
    isTrue trivial

theorem Accounted.step {s s' : State} {e : Event} (h : Accounted s [])
    (hleaves : LeavesWatchers s e) (hstep : step lenient s e = some s') : Accounted s' [] := by
  cases steps_of_step hstep with
  | watch future callback hfree => exact h.watch hfree future callback
  | add hfree => exact h.attach hfree
  | detach w => exact h.detach hleaves
  | destroy hattached hpinned => exact h.destroy hattached hpinned
  | tick => exact h.wait .tick
  | run => exact h.wait .run
  | @notArray caller frames hframes =>
    cases caller with
    | tick => exact (h.pop hframes).handOut
    | run => exact (h.pop hframes).handOut.wait .run
  | reported hframes hitems =>
    exact (h.pop hframes).firstPass (fun w hw => h.sound.attached w (hitems w hw)) (.nil _) _
  | @returned caller done rest frames hframes =>
    have hframe : Frame.callback caller done rest ∈ s.frames := by simp [hframes]
    exact (h.pop hframes).firstPass (h.sound.pinned _ hframe) (h.passed _ hframe) caller
  | failed hframes | thrown hframes => exact h.pop hframes

namespace Accounted

variable {s : State}

theorem nodup (h : Accounted s []) : (s.tabled ++ s.delivered).Nodup := by
  have hledger := h.ledger
  rw [List.append_nil] at hledger
  exact hledger.nodup_iff.mpr h.issuedNodup

theorem undelivered (h : Accounted s []) : (s.issued.filter (· ∉ s.delivered)).Perm s.tabled := by
  have hledger := h.ledger
  rw [List.append_nil] at hledger
  obtain ⟨-, -, hdisjoint⟩ := List.nodup_append.mp h.nodup
  have hfilter : (s.tabled ++ s.delivered).filter (· ∉ s.delivered) = s.tabled := by
    have hkept : s.tabled.filter (· ∉ s.delivered) = s.tabled :=
      List.filter_eq_self.mpr fun id hid => by
        simpa using fun hdelivered => hdisjoint id hid id hdelivered rfl
    have hgone : s.delivered.filter (· ∉ s.delivered) = [] :=
      List.filter_eq_nil_iff.mpr fun id hid => by simpa using hid
    rw [List.filter_append, hkept, hgone, List.append_nil]
  exact (hledger.symm.filter _).trans (List.Perm.of_eq hfilter)

theorem kept (h : Accounted s []) {w : Watcher} (hw : w ∈ s.living) (hissued : w.id ∈ s.issued)
    (hdelivered : w.id ∉ s.delivered) :
    ∃ watch, s.watched.find w.handle = some watch ∧ watch.watcher = w ∧ w ∈ s.attached := by
  have htabled := h.undelivered.subset (List.mem_filter.mpr ⟨hissued, by simpa using hdelivered⟩)
  obtain ⟨watch, hwatch, hid⟩ := List.mem_map.mp htabled
  obtain ⟨handle, hfind⟩ := OrderedTable.find_of_mem_values hwatch
  obtain ⟨hhandle, hattached⟩ := h.own handle watch hfind
  obtain rfl := h.ids _ (h.sound.attached _ hattached) w hw hid
  exact ⟨watch, hhandle ▸ hfind, rfl, hattached⟩

end Accounted

/--
In every run in which the caller leaves the watchers of `watch` alone, no watch is delivered
twice, `pending` counts the watches that were not delivered, and a callback that throws
leaves every watch of its tick that was reported and not delivered in the table, and added.
A future leaves through its callback exactly if it has one.
-/
theorem poll_delivers_once
    (lenient : Bool)
    {s : State}
    (hreach : Reachable (step lenient) LeavesWatchers .initial s) :
    s.delivered.Nodup ∧
    (∀ given ∈ s.handedOut, given.watch.watcher.id ∈ s.issued ∧ given.Proper) ∧
    s.pending = (s.issued.filter (· ∉ s.delivered)).length ∧
    ∀ caller done rest frames s', s.frames = .callback caller done rest :: frames →
      step lenient s .throws = some s' →
      ∀ w, some w ∈ done ++ rest → w.id ∈ s'.issued → w.id ∉ s'.delivered →
        ∃ watch, s'.watched.find w.handle = some watch ∧ watch.watcher = w ∧ w ∈ s'.attached := by
  have h : Accounted s [] := hreach.invariant .initial fun _ _ _ => Accounted.step
  refine ⟨h.nodup.of_append_right, fun given hgiven => ⟨?_, ?_⟩, ?_, ?_⟩
  · refine h.ledger.subset (List.mem_append_right _ (List.mem_map_of_mem ?_))
    simpa using hgiven
  · exact h.proper given (by simpa using hgiven)
  · rw [h.undelivered.length_eq, State.tabled, List.length_map, OrderedTable.values,
      List.length_map, State.pending]
  · intro caller done rest frames s' hframes hstep w hw hissued hdelivered
    have h' : Accounted s' [] := h.step (e := .throws) trivial hstep
    refine h'.kept ?_ hissued hdelivered
    simp only [step, hframes] at hstep
    cases hstep
    exact h.sound.pinned (.callback caller done rest) (by simp [hframes]) w hw

/-- Three watches are reported; the first callback calls `tick` again, whose callback
throws, and the exception leaves both ticks. -/
def nestedRun : Option State :=
  exec (step false) LeavesWatchers .initial
    [.watch 1 100 true, .watch 2 101 true, .watch 3 102 false, .tick,
      .waited (.reported [some ⟨2, 3⟩, some ⟨0, 1⟩, some ⟨1, 2⟩]), .tick,
      .waited (.reported [some ⟨1, 2⟩, some ⟨2, 3⟩]), .throws, .throws]

theorem nested_ticks_deliver_once :
    (nestedRun.getD .initial).delivered = [0, 1] ∧ (nestedRun.getD .initial).pending = 1 ∧
      (nestedRun.getD .initial).delivered.Nodup := by
  have hrun : nestedRun = some (nestedRun.getD .initial) := rfl
  exact ⟨rfl, rfl, (poll_delivers_once false (.of_exec hrun)).1⟩

end Poll
end Async
end ScyllaDriver
