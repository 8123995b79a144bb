import ScyllaDriver.Async.ReactorStep

/-!
# Records and Future objects

A record pins its Future object, and the object's `reactor_reg` slot points
back to the record. `ObjectMove` says what a move does to this relation: it
leaves it alone, gives an unregistered object a descriptor of its own, takes
an object for a new record, or releases the object of a record.

`add()` checks that an object is free before it takes it. `reactor_reclaim`
takes the objects of a discarded array without that check; where they are free
nonetheless, no future has two records, or a record and a descriptor.
-/

namespace ScyllaDriver
namespace Async

open Linked Transition

/-- The records that have an object: the registered ones and the one under
construction. -/
def State.records (s : State) : List Addr :=
  s.registered ++ s.opCreating

/-- `reactor_reclaim` is about to create a record for the object. -/
def Reclaims (s : State) (e : Event) (o : Obj) : Prop :=
  ∃ fresh entry entries head tail back,
    e = .main fresh ∧ entry.obj = o ∧ s.op = some (.reclaim (entry :: entries) head tail back)

inductive ObjectMove (s : State) (e : Event) (s' : State) : Prop
  | keep :
      (∀ a, a ∈ s'.records ↔ a ∈ s.records) →
      (∀ a ∈ s.records, s'.heap.futureObj a = s.heap.futureObj a) →
      s'.slots = s.slots →
      s'.notifier = s.notifier →
      ObjectMove s e s'
  | watch {o : Obj} :
      s.slots o = none →
      s' =
        { s with
          notifier := Function.update s.notifier o true
          futures := s'.futures } →
      ObjectMove s e s'
  | take {reg : Addr} {o : Obj} :
      reg ∉ s.records →
      (s.slots o = none ∧ s.notifier o = false ∨ Reclaims s e o) →
      (∀ a, a ∈ s'.records ↔ a = reg ∨ a ∈ s.records) →
      s'.heap.futureObj = Function.update s.heap.futureObj reg (some o) →
      s'.slots = Function.update s.slots o (some reg) →
      s'.notifier = s.notifier →
      ObjectMove s e s'
  | release {reg : Addr} :
      reg ∈ s.records →
      (∀ a, a ∈ s'.records ↔ a ∈ s.records ∧ a ≠ reg) →
      (∀ a ∈ s'.records, s'.heap.futureObj a = s.heap.futureObj a) →
      s'.slots = (s.clearSlot reg).slots →
      s'.notifier = s.notifier →
      ObjectMove s e s'

section Moves

variable {futureOf : Obj → Option CassFuture} {s s' : State} {e : Event}

theorem Control.creating_eq {op : Option Op} (h : Control s e op) :
    op.elim [] Op.creating = s.opCreating := by
  cases h with
  | stay => rfl
  | @already _ reg inner hop hflag =>
    cases inner <;> simp [State.addContinue, State.opCreating, hop, Op.creating, AddPhase.creating]
  | _ => simp_all [State.opCreating, Op.creating, AddPhase.creating]

theorem ObjectMove.of_eq
    (hregistered : s'.registered = s.registered)
    (hcreating : s'.opCreating = s.opCreating)
    (hobj : s'.heap.futureObj = s.heap.futureObj)
    (hslots : s'.slots = s.slots)
    (hnotifier : s'.notifier = s.notifier) :
    ObjectMove s e s' := by
  refine .keep (fun a => ?_) (fun a _ => congrFun hobj a) hslots hnotifier
  rw [State.records, State.records, hregistered, hcreating]

theorem ObjectMove.linked
    {reg : Addr}
    (hregistered : s'.registered = reg :: s.registered)
    (hcreating : s.opCreating = [reg])
    (hcreating' : s'.opCreating = [])
    (hobj : s'.heap.futureObj = s.heap.futureObj)
    (hslots : s'.slots = s.slots)
    (hnotifier : s'.notifier = s.notifier) :
    ObjectMove s e s' := by
  refine .keep (fun a => ?_) (fun a _ => congrFun hobj a) hslots hnotifier
  rw [State.records, State.records, hregistered, hcreating, hcreating']
  simp [or_comm]

theorem ObjectMove.unregistered
    (hshape : Shape s)
    {reg : Addr}
    (hreg : reg ∈ s.registered)
    (hcreating : s.opCreating = [])
    (hcreating' : s'.opCreating = [])
    (hregistered : s'.registered = s.registered.erase reg)
    (hobj : ∀ a, a ≠ reg → s'.heap.futureObj a = s.heap.futureObj a)
    (hslots : s'.slots = (s.clearSlot reg).slots)
    (hnotifier : s'.notifier = s.notifier) :
    ObjectMove s e s' := by
  have hrecords : ∀ a, a ∈ s'.records ↔ a ∈ s.records ∧ a ≠ reg := by
    intro a
    rw [State.records, State.records, hregistered, hcreating, hcreating',
      List.append_nil, List.append_nil]
    constructor
    · intro ha
      refine ⟨List.mem_of_mem_erase ha, ?_⟩
      rintro rfl
      exact hshape.not_mem_erase a ha
    · rintro ⟨ha, hne⟩
      exact (List.mem_erase_of_ne hne).mpr ha
  refine .release (List.mem_append_left _ hreg) hrecords ?_ hslots hnotifier
  exact fun a ha => hobj a ((hrecords a).mp ha).2

theorem ObjectMove.created
    (hshape : Shape s)
    {reg : Addr}
    {o : Obj}
    {callback : Option Callable}
    {ticket : Nat}
    {op : Op}
    (hdead : s.heap.live reg = false)
    (hfree : s.slots o = none ∧ s.notifier o = false ∨ Reclaims s e o)
    (hcreating : s.opCreating = [])
    (hcreating' : op.creating = [reg]) :
    ObjectMove s e { s.regCreate futureOf reg o callback ticket with op := some op } := by
  refine .take ?_ hfree ?_ rfl rfl rfl
  · intro hmem
    apply hshape.not_mem_owned_of_dead hdead
    rw [State.records, hcreating, List.append_nil] at hmem
    exact List.mem_append_left _ hmem
  · intro a
    change a ∈ s.registered ++ op.creating ↔ _
    rw [State.records, hcreating, hcreating']
    simp [or_comm]

theorem Move.objectMove (hshape : Shape s) (hmove : Move futureOf s e s') : ObjectMove s e s' := by
  cases hmove with
  | control fd raised hcontrol =>
    exact .of_eq rfl hcontrol.creating_eq rfl rfl rfl
  | describe hfree | watch hfree hunset => exact .watch hfree rfl
  | create hop hfree hnotifier hdead =>
    exact .created hshape hdead (.inl ⟨hfree, hnotifier⟩) (by simp [State.opCreating, hop]) rfl
  | recreate hop hdead =>
    exact .created hshape hdead (.inr ⟨_, _, _, _, _, _, rfl, rfl, hop⟩)
      (by simp [State.opCreating, hop, Op.creating]) rfl
  | link hop =>
    refine .linked rfl (by simp [State.opCreating, hop, Op.creating, AddPhase.creating])
      ?_ rfl rfl rfl
    simp only [State.opCreating, Option.elim_some, Op.creating]
    split_ifs <;> rfl
  | relink hop =>
    exact .linked rfl (by simp [State.opCreating, hop, Op.creating]) rfl rfl rfl rfl
  | accepted hop hfuture hunset =>
    refine .of_eq rfl ?_ rfl rfl rfl
    simp only [State.opCreating, hop, Option.elim_some, Op.creating]
    split_ifs <;> rfl
  | rollback raised hop hreg =>
    exact .unregistered hshape hreg
      (by simp [State.opCreating, hop, Op.creating, AddPhase.creating])
      rfl rfl (fun a _ => rfl) rfl rfl
  | claim hop hflag =>
    exact .of_eq rfl (by simp [State.opCreating, hop, Op.creating, AddPhase.creating]) rfl rfl rfl
  | @pushOwn _ reg inner hop =>
    refine .of_eq rfl ?_ rfl rfl rfl
    cases inner <;> simp [State.addContinue, State.opCreating, hop, Op.creating, AddPhase.creating]
  | empty hop hreg hobj =>
    exact .unregistered hshape hreg (by simp [State.opCreating, hop, Op.creating]) rfl rfl
      (fun a _ => rfl) (by simp [State.clearSlot, hobj, State.regRelease])
      rfl
  | collect hop hreg hobj =>
    refine .unregistered hshape hreg (by simp [State.opCreating, hop, Op.creating]) rfl rfl
      (fun a hne => ?_) (by simp [State.clearSlot, hobj]) rfl
    exact Function.update_of_ne hne _ _
  | call hop hreg hobj =>
    exact .unregistered hshape hreg (by simp [State.opCreating, hop, Op.creating]) rfl rfl
      (fun a _ => rfl) (by simp [State.clearSlot, hobj]) rfl
  | @callbackEnds _ c callers exn hop hcallers =>
    have hcaller : c.reg ∈ s.callerRegs := by
      simp [State.callerRegs, hcallers]
    have hold : s.opCreating = [] := by simp [State.opCreating, hop]
    have hnew : (s.callbackEnds c callers exn).opCreating = [] := by
      simp only [State.opCreating, State.callbackEnds]
      split_ifs
      · cases c.head <;> rfl
      · rfl
    refine .keep (fun a => ?_) (fun a ha => ?_) rfl rfl
    · rw [State.records, State.records, hnew, hold]
      rfl
    · rw [State.records, hold, List.append_nil] at ha
      apply Function.update_of_ne
      rintro rfl
      exact hshape.caller_not_registered hcaller ha
  | @requeue _ after head tail walked hop =>
    refine .of_eq rfl ?_ rfl rfl rfl
    cases after <;> simp [State.afterRequeue, State.opCreating, hop, Op.creating]
  | splice hop | deliver hop | drainSplice hop =>
    exact .of_eq rfl (by simp [State.opCreating, hop, Op.creating]) rfl rfl rfl
  | discard hop hreg =>
    refine .unregistered hshape hreg (by simp [State.opCreating, hop, Op.creating]) rfl rfl
      (fun a hne => ?_) rfl rfl
    exact Function.update_of_ne hne _ _
  | _ => exact .of_eq rfl rfl rfl rfl rfl

end Moves

/-- A record pins its Future object from its creation to its dispatch. -/
def Pinned (s : State) : Prop :=
  ∀ a ∈ s.records, s.heap.futureObj a ≠ none

theorem pinned_initial : Pinned initial := by
  simp [Pinned, initial, State.records, State.opCreating]

variable {futureOf : Obj → Option CassFuture} {s : State}

theorem Pinned.move
    {s' : State}
    {e : Event}
    (h : Pinned s)
    (hshape : Shape s)
    (hmove : Move futureOf s e s') :
    Pinned s' := by
  intro a ha
  cases hmove.objectMove hshape with
  | keep hrecords hobj hslots hnotifier =>
    have hold := (hrecords a).mp ha
    rw [hobj a hold]
    exact h a hold
  | watch hfree hnext =>
    rw [hnext] at ha ⊢
    exact h a ha
  | @take reg o hnew hfree hrecords hobj hslots hnotifier =>
    rw [hobj, Function.update_apply]
    split_ifs with hreg
    · simp
    · exact h a (((hrecords a).mp ha).resolve_left hreg)
  | release hreg hrecords hobj hslots hnotifier =>
    rw [hobj a ha]
    exact h a ((hrecords a).mp ha).1

/-- Records keep their object along every run without stale callbacks. -/
theorem pinned_step
    {s' : State}
    {e : Event}
    (hshape : Shape s)
    (h : Pinned s)
    (hstale : ¬ Stale s e)
    (hstep : step futureOf s e = some s') :
    Pinned s' :=
  h.move hshape (step_move hshape hstale hstep)

/-- The slot of an object points to its record, and an object with a record
has no descriptor of its own. -/
structure SlotsSound (s : State) : Prop where
  slot_iff : ∀ o a, s.slots o = some a ↔ a ∈ s.records ∧ s.heap.futureObj a = some o
  exclusive : ∀ o a, s.slots o = some a → s.notifier o = false

theorem slotsSound_initial : SlotsSound initial := by
  constructor <;> simp [initial, State.records, State.opCreating]

/-- A record that `reactor_reclaim` creates is for a free object: the check of
`php_scylladb_future_claim_reactor`, which it does not make, would pass. -/
def ReclaimsFree (s : State) : Event → Prop
  | .main _ =>
    match s.op with
    | some (.reclaim (entry :: _) _ _ _) =>
      (claimReactor (s.slots entry.obj) (s.notifier entry.obj)).isOk
    | _ => True
  | _ => True

instance (s : State) : DecidablePred (ReclaimsFree s)
  | .main _ => by
    dsimp only [ReclaimsFree]
    split <;> infer_instance
  | .add .. | .poll _ | .pending | .getResource .. | .forFuture _ | .callbackReturns
  | .callbackThrows | .bailout | .shutdown | .resolve _ | .fire .. | .push _ => isTrue trivial

theorem ReclaimsFree.free
    {e : Event}
    {o : Obj}
    (h : ReclaimsFree s e)
    (hreclaims : Reclaims s e o) :
    s.slots o = none ∧ s.notifier o = false := by
  obtain ⟨fresh, entry, entries, head, tail, back, rfl, rfl, hop⟩ := hreclaims
  simp only [ReclaimsFree, hop, claimReactor] at h
  split_ifs at h with hslot hnotifier
  · simp [Except.isOk, Except.toBool] at h
  · simp [Except.isOk, Except.toBool] at h
  · exact ⟨by simpa using hslot, by simpa using hnotifier⟩

namespace SlotsSound

variable {futureOf : Obj → Option CassFuture} {s s' : State} {e : Event}

theorem take
    (h : SlotsSound s)
    {reg : Addr}
    {o : Obj}
    (hnew : reg ∉ s.records)
    (hslot : s.slots o = none)
    (hfree : s.notifier o = false)
    (hrecords : ∀ a, a ∈ s'.records ↔ a = reg ∨ a ∈ s.records)
    (hobj : s'.heap.futureObj = Function.update s.heap.futureObj reg (some o))
    (hslots : s'.slots = Function.update s.slots o (some reg))
    (hnotifier : s'.notifier = s.notifier) :
    SlotsSound s' := by
  constructor
  case slot_iff =>
    intro o' a
    rw [hslots, hobj, hrecords, Function.update_apply, Function.update_apply]
    by_cases ha : a = reg
    · subst ha
      by_cases ho : o' = o
      · simp [ho]
      · have hother : s.slots o' ≠ some a := fun hmem =>
          hnew ((h.slot_iff o' a).mp hmem).1
        simp [ho, hother, Ne.symm ho]
    · by_cases ho : o' = o
      · subst ho
        have hother : ¬ (a ∈ s.records ∧ s.heap.futureObj a = some o') := by
          rw [← h.slot_iff, hslot]
          simp
        simpa [ha, Ne.symm ha] using hother
      · simp [ha, ho, h.slot_iff]
  case exclusive =>
    intro o' a ha
    rw [hnotifier]
    rw [hslots, Function.update_apply] at ha
    split_ifs at ha with ho
    · rw [ho]
      exact hfree
    · exact h.exclusive o' a ha

theorem release
    (h : SlotsSound s)
    {reg : Addr}
    (hpinned : Pinned s)
    (hreg : reg ∈ s.records)
    (hrecords : ∀ a, a ∈ s'.records ↔ a ∈ s.records ∧ a ≠ reg)
    (hobj : ∀ a ∈ s'.records, s'.heap.futureObj a = s.heap.futureObj a)
    (hslots : s'.slots = (s.clearSlot reg).slots)
    (hnotifier : s'.notifier = s.notifier) :
    SlotsSound s' := by
  obtain ⟨o, ho⟩ := Option.ne_none_iff_exists'.mp (hpinned reg hreg)
  have hcleared : s'.slots = Function.update s.slots o none := by
    rw [hslots]
    simp [State.clearSlot, ho]
  -- the slot of `o` pointed to `reg`, and no other slot did
  have hslot : ∀ o' a, s'.slots o' = some a ↔ s.slots o' = some a ∧ a ≠ reg := by
    intro o' a
    rw [hcleared, Function.update_apply]
    split_ifs with heq
    · subst heq
      have hself := (h.slot_iff o' reg).mpr ⟨hreg, ho⟩
      simp only [hself, Option.some.injEq, false_iff, not_and, not_not]
      exact fun h => h.symm
    · refine ⟨fun hmem => ⟨hmem, ?_⟩, And.left⟩
      rintro rfl
      obtain ⟨-, ho'⟩ := (h.slot_iff o' a).mp hmem
      exact heq (Option.some.inj (ho'.symm.trans ho))
  constructor
  case slot_iff =>
    intro o' a
    rw [hslot, h.slot_iff]
    constructor
    · rintro ⟨⟨ha, hao⟩, hne⟩
      have ha' := (hrecords a).mpr ⟨ha, hne⟩
      exact ⟨ha', (hobj a ha').trans hao⟩
    · rintro ⟨ha, hao⟩
      obtain ⟨hold, hne⟩ := (hrecords a).mp ha
      exact ⟨⟨hold, (hobj a ha).symm.trans hao⟩, hne⟩
  case exclusive =>
    intro o' a ha
    rw [hnotifier]
    exact h.exclusive o' a ((hslot o' a).mp ha).1

theorem move
    (h : SlotsSound s)
    (hshape : Shape s)
    (hpinned : Pinned s)
    (hfree : ReclaimsFree s e)
    (hmove : Move futureOf s e s') :
    SlotsSound s' := by
  cases hmove.objectMove hshape with
  | keep hrecords hobj hslots hnotifier =>
    constructor
    · intro o a
      rw [hslots, hrecords, h.slot_iff]
      exact and_congr_right fun ha => by rw [hobj a ha]
    · intro o a ha
      rw [hnotifier]
      exact h.exclusive o a (by rwa [hslots] at ha)
  | @watch o hslot hnext =>
    rw [hnext]
    refine ⟨h.slot_iff, fun o' a ha => ?_⟩
    have hne : o' ≠ o := by
      rintro rfl
      exact absurd (hslot.symm.trans ha) (by simp)
    exact (Function.update_of_ne hne _ _).trans (h.exclusive o' a ha)
  | take hnew hclaim hrecords hobj hslots hnotifier =>
    obtain ⟨hslot, hwatched⟩ := hclaim.elim id hfree.free
    exact h.take hnew hslot hwatched hrecords hobj hslots hnotifier
  | release hreg hrecords hobj hslots hnotifier =>
    exact h.release hpinned hreg hrecords hobj hslots hnotifier

end SlotsSound

/-- No stale callback, and `reactor_reclaim` finds its objects free. -/
def ClaimsChecked (s : State) (e : Event) : Prop :=
  ¬ Stale s e ∧ ReclaimsFree s e

instance (s : State) (e : Event) : Decidable (ClaimsChecked s e) :=
  inferInstanceAs (Decidable (_ ∧ _))

theorem claimsChecked_invariant (hreach : Reachable (step futureOf) ClaimsChecked initial s) :
    Shape s ∧ Pinned s ∧ SlotsSound s := by
  induction hreach with
  | init => exact ⟨shape_initial, pinned_initial, slotsSound_initial⟩
  | step _ hchecked hstep ih =>
    obtain ⟨hshape, hpinned, hslots⟩ := ih
    have hmove := step_move hshape hchecked.1 hstep
    exact ⟨hshape.move hmove, hpinned.move hshape hmove,
      hslots.move hshape hpinned hchecked.2 hmove⟩

/-- The records of the registered list that stand for the object. -/
def State.recordsOf (s : State) (o : Obj) : List Addr :=
  s.registered.filter fun a => s.heap.futureObj a = some o

/--
One async model per future.

Between two top-level calls every future has at most one record on the
registered list, its slot points to the record exactly when there is one, and
a future with a record has no descriptor of its own.
-/
theorem one_model_per_future
    {futureOf : Obj → Option CassFuture}
    {s : State}
    (hreach : Reachable (step futureOf) ClaimsChecked initial s)
    (htop : s.TopLevel)
    (o : Obj) :
    (s.recordsOf o).length ≤ 1 ∧
      (∀ a, s.slots o = some a ↔ a ∈ s.recordsOf o) ∧
      (s.recordsOf o ≠ [] → s.notifier o = false) := by
  obtain ⟨hshape, hpinned, hslots⟩ := claimsChecked_invariant hreach
  have hslot : ∀ a, s.slots o = some a ↔ a ∈ s.recordsOf o := by
    intro a
    rw [hslots.slot_iff]
    simp [State.records, State.recordsOf, State.opCreating, htop.1]
  refine ⟨?_, hslot, ?_⟩
  · have hnodup : (s.recordsOf o).Nodup :=
      (List.nodup_iff_count_le_one.mpr hshape.registered_count_le).filter _
    rw [← List.toFinset_card_of_nodup hnodup, Finset.card_le_one]
    intro a ha b hb
    rw [List.mem_toFinset, ← hslot] at ha hb
    exact Option.some.inj (ha.symm.trans hb)
  · intro hne
    obtain ⟨a, ha⟩ := List.exists_mem_of_ne_nil _ hne
    exact hslots.exclusive o a ((hslot a).mpr ha)

/-- A callback throws after future 0 was collected, and future 0 gets a new
record. -/
theorem one_model_per_future_reclaimed :
    ∃ s, exec (step fun _ => none) ClaimsChecked initial
        [.add 0 none 10, .main 0, .main 0, .main 0,
          .add 1 (some 7) 11, .main 0, .main 0, .main 0,
          .poll none, .main 0, .main 0, .main 0, .main 0, .callbackThrows,
          .main 0, .main 12, .main 0, .main 0, .main 0] = some s ∧
      s.recordsOf 0 = [12] ∧ s.notifier 0 = false := by
  refine ⟨_, rfl, rfl, ?_⟩
  exact (one_model_per_future (Reachable.of_exec
    (rfl : exec (step fun _ => none) ClaimsChecked initial
        [.add 0 none 10, .main 0, .main 0, .main 0,
          .add 1 (some 7) 11, .main 0, .main 0, .main 0,
          .poll none, .main 0, .main 0, .main 0, .main 0, .callbackThrows,
          .main 0, .main 12, .main 0, .main 0, .main 0] = some _))
    ⟨rfl, rfl⟩ 0).2.2 (by decide)

/-- The callback of future 1 takes the collected future 0 and throws, and
`reactor_reclaim` creates a record for future 0 all the same. If the callback
adds future 0 again, it has two records; if it asks for a descriptor, it has a
record and a descriptor. -/
theorem two_models_reclaimed :
    (∃ s, exec (step fun _ => none) (fun s e => ¬ Stale s e) initial
        [.add 0 none 10, .main 0, .main 0, .main 0,
          .add 1 (some 7) 11, .main 0, .main 0, .main 0,
          .poll none, .main 0, .main 0, .main 0, .main 0,
          .add 0 none 13, .main 0, .main 0, .main 0, .callbackThrows,
          .main 0, .main 12, .main 0, .main 0, .main 0] = some s ∧
      s.TopLevel ∧ s.recordsOf 0 = [12, 13]) ∧
    ∃ s, exec (step fun _ => none) (fun s e => ¬ Stale s e) initial
        [.add 0 none 10, .main 0, .main 0, .main 0,
          .add 1 (some 7) 11, .main 0, .main 0, .main 0,
          .poll none, .main 0, .main 0, .main 0, .main 0,
          .getResource 0 true, .callbackThrows,
          .main 0, .main 12, .main 0, .main 0, .main 0] = some s ∧
      s.TopLevel ∧ s.recordsOf 0 = [12] ∧ s.notifier 0 = true :=
  ⟨⟨_, rfl, ⟨rfl, rfl⟩, rfl⟩, ⟨_, rfl, ⟨rfl, rfl⟩, rfl, rfl⟩⟩

end Async
end ScyllaDriver
