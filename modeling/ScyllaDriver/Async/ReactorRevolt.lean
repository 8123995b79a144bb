import ScyllaDriver.Async.ReactorHandOut
import ScyllaDriver.Library.OrderedTable

/-!
# `ReactorRevolt::await`

The adapter registers a future with the reactor, notes the fiber's suspension in
`$waiters` and suspends the fiber. One watcher of the event loop calls `poll()`
and resumes the fibers of the futures it returns; when nobody waits any more it
is cancelled.

The adapter is a machine around the machine of the reactor: its events are those
of the reactor, with `add()` and `poll()` called from `await` and from the
watcher's closure. Other code may register futures too, and its callbacks run
inside the adapter's `poll()`, where they may throw, await, or wait.

A future a fiber awaits is registered or in the array of a running `poll()`
(`Located`), and the array comes back to the watcher's closure or is put back
into the reactor.
-/

namespace ScyllaDriver
namespace Async

open Transition

namespace State

/-- The entries in the arrays of the running `poll()` calls. -/
def arrays (s : State) : List Entry :=
  s.callerOuts ++ s.opCollected

/-- A record without callback is registered, or about to be, for the object; no
`add()` is busy with it. -/
def Holds (s : State) (o : Obj) (a : Addr) : Prop :=
  a ∈ s.records ∧ s.heap.futureObj a = some o ∧ s.heap.callback a = none ∧
    ∀ phase, s.op ≠ some (.add a phase)

/-- The object is registered without callback or collected by a `poll()`. -/
def Located (s : State) (o : Obj) : Prop :=
  (∃ a, s.Holds o a) ∨ ∃ entry ∈ s.arrays, entry.obj = o

end State

section

variable {futureOf : Obj → Option CassFuture} {s s' : State} {e : Event} {o : Obj}

attribute [local grind =] State.arrays State.Holds State.callerOuts State.opCollected
  State.records State.opCreating Op.creating Op.collected State.addContinue State.afterRequeue
  State.stepReclaimLink State.callbackEnds State.startRequeue

theorem State.Located.of_kept (h : s.Located o) (hholds : ∀ a, s.Holds o a → s'.Holds o a)
    (harrays : ∀ entry ∈ s.arrays, entry ∈ s'.arrays) : s'.Located o :=
  h.imp (fun ⟨a, ha⟩ => ⟨a, hholds a ha⟩)
    fun ⟨entry, hentry, ho⟩ => ⟨entry, harrays entry hentry, ho⟩

theorem State.Holds.of_eq {a : Addr} (h : s.Holds o a) (hrecord : a ∈ s'.records)
    (hobj : s'.heap.futureObj a = s.heap.futureObj a)
    (hcallback : s'.heap.callback a = s.heap.callback a)
    (hadding : ∀ phase, s'.op ≠ some (.add a phase)) : s'.Holds o a :=
  ⟨hrecord, hobj.trans h.2.1, hcallback.trans h.2.2.1, hadding⟩

/-- A step keeps a located object where it is or moves it on, until the array
it is in is returned. -/
theorem State.Located.move (h : s.Located o) (hshape : Shape s)
    (hdrain : ∀ op, s.op = some op → op.isDrain = false) (hbailout : e ≠ .bailout)
    (hreturned : ∀ fresh out, e = .main fresh → s.op = some (.finish false out) →
      ∀ entry ∈ out, entry.obj ≠ o)
    (hmove : Move futureOf s e s') : s'.Located o := by
  have howned : ∀ a ∈ s.records, a ∈ s.owned := by grind
  cases hmove with
  | bailout hop => exact absurd rfl hbailout
  | drainSplice hop | discard hop hreg => simpa [Op.isDrain] using hdrain _ hop
  | control fd raised hcontrol =>
    have hcreating := hcontrol.creating_eq
    refine h.of_kept (fun a ha => ?_) (fun entry hentry => ?_)
    · cases hcontrol <;> grind
    · cases hcontrol with
      | @walk _ after => cases after <;> grind
      | _ => grind
  | @create fresh _ _ hop hfree hnotifier hdead =>
    have hfresh := hshape.not_mem_owned_of_dead hdead
    refine h.of_kept (fun a ha => ?_) (fun entry hentry => by grind)
    have hne : a ≠ fresh := fun heq => hfresh (heq ▸ howned a ha.1)
    exact ha.of_eq (by grind) (Function.update_of_ne hne _ _) (Function.update_of_ne hne _ _)
      (by grind)
  | @recreate fresh entry entries head tail back hop hdead =>
    have hfresh := hshape.not_mem_owned_of_dead hdead
    rcases h with ⟨a, ha⟩ | ⟨other, hother, rfl⟩
    · have hne : a ≠ fresh := fun heq => hfresh (heq ▸ howned a ha.1)
      exact .inl ⟨a, ha.of_eq (by grind) (Function.update_of_ne hne _ _)
        (Function.update_of_ne hne _ _) (by grind)⟩
    · by_cases heq : other = entry
      · subst heq
        exact .inl ⟨fresh, by grind, Function.update_self _ _ _, Function.update_self _ _ _,
          by grind⟩
      · exact .inr ⟨other, by grind, rfl⟩
  | @relink _ reg entries head tail back hop =>
    refine h.of_kept (fun a ha => ?_) (fun entry hentry => ?_) <;> cases tail <;> grind
  | @collect _ max taken reg rest out o' hop hreg hobj =>
    rcases h with ⟨a, ha⟩ | ⟨other, hother, rfl⟩
    · by_cases heq : a = reg
      · exact .inr ⟨⟨o', s.heap.ticket reg⟩, by grind, by grind⟩
      · exact .inl ⟨a, ha.of_eq (by grind) (Function.update_of_ne heq _ _) rfl (by grind)⟩
    · exact .inr ⟨other, by grind, rfl⟩
  | @callbackEnds _ c callers exn hop hcallers =>
    have hreg := hshape.caller_not_registered (a := c.reg) (by simp [State.callerRegs, hcallers])
    refine h.of_kept (fun a ha => ?_) (fun entry hentry => ?_)
    · have hne : a ≠ c.reg := by grind
      refine ha.of_eq ?_ (Function.update_of_ne hne _ _) rfl ?_
      all_goals cases exn <;> cases hhead : c.head <;> grind
    · cases exn <;> cases hhead : c.head <;> grind
  | @requeue _ after head tail walked hop =>
    refine h.of_kept (fun a ha => ?_) (fun entry hentry => ?_) <;> cases after <;> grind
  | @deliver _ out hop =>
    rcases h with ⟨a, ha⟩ | ⟨other, hother, rfl⟩
    · exact .inl ⟨a, by grind⟩
    · have hout : other ∉ out := fun hmem => hreturned _ out rfl hop other hmem rfl
      exact .inr ⟨other, by grind, rfl⟩
  | _ => refine h.of_kept (fun a ha => ?_) (fun entry hentry => ?_) <;> grind

end

abbrev Fiber := Nat

/-- Where a fiber is, as far as `await` is concerned. -/
inductive Status where
  | running
  | suspended (o : Obj)
  /-- Resumed, and not yet running. -/
  | scheduled
deriving DecidableEq

structure Adapter where
  reactor : State := initial
  /-- `$waiters`; `null` is taken for an empty storage. -/
  waiters : OrderedTable Obj Fiber := .empty
  /-- Whether the watcher is registered with the loop. -/
  watcher : Bool := false
  fibers : Fiber → Status := fun _ => .running
  /-- The call of `await` whose `Reactor::add` is running. -/
  entering : Option (Fiber × Obj) := none
  /-- Auxiliary: where the fiber was at every `resume()`, and the future that
  `poll()` had returned. -/
  resumes : List (Status × Obj) := []

namespace Adapter

def suspend (s : Adapter) (fiber : Fiber) (o : Obj) : Adapter :=
  { s with fibers := Function.update s.fibers fiber (.suspended o) }

/-- `await` after its `Reactor::add`. `ensureWatcher` throws if
`Reactor::resource()` does. -/
def enter (s : Adapter) (fiber : Fiber) (o : Obj) (resource : Bool) : Adapter :=
  let s := { s with waiters := s.waiters.update o fiber, entering := none }
  if s.watcher then s.suspend fiber o
  else if resource then { s with watcher := true }.suspend fiber o
  else s

/-- One round of the watcher's loop over the futures `poll()` returned. -/
def wake (s : Adapter) (o : Obj) : Adapter :=
  match s.waiters.find o with
  | none => s
  | some fiber =>
    { s with
      waiters := s.waiters.erase o
      fibers :=
        match s.fibers fiber with
        | .suspended _ => Function.update s.fibers fiber .scheduled
        | _ => s.fibers
      resumes := (s.fibers fiber, o) :: s.resumes }

/-- No one waiting: stop watching. -/
def disarm (s : Adapter) : Adapter :=
  if s.waiters.entries.isEmpty then { s with watcher := false } else s

/-- The watcher's closure after `poll()` has returned. -/
def dispatch (s : Adapter) (futures : List Obj) : Adapter :=
  (futures.foldl wake s).disarm

/-- The running method of the reactor does a step; at its end the PHP code that
called it goes on, unless it threw. -/
def stepMethod (s : Adapter) (reactor : State) (resource : Bool) : Adapter :=
  match s.entering, s.reactor.op with
  | some (fiber, o), _ =>
    if reactor.op.isSome then { s with reactor := reactor }
    else if reactor.raised = s.reactor.raised then
      { s with reactor := reactor }.enter fiber o resource
    else { s with reactor := reactor, entering := none }
  | none, some (.finish false out) => { s with reactor := reactor }.dispatch (out.map Entry.obj)
  | none, _ => { s with reactor := reactor }

end Adapter

/-- What other code and the driver's threads do to the reactor. Nobody else calls
`poll()`, and the request goes on. -/
def Event.ofOthers : Event → Bool
  | .poll _ | .main _ | .bailout | .shutdown => false
  | _ => true

inductive AdapterEvent where
  | await (fiber : Fiber) (o : Obj) (fresh : Addr)
  /-- The loop calls the watcher's closure. -/
  | readable
  | method (fresh : Addr) (resource : Bool)
  /-- A resumed fiber goes on. -/
  | run (fiber : Fiber)
  /-- Another fiber that waits inside a callback of a `poll()` has its turn. -/
  | switch (callers : List Caller)
  | other (e : Event)

def Adapter.step (futureOf : Obj → Option CassFuture) (s : Adapter) :
    AdapterEvent → Option Adapter
  | .await fiber o fresh =>
    if s.fibers fiber = .running then
      (Async.step futureOf s.reactor (.add o none fresh)).map fun reactor =>
        { s with
          reactor := reactor
          entering := if reactor.op.isSome then some (fiber, o) else none }
    else
      none
  | .readable =>
    if s.watcher then
      (Async.step futureOf s.reactor (.poll none)).map fun reactor =>
        { s with reactor := reactor }
    else
      none
  | .method fresh resource =>
    (Async.step futureOf s.reactor (.main fresh)).map fun reactor =>
      s.stepMethod reactor resource
  | .run fiber =>
    if s.fibers fiber = .scheduled then
      some { s with fibers := Function.update s.fibers fiber .running }
    else
      none
  | .switch callers =>
    if s.reactor.op = none ∧ callers.Perm s.reactor.callers then
      some { s with reactor := { s.reactor with callers := callers } }
    else
      none
  | .other e =>
    if e.ofOthers then
      (Async.step futureOf s.reactor e).map fun reactor => { s with reactor := reactor }
    else
      none

/-- The watcher's closure is not running: no `poll()` is, and none waits for a
callback. -/
def Adapter.Idle (s : Adapter) : Prop :=
  s.reactor.callers = [] ∧ ∀ op, s.reactor.op = some op → ∃ reg phase, op = .add reg phase

theorem Adapter.idle_of_topLevel {s : Adapter} (h : s.reactor.TopLevel) : s.Idle :=
  ⟨h.2, by simp [h.1]⟩

/-- A suspended fiber is watched for, and a fiber is resumed only out of the
`await` whose future `poll()` has returned. -/
structure Adapter.Correct (s : Adapter) : Prop where
  watched : ∀ fiber o, s.fibers fiber = .suspended o → s.Idle →
    s.watcher = true ∧ ∃ a ∈ s.reactor.registered, s.reactor.heap.futureObj a = some o
  resumed : ∀ r ∈ s.resumes, r.1 = .suspended r.2

/-- No driver callback comes for a released record, `Reactor::resource()` does not
fail, and `await` is not called for a future that another fiber awaits while it is
in the array of a running `poll()`, where `add()` would accept it again. -/
def Orderly (s : Adapter) : AdapterEvent → Prop
  | .await _ o _ =>
    s.waiters.find o = none ∨ s.reactor.slots o ≠ none ∨ s.reactor.notifier o = true
  | .method _ resource => s.entering ≠ none → resource = true
  | .other e => ¬ Stale s.reactor e
  | _ => True

instance (s : Adapter) (e : AdapterEvent) : Decidable (Orderly s e) := by
  cases e <;> unfold Orderly <;> infer_instance

section

variable {futureOf : Obj → Option CassFuture} {s s' : State} {e : Event} {o : Obj} {reg : Addr}

/-- The record `add()` is busy with belongs to the object and has no callback. -/
def Busy (s : State) (o : Obj) (reg : Addr) : Prop :=
  (∃ phase, s.op = some (.add reg phase)) ∧ s.heap.futureObj reg = some o ∧
    s.heap.callback reg = none

theorem Busy.main (h : Busy s o reg) (hshape : Shape s) {fresh : Addr}
    (hstep : step futureOf s (.main fresh) = some s') :
    Busy s' o reg ∨ s'.op = none ∧ (s'.raised = s.raised → s'.Located o) := by
  obtain ⟨⟨phase, hop⟩, hrecord⟩ := h
  have hsound := hshape.add_sound reg phase hop
  simp only [step, hop, State.stepMain, Option.some.injEq] at hstep
  subst hstep
  have hends : ∀ s' : State, s'.op = none → reg ∈ s'.registered →
      s'.heap.futureObj = s.heap.futureObj → s'.heap.callback = s.heap.callback →
      s'.op = none ∧ (s'.raised = s.raised → s'.Located o) :=
    fun s' hop' hreg hobj hcallback => ⟨hop', fun _ => .inl ⟨reg, List.mem_append_left _ hreg,
      by rw [hobj, hrecord.1], by rw [hcallback, hrecord.2], by simp [hop']⟩⟩
  cases phase with
  | link => exact .inl ⟨⟨_, rfl⟩, hrecord⟩
  | setCallback =>
    simp only [State.stepAdd, State.addSetCallback]
    split
    · exact .inl ⟨⟨_, hop⟩, hrecord⟩
    · split_ifs <;> exact .inl ⟨⟨_, rfl⟩, hrecord⟩
  | recheck accepted =>
    have hreg : reg ∈ s.registered := by cases accepted <;> [exact hsound.1; exact hsound]
    simp only [State.stepAdd, State.addRecheck]
    split
    · exact .inl ⟨⟨_, hop⟩, hrecord⟩
    · split_ifs
      · exact .inr ⟨rfl, fun hraised => absurd hraised (List.cons_ne_self _ _)⟩
      · exact .inl ⟨⟨_, rfl⟩, hrecord⟩
      · exact .inr (hends _ rfl hreg rfl rfl)
  | claim inner =>
    simp only [State.stepAdd]
    split_ifs
    · cases inner with
      | false => exact .inr (hends _ rfl hsound rfl rfl)
      | true => exact .inl ⟨⟨_, rfl⟩, hrecord⟩
    · exact .inl ⟨⟨_, rfl⟩, hrecord⟩
  | push inner =>
    cases inner with
    | false => exact .inr (hends _ rfl hsound rfl rfl)
    | true => exact .inl ⟨⟨_, rfl⟩, hrecord⟩

theorem Busy.other (h : Busy s o reg) (he : e.ofOthers = true)
    (hstep : step futureOf s e = some s') : Busy s' o reg := by
  obtain ⟨⟨phase, hop⟩, hrecord⟩ := h
  have hbusy : ∀ {next : Option State}, userStep s next ≠ some s' := by
    intro next hnext
    cases hop.symm.trans (userStep_eq_some hnext).1
  cases e with
  | resolve c =>
    simp only [step, State.resolve] at hstep
    split_ifs at hstep
    cases hstep
    exact ⟨⟨phase, hop⟩, hrecord⟩
  | fire a ident =>
    simp only [step, State.fire] at hstep
    split_ifs at hstep <;> cases hstep <;> exact ⟨⟨phase, hop⟩, hrecord⟩
  | push a =>
    simp only [step, State.push] at hstep
    split_ifs at hstep
    cases hstep
    exact ⟨⟨phase, hop⟩, hrecord⟩
  | callbackReturns | callbackThrows =>
    obtain ⟨c, callers, hnone, -⟩ := callbackStep_eq_some hstep
    cases hop.symm.trans hnone
  | add | pending | getResource | forFuture => exact absurd hstep hbusy
  | _ => cases he

theorem Shape.of_perm (h : Shape s) {callers : List Caller} (hperm : callers.Perm s.callers) :
    Shape { s with callers := callers } := by
  have howned : (State.owned { s with callers := callers }).Perm s.owned :=
    ((hperm.map Caller.reg).append_right _).append_left _
  have hplaced : (State.placed { s with callers := callers }).Perm s.placed :=
    (((hperm.flatMap_right Caller.rest).append_right _).append_left _).append_left _
  exact { h with
    owned_count := fun a => by rw [howned.count_eq]; exact h.owned_count a
    owned_live := fun a ha => h.owned_live a (howned.mem_iff.mp ha)
    owned_ident := fun a ha => h.owned_ident a (howned.mem_iff.mp ha)
    placed_count := fun a => by rw [hplaced.count_eq]; exact h.placed_count a
    placed_enqueued := fun a ha => h.placed_enqueued a (hplaced.mem_iff.mp ha)
    caller_chain := fun c hc => h.caller_chain c (hperm.mem_iff.mp hc)
    drain_top := fun op hop hdrain => (h.drain_top op hop hdrain ▸ hperm).eq_nil }

theorem State.Located.of_perm (h : s.Located o) {callers : List Caller}
    (hperm : callers.Perm s.callers) : State.Located { s with callers := callers } o := by
  refine h.imp id fun ⟨entry, hentry, ho⟩ => ⟨entry, ?_, ho⟩
  exact ((hperm.flatMap_right Caller.out).append_right _).mem_iff.mpr hentry

end

namespace Adapter

structure Sound (s : Adapter) : Prop where
  shape : Shape s.reactor
  no_drain : ∀ op, s.reactor.op = some op → op.isDrain = false
  table : ∀ o fiber, s.waiters.find o = some fiber ↔ s.fibers fiber = .suspended o
  located : ∀ fiber o, s.fibers fiber = .suspended o → s.reactor.Located o
  armed : ∀ fiber o, s.fibers fiber = .suspended o → s.watcher = true
  entering : ∀ fiber o, s.entering = some (fiber, o) →
    s.fibers fiber = .running ∧ s.waiters.find o = none ∧ ∃ reg, Busy s.reactor o reg
  resumed : ∀ r ∈ s.resumes, r.1 = .suspended r.2

section

variable {futureOf : Obj → Option CassFuture} {s s' : Adapter} {reactor : State} {o : Obj}
  {fiber : Fiber}

theorem Sound.reactor_step (h : Sound s) {e : Event} (hstale : ¬ Stale s.reactor e)
    (hbailout : e ≠ .bailout) (hshutdown : e ≠ .shutdown)
    (hstep : Async.step futureOf s.reactor e = some reactor)
    (hreturned : ∀ fresh out, e = .main fresh → s.reactor.op = some (.finish false out) →
      ∀ entry ∈ out, s.waiters.find entry.obj = none) {entering : Option (Fiber × Obj)}
    (hentering : ∀ fiber o, entering = some (fiber, o) →
      s.fibers fiber = .running ∧ s.waiters.find o = none ∧ ∃ reg, Busy reactor o reg) :
    Sound { s with reactor := reactor, entering := entering } := by
  have hmove := step_move h.shape hstale hstep
  refine { h with
    shape := h.shape.move hmove
    no_drain := hmove.no_drain hshutdown h.no_drain
    located := fun fiber o hfiber => ?_
    entering := hentering }
  refine (h.located fiber o hfiber).move h.shape h.no_drain hbailout ?_ hmove
  intro fresh out he hop entry hentry heq
  have hnone := hreturned fresh out he hop entry hentry
  rw [heq, (h.table o fiber).mpr hfiber] at hnone
  cases hnone

theorem wake_find (s : Adapter) (o other : Obj) :
    (s.wake o).waiters.find other = if other = o then none else s.waiters.find other := by
  unfold wake
  split
  · split_ifs with heq
    · rwa [heq]
    · rfl
  · exact OrderedTable.find_erase _ _ _

theorem wake_reactor (s : Adapter) (o : Obj) (reactor : State) :
    { s with reactor := reactor }.wake o = { s.wake o with reactor := reactor } := by
  unfold wake
  cases s.waiters.find o <;> rfl

theorem Sound.wake (h : Sound s) (o : Obj) : Sound (s.wake o) := by
  unfold Adapter.wake
  split
  · exact h
  · next fiber hfind =>
      have hfiber := (h.table o fiber).mp hfind
      simp only [hfiber]
      refine { h with table := ?_, located := ?_, armed := ?_, entering := ?_, resumed := ?_ }
      · intro other fiber'
        have := h.table other fiber'
        rw [OrderedTable.find_erase]
        grind [Function.update_apply]
      · intro fiber' other hother
        exact h.located fiber' other (by grind [Function.update_apply])
      · intro fiber' other hother
        exact h.armed fiber' other (by grind [Function.update_apply])
      · intro fiber' other hother
        obtain ⟨hrunning, hnone, hbusy⟩ := h.entering fiber' other hother
        refine ⟨?_, ?_, hbusy⟩
        · grind [Function.update_apply]
        · rw [OrderedTable.find_erase]
          grind
      · exact List.forall_mem_cons.mpr ⟨rfl, h.resumed⟩

theorem foldl_wake_find (s : Adapter) (futures : List Obj) (o : Obj) :
    (futures.foldl Adapter.wake s).waiters.find o =
      if o ∈ futures then none else s.waiters.find o := by
  induction futures generalizing s with
  | nil => simp
  | cons first futures ih =>
    rw [List.foldl_cons, ih, wake_find]
    grind

theorem foldl_wake_reactor (s : Adapter) (futures : List Obj) (reactor : State) :
    futures.foldl Adapter.wake { s with reactor := reactor } =
      { futures.foldl Adapter.wake s with reactor := reactor } := by
  induction futures generalizing s with
  | nil => rfl
  | cons first futures ih => rw [List.foldl_cons, wake_reactor, ih, List.foldl_cons]

theorem wake_fields (s : Adapter) (o : Obj) :
    (s.wake o).reactor = s.reactor ∧ (s.wake o).entering = s.entering := by
  unfold Adapter.wake
  split <;> exact ⟨rfl, rfl⟩

theorem Sound.foldl_wake (h : Sound s) (futures : List Obj) :
    Sound (futures.foldl Adapter.wake s) ∧
      (futures.foldl Adapter.wake s).reactor = s.reactor ∧
      (futures.foldl Adapter.wake s).entering = s.entering := by
  induction futures generalizing s with
  | nil => exact ⟨h, rfl, rfl⟩
  | cons first futures ih =>
    obtain ⟨hreactor, hentering⟩ := wake_fields s first
    rw [← hreactor, ← hentering]
    exact ih (h.wake first)

theorem Sound.disarm (h : Sound s) : Sound s.disarm := by
  unfold Adapter.disarm
  split_ifs with hempty
  · refine { h with armed := fun fiber o hfiber => ?_ }
    have hfind := (h.table o fiber).mpr hfiber
    rw [OrderedTable.find, List.isEmpty_iff.mp hempty] at hfind
    cases hfind
  · exact h

theorem Sound.dispatch (h : Sound s) (hentering : s.entering = none) {out : List Entry}
    (hop : s.reactor.op = some (.finish false out)) {fresh : Addr}
    (hstep : Async.step futureOf s.reactor (.main fresh) = some reactor) :
    Sound ({ s with reactor := reactor }.dispatch (out.map Entry.obj)) := by
  obtain ⟨hwoken, hreactor, hnone⟩ := h.foldl_wake (out.map Entry.obj)
  rw [Adapter.dispatch, foldl_wake_reactor]
  refine Sound.disarm ?_
  have := hwoken.reactor_step (e := .main fresh) (by simp [Stale]) (by simp) (by simp)
    (by rw [hreactor]; exact hstep) (fun _ out' _ hop' entry hentry => ?_)
    fun fiber o (heq : none = some (fiber, o)) => nomatch heq
  · rwa [← hentering, ← hnone] at this
  · rw [hreactor, hop] at hop'
    cases hop'
    rw [foldl_wake_find, if_pos (List.mem_map_of_mem hentry)]

theorem Sound.enter (h : Sound s) (hentering : s.entering = none)
    (hrunning : s.fibers fiber = .running)
    (hnone : s.waiters.find o = none) (hlocated : s.reactor.Located o) :
    Sound (s.enter fiber o true) := by
  have hwatched : s.enter fiber o true =
      { s with
        waiters := s.waiters.update o fiber
        fibers := Function.update s.fibers fiber (.suspended o)
        watcher := true } := by
    cases s
    simp only [Adapter.enter, Adapter.suspend] at *
    split_ifs <;> simp_all
  rw [hwatched]
  refine { h with
    table := ?_, located := ?_, armed := fun _ _ _ => rfl, entering := by simp [hentering] }
  · intro other fiber'
    have := h.table other fiber'
    rw [OrderedTable.find_update]
    grind [Function.update_apply]
  · intro fiber' other hother
    by_cases heq : fiber' = fiber
    · subst heq
      simp only [Function.update_self, Status.suspended.injEq] at hother
      exact hother ▸ hlocated
    · exact h.located fiber' other (by grind [Function.update_apply])

theorem Sound.idle (h : Sound s) (hop : s.reactor.op = none) : s.entering = none := by
  refine Option.eq_none_iff_forall_ne_some.mpr fun ⟨fiber, o⟩ hentering => ?_
  obtain ⟨-, -, reg, ⟨phase, hbusy⟩, -⟩ := h.entering fiber o hentering
  cases hop.symm.trans hbusy

theorem Sound.await (h : Sound s) {fresh : Addr} (hrunning : s.fibers fiber = .running)
    (hfree : s.waiters.find o = none ∨ s.reactor.slots o ≠ none ∨ s.reactor.notifier o = true)
    (hstep : Async.step futureOf s.reactor (.add o none fresh) = some reactor) :
    Sound { s with
      reactor := reactor
      entering := if reactor.op.isSome then some (fiber, o) else none } := by
  refine h.reactor_step (e := .add o none fresh) (by simp [Stale]) (by simp) (by simp) hstep
    (by simp) ?_
  intro fiber' o' hentering
  obtain ⟨hop, hcall⟩ := userStep_eq_some hstep
  unfold State.callAdd at hcall
  split at hcall
  · cases hcall
    simp [State.raise, hop] at hentering
  · next hclaim =>
      split_ifs at hcall
      cases hcall
      simp only [Option.isSome_some, if_true, Option.some.injEq, Prod.mk.injEq] at hentering
      obtain ⟨rfl, rfl⟩ := hentering
      have hslot : s.reactor.slots o = none ∧ s.reactor.notifier o = false := by
        unfold claimReactor at hclaim
        split_ifs at hclaim
        simp_all
      refine ⟨hrunning, by simpa [hslot] using hfree, fresh, ⟨_, rfl⟩, ?_, ?_⟩
      · simp
      · simp [State.regCreate]

theorem Sound.method (h : Sound s) {fresh : Addr} {resource : Bool}
    (hresource : s.entering ≠ none → resource = true)
    (hstep : Async.step futureOf s.reactor (.main fresh) = some reactor) :
    Sound (s.stepMethod reactor resource) := by
  have hplain : ∀ entering : Option (Fiber × Obj),
      (∀ out, s.reactor.op ≠ some (.finish false out)) →
      (∀ fiber o, entering = some (fiber, o) →
        s.fibers fiber = .running ∧ s.waiters.find o = none ∧ ∃ reg, Busy reactor o reg) →
      Sound { s with reactor := reactor, entering := entering } := fun entering hop hentering =>
    h.reactor_step (by simp [Stale]) (by simp) (by simp) hstep
      (fun _ out _ hfinish => absurd hfinish (hop out)) hentering
  unfold Adapter.stepMethod
  split
  · next fiber o hentering =>
      obtain ⟨hrunning, hnone, reg, hbusy⟩ := h.entering fiber o hentering
      obtain ⟨phase, hop⟩ := hbusy.1
      have hop' : ∀ out, s.reactor.op ≠ some (.finish false out) := by simp [hop]
      rcases hbusy.main h.shape hstep with hnext | ⟨hend, hlocated⟩
      · obtain ⟨phase', hop''⟩ := hnext.1
        rw [hop'', Option.isSome_some, if_pos rfl]
        refine hplain s.entering hop' fun fiber' o' hother => ?_
        cases hentering.symm.trans hother
        exact ⟨hrunning, hnone, reg, hnext⟩
      · have hsound := hplain none hop' (by simp)
        rw [hend, Option.isSome_none, if_neg (by simp)]
        split_ifs with hraised
        · obtain rfl := hresource (by simp [hentering])
          exact hsound.enter rfl hrunning hnone (hlocated hraised)
        · exact hsound
  · next hentering hop => exact h.dispatch hentering hop hstep
  · next hentering hop => exact hplain s.entering hop (by simp [hentering])

theorem Sound.sound_step (h : Sound s) {e : AdapterEvent} (horderly : Orderly s e)
    (hstep : s.step futureOf e = some s') : Sound s' := by
  cases e with
  | await fiber o fresh =>
    simp only [Adapter.step] at hstep
    split_ifs at hstep with hrunning
    obtain ⟨reactor, hreactor, rfl⟩ := Option.map_eq_some_iff.mp hstep
    exact h.await hrunning horderly hreactor
  | readable =>
    simp only [Adapter.step] at hstep
    split_ifs at hstep with hwatcher
    obtain ⟨reactor, hreactor, rfl⟩ := Option.map_eq_some_iff.mp hstep
    have hop := (userStep_eq_some hreactor).1
    exact h.reactor_step (e := .poll none) (by simp [Stale]) (by simp) (by simp) hreactor
      (by simp) (by simp [h.idle hop])
  | method fresh resource =>
    obtain ⟨reactor, hreactor, rfl⟩ := Option.map_eq_some_iff.mp hstep
    exact h.method horderly hreactor
  | run fiber =>
    simp only [Adapter.step] at hstep
    split_ifs at hstep with hscheduled
    cases hstep
    refine { h with table := ?_, located := ?_, armed := ?_, entering := ?_ }
    · intro o fiber'
      have := h.table o fiber'
      grind [Function.update_apply]
    · intro fiber' o hfiber
      exact h.located fiber' o (by grind [Function.update_apply])
    · intro fiber' o hfiber
      exact h.armed fiber' o (by grind [Function.update_apply])
    · intro fiber' o hentering
      have := h.entering fiber' o hentering
      grind [Function.update_apply]
  | switch callers =>
    simp only [Adapter.step] at hstep
    split_ifs at hstep with hturn
    cases hstep
    exact { h with
      shape := h.shape.of_perm hturn.2
      located := fun fiber o hfiber => (h.located fiber o hfiber).of_perm hturn.2
      entering := by simp [h.idle hturn.1] }
  | other e =>
    simp only [Adapter.step] at hstep
    split_ifs at hstep with he
    obtain ⟨reactor, hreactor, rfl⟩ := Option.map_eq_some_iff.mp hstep
    refine h.reactor_step horderly ?_ ?_ hreactor ?_ fun fiber o hentering => ?_
    · rintro rfl
      cases he
    · rintro rfl
      cases he
    · rintro fresh out rfl
      cases he
    · obtain ⟨hrunning, hnone, reg, hbusy⟩ := h.entering fiber o hentering
      exact ⟨hrunning, hnone, reg, hbusy.other he hreactor⟩

theorem Sound.correct (h : Sound s) : Correct s where
  watched fiber o hfiber hidle := by
    refine ⟨h.armed fiber o hfiber, ?_⟩
    obtain ⟨hcallers, hmethod⟩ := hidle
    -- outside of `poll()` a located future has a record, which is not the one of an `add()`
    rcases h.located fiber o hfiber with ⟨a, hrecord, hobj, -, hadding⟩ | ⟨entry, hentry, -⟩
    · refine ⟨a, ?_, hobj⟩
      cases hop : s.reactor.op with
      | none => simpa [State.records, State.opCreating, hop] using hrecord
      | some op =>
        obtain ⟨reg, phase, rfl⟩ := hmethod op hop
        have hne : a ≠ reg := fun heq => hadding phase (heq ▸ hop)
        cases phase <;>
          simpa [State.records, State.opCreating, hop, Op.creating, AddPhase.creating, hne]
            using hrecord
    · cases hop : s.reactor.op with
      | none => simp [State.arrays, State.callerOuts, hcallers, State.opCollected, hop] at hentry
      | some op =>
        obtain ⟨reg, phase, rfl⟩ := hmethod op hop
        simp [State.arrays, State.callerOuts, hcallers, State.opCollected, hop,
          Op.collected] at hentry
  resumed := h.resumed

end

end Adapter

/--
In every orderly run a suspended fiber is watched for, and resumed out of its own
`await` by its own future.

The watcher is registered and so is the future of every suspended fiber whenever
the watcher's closure is not running; every `resume()` meets a fiber that is
suspended in the `await` of a future `poll()` has returned.
-/
theorem await_watched
    {futureOf : Obj → Option CassFuture}
    {s : Adapter}
    (hreach : Reachable (Adapter.step futureOf) Orderly {} s) :
    s.Correct := by
  have hstart : Adapter.Sound {} :=
    ⟨shape_initial, by simp [initial], by simp, by simp, by simp, by simp, by simp⟩
  exact (hreach.invariant hstart fun _ _ _ h => h.sound_step).correct

/-- Two fibers await a future each; the watcher's `poll()` returns the first one,
and its fiber goes on. -/
def awaitTwo : List AdapterEvent :=
  [.await 0 0 10, .method 0 true, .method 0 true, .method 0 true,
    .await 1 1 11, .method 0 true, .method 0 true, .method 0 true,
    .readable, .method 0 true, .method 0 true, .method 0 true, .method 0 true, .method 0 true,
    .run 0]

theorem await_watched_two :
    ∃ s, exec (Adapter.step fun o => if o = 1 then some 0 else none) Orderly {} awaitTwo =
        some s ∧
      s.fibers 0 = .running ∧ s.fibers 1 = .suspended 1 ∧ s.resumes = [(.suspended 0, 0)] ∧
      (∀ r ∈ s.resumes, r.1 = .suspended r.2) ∧
      s.watcher = true ∧ ∃ a ∈ s.reactor.registered, s.reactor.heap.futureObj a = some 1 := by
  refine ⟨_, rfl, rfl, rfl, rfl, ?_⟩
  have hcorrect := await_watched (Reachable.of_exec
    (rfl : exec (Adapter.step fun o => if o = 1 then some 0 else none) Orderly {} awaitTwo =
      some _))
  exact ⟨hcorrect.resumed, hcorrect.watched 1 1 rfl (Adapter.idle_of_topLevel ⟨rfl, rfl⟩)⟩

/--
A fiber is forgotten.

Fiber 0 awaits future 0, and other code has registered future 1 with a callback.
`poll()` collects future 0 and calls the callback, in which fiber 1 awaits future 0
too: `add()` accepts it, and fiber 1 takes the place of fiber 0 in `$waiters`. The
watcher resumes fiber 1 and is cancelled; fiber 0 stays suspended.
-/
theorem await_forgotten :
    ∃ s, exec (Adapter.step fun _ => none) (fun _ _ => True) {}
        [.await 0 0 10, .method 0 true, .method 0 true, .method 0 true,
          .other (.add 1 (some 7) 11), .method 0 true, .method 0 true, .method 0 true,
          .readable, .method 0 true, .method 0 true, .method 0 true, .method 0 true,
          .await 1 0 12, .method 0 true, .method 0 true, .method 0 true,
          .other .callbackReturns, .method 0 true, .method 0 true] = some s ∧
      s.fibers 0 = .suspended 0 ∧ s.Idle ∧ s.watcher = false ∧ ¬ s.Correct := by
  refine ⟨_, rfl, rfl, Adapter.idle_of_topLevel ⟨rfl, rfl⟩, rfl, fun h => ?_⟩
  cases (h.watched 0 0 rfl (Adapter.idle_of_topLevel ⟨rfl, rfl⟩)).1

end Async
end ScyllaDriver
