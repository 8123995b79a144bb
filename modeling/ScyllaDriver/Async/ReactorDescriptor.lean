import ScyllaDriver.Async.ReactorPlaces

/-!
# The shared descriptor and the ready list

`reg_enqueue` and `reactor_requeue` signal the descriptor in the critical section
that adds to the ready list. `poll()` drains the descriptor first and takes the
ready list after that, so between the two the list may be ahead of the
descriptor, and at no other time. The drain reads until nothing is left; it is
the step of its last read.
-/

namespace ScyllaDriver
namespace Async

/-- The event is the critical section of `reg_enqueue` or of `reactor_requeue`. -/
def Enqueues (s : State) : Event → Prop
  | .push _ => True
  | .main _ =>
    match s.op with
    | some (.add _ (.push _)) => True
    | some (.requeue _ _ tail _ _) => s.heap.nextReady tail = none
    | _ => False
  | _ => False

/-- A `poll()` runs, or waits for a callback. -/
def State.Polling (s : State) : Prop :=
  s.callers ≠ [] ∨ ∃ op, s.op = some op ∧ ∀ reg phase, op ≠ .add reg phase

inductive Signal (s : State) : Event → State → Prop
  | quiet {e : Event} {s' : State} :
      s'.readyHead = s.readyHead →
      s'.fd = s.fd →
      (∀ max, s.op = some (.pollSplice max) → s'.op = s.op) →
      (∀ op, s'.op = some op → op.isDrain = true → s.op = some op ∨ e = .shutdown) →
      Signal s e s'
  | enqueue {e : Event} {s' : State} :
      Enqueues s e →
      s'.fd = true →
      (∀ op, s'.op = some op → op.isDrain = true → s.op = some op) →
      Signal s e s'
  | drain {e : Event} {s' : State} {max : Nat} :
      s'.readyHead = s.readyHead →
      s'.fd = false →
      s'.op = some (.pollSplice max) →
      Signal s e s'
  | take {e : Event} {s' : State} {max : Nat} {head : Option Addr} {rest : List Addr} :
      s'.readyHead = none →
      s'.fd = s.fd →
      s'.op = some (.consume max 0 head rest []) →
      Signal s e s'
  | shutdown {e : Event} {s' : State} {op : Op} :
      s.op = some op →
      op.isDrain = true →
      (s'.readyHead = s.readyHead ∨ s'.readyHead = none) →
      (s'.fd = s.fd ∨ s'.fd = false) →
      Signal s e s'

section

variable {futureOf : Obj → Option CassFuture} {s s' : State} {e : Event}

theorem stepAdd_signal {reg : Addr} {phase : AddPhase} (hop : s.op = some (.add reg phase))
    (fresh : Addr) : Signal s (.main fresh) (s.stepAdd reg phase) := by
  cases phase with
  | link =>
    refine .quiet rfl rfl (by simp [hop]) ?_
    simp [State.stepAdd, Op.isDrain]
  | setCallback =>
    simp only [State.stepAdd]
    split
    · exact .quiet rfl rfl (by simp) (by simp_all)
    · unfold State.addSetCallback
      split
      · exact .quiet rfl rfl (by simp [hop]) (by simp [Op.isDrain])
      · exact .quiet rfl rfl (by simp [hop]) (by simp [Op.isDrain])
  | recheck accepted =>
    simp only [State.stepAdd]
    split
    · exact .quiet rfl rfl (by simp) (by simp_all)
    · unfold State.addRecheck
      split_ifs
      · exact .quiet rfl rfl (by simp [hop]) (by simp)
      · exact .quiet rfl rfl (by simp [hop]) (by simp [Op.isDrain])
      · exact .quiet rfl rfl (by simp [hop]) (by simp)
  | claim inner =>
    simp only [State.stepAdd]
    split_ifs
    · exact .quiet rfl rfl (by simp [hop]) (by cases inner <;> simp [State.addContinue, Op.isDrain])
    · exact .quiet rfl rfl (by simp [hop]) (by simp [Op.isDrain])
  | push inner =>
    refine .enqueue (by simp [Enqueues, hop]) rfl ?_
    cases inner <;> simp [State.stepAdd, State.addContinue, Op.isDrain]

theorem stepConsume_signal {max taken : Nat} {head : Option Addr} {rest : List Addr}
    {out : List Entry} (hop : s.op = some (.consume max taken head rest out)) :
    Signal s e (s.stepConsume max taken head rest out) := by
  unfold State.stepConsume
  split
  · exact .quiet rfl rfl (by simp [hop]) (by simp [Op.isDrain])
  · split_ifs
    · exact .quiet rfl rfl (by simp [hop]) (by simp [Op.isDrain, State.startRequeue])
    · dsimp only
      split
      · exact .quiet rfl rfl (by simp [hop]) (by simp [Op.isDrain])
      · split_ifs
        · exact .quiet rfl rfl (by simp [hop]) (by simp [Op.isDrain])
        · exact .quiet rfl rfl (by simp [hop]) (by simp [Op.isDrain])

theorem stepRequeue_signal {after : After} {head tail : Addr} {walked ahead : List Addr}
    (hop : s.op = some (.requeue after head tail walked ahead)) (fresh : Addr) :
    Signal s (.main fresh) (s.stepRequeue after head tail walked ahead) := by
  unfold State.stepRequeue
  split
  · exact .quiet rfl rfl (by simp [hop]) (by simp [Op.isDrain])
  · next hnone =>
      refine .enqueue (by simp [Enqueues, hop, hnone]) rfl ?_
      cases after <;> simp [State.afterRequeue, Op.isDrain]

theorem stepMain_signal {op : Op} {fresh : Addr} (hop : s.op = some op)
    (hstep : s.stepMain futureOf fresh op = some s') : Signal s (.main fresh) s' := by
  cases op with
  | add reg phase =>
    cases hstep
    exact stepAdd_signal hop fresh
  | pollDrain max =>
    cases hstep
    exact .drain rfl rfl rfl
  | pollSplice max =>
    cases hstep
    exact .take rfl rfl rfl
  | consume max taken head rest out =>
    cases hstep
    exact stepConsume_signal hop
  | requeue after head tail walked ahead =>
    cases hstep
    exact stepRequeue_signal hop fresh
  | finish exn out =>
    cases hstep
    unfold State.stepFinish
    split_ifs
    · exact .quiet rfl rfl (by simp [hop]) (by simp)
    · exact .quiet rfl rfl (by simp [hop]) (by simp [Op.isDrain])
    · exact .quiet rfl rfl (by simp [hop]) (by simp)
  | reclaim entries head tail back =>
    simp only [State.stepMain, State.stepReclaim] at hstep
    split at hstep
    · split at hstep
      · cases hstep
        exact .quiet rfl rfl (by simp [hop]) (by simp)
      · cases hstep
        exact .quiet rfl rfl (by simp [hop]) (by simp [State.startRequeue, Op.isDrain])
    · split_ifs at hstep
      cases hstep
      exact .quiet rfl rfl (by simp [hop]) (by simp [Op.isDrain])
  | reclaimLink reg entries head tail back =>
    cases hstep
    exact .quiet rfl rfl (by simp [hop]) (by simp [State.stepReclaimLink, Op.isDrain])
  | drainLoop =>
    simp only [State.stepMain] at hstep
    split_ifs at hstep
    · cases hstep
      exact .shutdown hop rfl (.inl rfl) (.inr rfl)
    · cases hstep
      exact .shutdown hop rfl (.inl rfl) (.inl rfl)
  | drainWait todo =>
    simp only [State.stepMain, State.stepDrainWait] at hstep
    split at hstep
    · cases hstep
      exact .shutdown hop rfl (.inl rfl) (.inl rfl)
    · split at hstep
      · cases hstep
        exact .shutdown hop rfl (.inl rfl) (.inl rfl)
      · split_ifs at hstep
        cases hstep
        exact .shutdown hop rfl (.inl rfl) (.inl rfl)
  | drainFd =>
    cases hstep
    exact .shutdown hop rfl (.inl rfl) (.inr rfl)
  | drainSplice =>
    cases hstep
    exact .shutdown hop rfl (.inr rfl) (.inl rfl)
  | drainConsume head rest =>
    cases hstep
    unfold State.stepDrainConsume
    split
    · exact .shutdown hop rfl (.inl rfl) (.inl rfl)
    · exact .shutdown hop rfl (.inl rfl) (.inl rfl)

theorem callDescribe_eq (o : Obj) (resolved : Bool) :
    ∃ notifier futures raised, s.callDescribe futureOf o resolved =
      { s with notifier := notifier, futures := futures, raised := raised } := by
  unfold State.callDescribe
  split
  · exact ⟨_, _, _, rfl⟩
  · split_ifs
    · exact ⟨_, _, _, rfl⟩
    · exact ⟨_, _, _, rfl⟩
    · cases futureOf o with
      | none => exact ⟨_, _, _, rfl⟩
      | some c =>
        simp only [State.ensureNotifier]
        split_ifs <;> exact ⟨_, _, _, rfl⟩

theorem Signal.stay (hsame : s'.readyHead = s.readyHead ∧ s'.fd = s.fd ∧ s'.op = s.op) :
    Signal s e s' :=
  .quiet hsame.1 hsame.2.1 (fun _ _ => hsame.2.2) fun _ hop _ => .inl (hsame.2.2 ▸ hop)

theorem callbackEnds_signal {c : Caller} {callers : List Caller} (hop : s.op = none) (exn : Bool) :
    Signal s e (s.callbackEnds c callers exn) := by
  refine .quiet rfl rfl (by simp [hop]) ?_
  cases exn <;> cases hhead : c.head <;>
    simp [State.callbackEnds, State.startRequeue, Op.isDrain, hhead]

/-- What a step of the machine does to the ready list and the descriptor. -/
theorem step_signal (hstep : step futureOf s e = some s') : Signal s e s' := by
  cases e with
  | add o callback fresh =>
    obtain ⟨hop, hcall⟩ := userStep_eq_some hstep
    unfold State.callAdd at hcall
    split at hcall
    · cases hcall
      exact .stay ⟨rfl, rfl, rfl⟩
    · split_ifs at hcall
      cases hcall
      exact .quiet rfl rfl (by simp [hop]) (by simp [Op.isDrain])
  | poll max =>
    obtain ⟨hop, rfl⟩ := userStep_of_some hstep
    unfold State.callPoll
    split
    · exact .stay ⟨rfl, rfl, rfl⟩
    · exact .quiet rfl rfl (by simp [hop]) (by simp [Op.isDrain])
  | getResource o resolved =>
    obtain ⟨-, rfl⟩ := userStep_of_some hstep
    obtain ⟨notifier, futures, raised, heq⟩ := callDescribe_eq o resolved
    rw [heq]
    exact .stay ⟨rfl, rfl, rfl⟩
  | forFuture o =>
    obtain ⟨-, rfl⟩ := userStep_of_some hstep
    obtain ⟨notifier, futures, raised, heq⟩ := callDescribe_eq o (futureOf o).isNone
    rw [heq]
    exact .stay ⟨rfl, rfl, rfl⟩
  | callbackReturns =>
    obtain ⟨c, callers, hop, -, rfl⟩ := callbackStep_eq_some hstep
    exact callbackEnds_signal hop false
  | callbackThrows =>
    obtain ⟨c, callers, hop, -, rfl⟩ := callbackStep_eq_some hstep
    exact callbackEnds_signal hop true
  | pending | bailout =>
    obtain ⟨-, rfl⟩ := userStep_of_some hstep
    exact .stay ⟨rfl, rfl, rfl⟩
  | shutdown =>
    simp only [step] at hstep
    split at hstep
    · obtain ⟨hop, rfl⟩ := userStep_of_some hstep
      exact .quiet rfl rfl (by simp [hop]) fun _ _ _ => .inr rfl
    · cases hstep
  | main fresh =>
    simp only [step] at hstep
    split at hstep
    · cases hstep
    · next op hop => exact stepMain_signal hop hstep
  | resolve c =>
    simp only [step, State.resolve] at hstep
    split_ifs at hstep
    cases hstep
    exact .stay ⟨rfl, rfl, rfl⟩
  | fire reg ident =>
    simp only [step, State.fire] at hstep
    split_ifs at hstep
    · cases hstep
      exact .stay ⟨rfl, rfl, rfl⟩
    · cases hstep
      exact .stay ⟨rfl, rfl, rfl⟩
  | push reg =>
    simp only [step, State.push] at hstep
    split_ifs at hstep
    cases hstep
    exact .enqueue trivial rfl fun _ hop _ => hop

/-- While the request is not shut down, the descriptor is readable when the ready
list has an entry, except between the drain and the splice of `poll()`. -/
structure Woken (s : State) : Prop where
  readable : s.readyHead ≠ none → s.fd = true ∨ ∃ max, s.op = some (.pollSplice max)
  running : ∀ op, s.op = some op → op.isDrain = false

theorem woken_initial : Woken initial where
  readable := fun h => absurd rfl h
  running := fun _ hop => nomatch hop

theorem Woken.step (h : Woken s) (hrunning : e ≠ .shutdown) (hstep : step futureOf s e = some s') :
    Woken s' := by
  cases step_signal hstep with
  | quiet hhead hfd hwindow hdrain =>
    refine ⟨?_, ?_⟩
    · intro hready
      rw [hhead] at hready
      rw [hfd]
      refine (h.readable hready).imp_right ?_
      rintro ⟨max, hop⟩
      exact ⟨max, (hwindow max hop).trans hop⟩
    · intro op hop
      by_contra hisDrain
      rcases hdrain op hop (by simpa using hisDrain) with hold | hshutdown
      · exact hisDrain (h.running op hold)
      · exact hrunning hshutdown
  | enqueue _ hfd hdrain =>
    refine ⟨fun _ => .inl hfd, ?_⟩
    intro op hop
    by_contra hisDrain
    exact hisDrain (h.running op (hdrain op hop (by simpa using hisDrain)))
  | drain _ _ hop =>
    refine ⟨fun _ => .inr ⟨_, hop⟩, ?_⟩
    intro op hop'
    rw [hop] at hop'
    obtain rfl := Option.some.inj hop'
    rfl
  | take hhead _ hop =>
    refine ⟨fun hready => absurd hhead hready, ?_⟩
    intro op hop'
    rw [hop] at hop'
    obtain rfl := Option.some.inj hop'
    rfl
  | shutdown hop hisDrain =>
    rw [h.running _ hop] at hisDrain
    cases hisDrain

/-- A descriptor that is not readable, with an empty list. -/
def State.Idle (s : State) : Prop :=
  s.readyHead = none ∧ s.fd = false

theorem State.Idle.step (h : s.Idle) (hquiet : ¬ Enqueues s e)
    (hstep : step futureOf s e = some s') : s'.Idle := by
  obtain ⟨hready, hreadable⟩ := h
  cases step_signal hstep with
  | quiet hhead hfd _ _ => exact ⟨hhead.trans hready, hfd.trans hreadable⟩
  | enqueue henqueues _ _ => exact absurd henqueues hquiet
  | drain hhead hfd _ => exact ⟨hhead.trans hready, hfd⟩
  | take hhead hfd _ => exact ⟨hhead, hfd.trans hreadable⟩
  | shutdown _ _ hhead hfd =>
    exact ⟨hhead.elim (·.trans hready) id, hfd.elim (·.trans hreadable) id⟩

/-- In every run of driver callbacks, `add()` and `poll()`: while no `poll()` is
under way the descriptor is readable if the ready list has an entry; and from a
state with an empty list and a drained descriptor it is not readable, and the
list stays empty, until an enqueue or a put-back. -/
theorem descriptor_follows_ready_list
    (hreach : Transition.Reachable (step futureOf) (fun _ e => e ≠ .shutdown) initial s) :
    (¬ s.Polling → s.readyHead ≠ none → s.fd = true) ∧
      (s.Idle → ∀ s', Transition.Reachable (step futureOf) (fun s e => ¬ Enqueues s e) s s' →
        s'.Idle) := by
  have hwoken : Woken s := hreach.invariant woken_initial fun _ _ _ => Woken.step
  refine ⟨?_, ?_⟩
  · intro hpolling hready
    refine (hwoken.readable hready).resolve_right ?_
    rintro ⟨max, hop⟩
    exact hpolling (.inr ⟨_, hop, fun _ _ heq => nomatch heq⟩)
  · intro hidle s' hrun
    exact hrun.invariant hidle fun _ _ _ => State.Idle.step

end

/-- The add of a future that was resolved on construction. -/
def addResolved : Option State :=
  Transition.exec (step fun _ => none) (fun _ e => e ≠ .shutdown) initial
    [.add 0 none 0, .main 0, .main 0, .main 0]

/-- After it the ready list has an entry, no `poll()` is under way, and the
descriptor is readable. -/
theorem descriptor_follows_ready_list_added :
    ∃ s, addResolved = some s ∧ s.readyHead = some 0 ∧ ¬ s.Polling ∧ s.fd = true := by
  have hhead : addResolved.map State.readyHead = some (some 0) := by decide +kernel
  have hop : addResolved.map State.op = some none := by decide +kernel
  have hcallers : addResolved.map State.callers = some [] := by decide +kernel
  obtain ⟨s, hs, hready⟩ := Option.map_eq_some_iff.mp hhead
  rw [hs, Option.map_some, Option.some.injEq] at hop hcallers
  have hidle : ¬ s.Polling := by simp [State.Polling, hop, hcallers]
  refine ⟨s, hs, hready, hidle, ?_⟩
  exact (descriptor_follows_ready_list (Transition.Reachable.of_exec hs)).1 hidle (by simp [hready])

end Async
end ScyllaDriver
