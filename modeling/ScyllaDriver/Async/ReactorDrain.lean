import ScyllaDriver.Async.ReactorCoverage

/-!
# The drain at request shutdown

`reactor_drain` waits for the futures of the registered records, discards the
ready list and starts over while the registered list is not empty. Where the
registered records are covered it ends: once the driver futures are set and
their callbacks have run, every registered record is flagged, so it is on the
ready list, and one round discards them all.

A fatal error in a callback that leaves a part of the batch behind breaks
this: the records of that part stay registered with their flag set, no list
leads to them, and the loop never ends.
-/

namespace ScyllaDriver
namespace Async

open Linked Transition

/-- No stale callback, and a fatal error finds its batches visited. -/
def Contained (s : State) (e : Event) : Prop :=
  ¬ Stale s e ∧ BatchVisited s e

instance (s : State) (e : Event) : Decidable (Contained s e) :=
  inferInstanceAs (Decidable (_ ∧ _))

theorem contained_invariant {futureOf : Obj → Option CassFuture} {s : State}
    (hreach : Reachable (step futureOf) Contained initial s) : Shape s ∧ Covered s := by
  induction hreach with
  | init => exact ⟨shape_initial, covered_initial⟩
  | step _ hcontained hstep ih =>
    obtain ⟨hshape, hcovered⟩ := ih
    have hmove := step_move hshape hcontained.1 hstep
    exact ⟨hshape.move hmove, hcovered.move hshape hcontained.2 hmove⟩

/-- The futures of the registered records are set and their callbacks have
run. -/
structure Quiet (s : State) : Prop where
  isSet : ∀ a ∈ s.registered, ∀ c, s.heap.future a = some c → (s.futures c).isSet = true
  firing : s.firing = []
  pushing : s.pushing = []

def MainOnly (_ : State) (e : Event) : Prop :=
  e = .main 0

structure Draining (s : State) : Prop where
  shape : Shape s
  covered : Covered s
  quiet : Quiet s

section Rounds

variable {futureOf : Obj → Option CassFuture} {s s' : State}

/-- The drain registers nothing and leaves the driver's part of the state alone. -/
theorem Quiet.stepMain (h : Quiet s) {op : Op} (hdrain : op.isDrain = true)
    (hnext : s.stepMain futureOf 0 op = some s') : Quiet s' := by
  obtain ⟨hset, hfiring, hpushing⟩ := h
  cases op with
  | drainLoop =>
    simp only [State.stepMain] at hnext
    split_ifs at hnext <;> cases hnext <;> exact ⟨hset, hfiring, hpushing⟩
  | drainWait todo =>
    simp only [State.stepMain] at hnext
    unfold State.stepDrainWait at hnext
    split at hnext
    · cases hnext
      exact ⟨hset, hfiring, hpushing⟩
    · split at hnext
      · cases hnext
        exact ⟨hset, hfiring, hpushing⟩
      · split_ifs at hnext
        cases hnext
        exact ⟨hset, hfiring, hpushing⟩
  | drainFd | drainSplice =>
    cases hnext
    exact ⟨hset, hfiring, hpushing⟩
  | drainConsume head rest =>
    cases hnext
    cases head with
    | none => exact ⟨hset, hfiring, hpushing⟩
    | some reg =>
      refine ⟨fun a ha => hset a ?_, hfiring, hpushing⟩
      simp only [State.stepDrainConsume, State.regRelease, State.clearObj, State.clearSlot,
        State.regUnregister] at ha
      split_ifs at ha
      · exact List.mem_of_mem_erase ha
      · cases ha
  | _ => simp [Op.isDrain] at hdrain

theorem Draining.step_main (h : Draining s) {op : Op} (hop : s.op = some op)
    (hdrain : op.isDrain = true) (hnext : s.stepMain futureOf 0 op = some s') :
    Reachable (step futureOf) MainOnly s s' ∧ Draining s' := by
  have hstep : step futureOf s (.main 0) = some s' := by
    simp only [step, hop, hnext]
  have hmove := step_move h.shape id hstep
  refine ⟨Reachable.init.step rfl hstep, ⟨h.shape.move hmove, ?_, h.quiet.stepMain hdrain hnext⟩⟩
  exact h.covered.move h.shape (by simp [BatchVisited]) hmove

/-- When the driver is quiet, a registered record is on the ready list or in
the hands of the drain. -/
theorem Draining.mem_ready (h : Draining s) {op : Op} (hop : s.op = some op)
    (hdrain : op.isDrain = true) {a : Addr} (ha : a ∈ s.registered) :
    a ∈ s.ready ∨ a ∈ op.held := by
  have hflag : s.heap.enqueued a = true := by
    apply Bool.of_not_eq_false
    intro hflag
    rcases h.covered.awaited a ha hflag with hawaits | ⟨phase, hadd, -⟩
    · rcases hawaits with hfiring | ⟨c, hfuture, hset, -⟩
      · simp [h.quiet.firing] at hfiring
      · simp [h.quiet.isSet a ha c hfuture] at hset
    · rw [hop] at hadd
      cases hadd
      simp [Op.isDrain] at hdrain
  have hplaced := h.covered.flagged a ha hflag
  rw [State.mem_placed, h.quiet.pushing, State.callerRests,
    h.shape.drain_top op hop hdrain, State.opHeld_of_some hop] at hplaced
  simpa using hplaced

/-- The drain ends: the main thread alone empties the registered list and
returns. -/
def Ends (futureOf : Obj → Option CassFuture) (s : State) : Prop :=
  ∃ s', Reachable (step futureOf) MainOnly s s' ∧ s'.op = none ∧ s'.registered = []

theorem Ends.of_reachable (hreach : Reachable (step futureOf) MainOnly s s')
    (h : Ends futureOf s') : Ends futureOf s := by
  obtain ⟨s'', hrest, hend⟩ := h
  exact ⟨s'', hreach.trans hrest, hend⟩

theorem Draining.ends_of_empty (h : Draining s) (hop : s.op = some .drainLoop)
    (hempty : s.registered = []) : Ends futureOf s := by
  have hnext : s.stepMain futureOf 0 .drainLoop = some { s with fd := false, op := none } := by
    simp [State.stepMain, hempty]
  obtain ⟨hreach, -⟩ := h.step_main hop rfl hnext
  exact ⟨_, hreach, rfl, hempty⟩

theorem Draining.consume {head : Option Addr} {rest : List Addr} (h : Draining s)
    (hop : s.op = some (.drainConsume head rest)) :
    ∃ s', Reachable (step futureOf) MainOnly s s' ∧ Draining s' ∧
      s'.op = some .drainLoop ∧ s'.ready = s.ready := by
  have hchain : Chain s.heap.nextReady head rest := h.shape.op_linked _ hop
  induction rest generalizing s head with
  | nil =>
    obtain rfl := hchain.head_eq_none_iff.mpr rfl
    have hnext : s.stepMain futureOf 0 (.drainConsume none []) =
        some { s with op := some .drainLoop } := rfl
    obtain ⟨hreach, hdraining⟩ := h.step_main hop rfl hnext
    exact ⟨_, hreach, hdraining, rfl, rfl⟩
  | cons reg rest ih =>
    obtain ⟨rfl, -⟩ := hchain
    obtain ⟨hreach, hdraining⟩ : Reachable (step futureOf) MainOnly s _ ∧ Draining _ :=
      h.step_main hop rfl rfl
    obtain ⟨s', hrest, hdraining', hop', hready⟩ :=
      ih hdraining rfl (hdraining.shape.op_linked _ rfl)
    exact ⟨s', hreach.trans hrest, hdraining', hop', hready⟩

theorem Draining.ends_of_ready_empty (h : Draining s) (hop : s.op = some .drainLoop)
    (hready : s.ready = []) : Ends futureOf s := by
  apply h.ends_of_empty hop
  rw [List.eq_nil_iff_forall_not_mem]
  intro a ha
  have hmem := h.mem_ready hop rfl ha
  simp [hready, Op.held] at hmem

theorem Draining.ends_of_splice (h : Draining s) (hop : s.op = some .drainSplice) :
    Ends futureOf s := by
  by_cases hhead : s.readyHead.isSome = true
  · have hnext : s.stepMain futureOf 0 .drainSplice =
        some { s.splice with
          op := some (.drainConsume s.readyHead s.ready) } := by
      simp [State.stepMain, hhead]
    obtain ⟨hreach, hdraining⟩ := h.step_main hop rfl hnext
    obtain ⟨s', hconsume, hdraining', hop', hready⟩ := hdraining.consume rfl
    exact (hdraining'.ends_of_ready_empty hop' hready).of_reachable (hreach.trans hconsume)
  · have hnext : s.stepMain futureOf 0 .drainSplice =
        some { s.splice with op := some .drainLoop } := by
      simp [State.stepMain, hhead]
    obtain ⟨hreach, hdraining⟩ := h.step_main hop rfl hnext
    exact (hdraining.ends_of_ready_empty rfl rfl).of_reachable hreach

/-- The futures are set, so `cass_future_wait` does not block. -/
theorem Draining.ends_of_wait {todo : List Addr} (h : Draining s)
    (hop : s.op = some (.drainWait todo)) : Ends futureOf s := by
  induction todo generalizing s with
  | nil =>
    have hnext : s.stepMain futureOf 0 (.drainWait []) = some { s with op := some .drainFd } := rfl
    obtain ⟨hwaited, hdraining⟩ := h.step_main hop rfl hnext
    obtain ⟨hdrained, hdraining'⟩ : Reachable (step futureOf) MainOnly _ _ ∧ Draining _ :=
      hdraining.step_main rfl rfl rfl
    exact (hdraining'.ends_of_splice rfl).of_reachable (hwaited.trans hdrained)
  | cons reg todo ih =>
    have hnext : s.stepMain futureOf 0 (.drainWait (reg :: todo)) =
        some { s with op := some (.drainWait todo) } := by
      have hreg := h.covered.waiting _ hop reg List.mem_cons_self
      simp only [State.stepMain, State.stepDrainWait]
      cases hfuture : s.heap.future reg with
      | none => rfl
      | some c => simp [h.quiet.isSet reg hreg c hfuture]
    obtain ⟨hreach, hdraining⟩ := h.step_main hop rfl hnext
    exact (ih hdraining rfl).of_reachable hreach

theorem Draining.ends_of_loop (h : Draining s) (hop : s.op = some .drainLoop) :
    Ends futureOf s := by
  by_cases hempty : s.registered = []
  · exact h.ends_of_empty hop hempty
  · have hnext : s.stepMain futureOf 0 .drainLoop =
        some { s with op := some (.drainWait s.registered) } := by
      simp [State.stepMain, hempty]
    obtain ⟨hreach, hdraining⟩ := h.step_main hop rfl hnext
    exact (hdraining.ends_of_wait rfl).of_reachable hreach

/-- From wherever it stands the drain ends. -/
theorem Draining.ends (h : Draining s) {op : Op} (hop : s.op = some op)
    (hdrain : op.isDrain = true) : Ends futureOf s := by
  cases op with
  | drainLoop => exact h.ends_of_loop hop
  | drainWait todo => exact h.ends_of_wait hop
  | drainFd =>
    obtain ⟨hreach, hdraining⟩ : Reachable (step futureOf) MainOnly s _ ∧ Draining _ :=
      h.step_main hop rfl rfl
    exact (hdraining.ends_of_splice rfl).of_reachable hreach
  | drainSplice => exact h.ends_of_splice hop
  | drainConsume head rest =>
    obtain ⟨s', hreach, hdraining, hop', -⟩ := h.consume hop
    exact (hdraining.ends_of_loop hop').of_reachable hreach
  | _ => simp [Op.isDrain] at hdrain

end Rounds

/-- The record is on the list that starts at `ready_head`. -/
def ReadyReachable (s : State) (a : Addr) : Prop :=
  ∃ cells, Chain s.heap.nextReady s.readyHead cells ∧ a ∈ cells

/--
No flagged record is left behind, and the drain ends.

Between two top-level calls a registered record whose flag is set is on the
ready list, or a driver thread is about to put it there. In the drain, once
every driver future is set and its callback has run, the main thread alone
empties the registered list and returns.
-/
theorem drain_empties_registered
    {futureOf : Obj → Option CassFuture}
    {s : State}
    (hreach : Reachable (step futureOf) Contained initial s) :
    (s.TopLevel → ∀ a ∈ s.registered, s.heap.enqueued a = true →
        ReadyReachable s a ∨ a ∈ s.pushing) ∧
      (∀ op, s.op = some op → op.isDrain = true → Quiet s →
        ∃ s', Reachable (step futureOf) MainOnly s s' ∧
          s'.op = none ∧ s'.registered = []) := by
  obtain ⟨hshape, hcovered⟩ := contained_invariant hreach
  constructor
  · rintro ⟨hop, hcallers⟩ a ha hflag
    have hplaced := hcovered.flagged a ha hflag
    rw [State.mem_placed, State.callerRests, hcallers, State.opHeld_of_none hop] at hplaced
    rcases hplaced with hpushing | hready | hnil | hnil
    · exact .inr hpushing
    · exact .inl ⟨s.ready, hshape.ready_chain, hready⟩
    · simp at hnil
    · simp at hnil
  · intro op hop hdrain hquiet
    exact Draining.ends ⟨hshape, hcovered, hquiet⟩ hop hdrain

/-- The last callback of a batch ends the request with a fatal error, with
another future registered and resolved; and a request that ends with a future
in flight, which is resolved during the drain. -/
theorem drain_empties_registered_bailout :
    (∃ s, exec (step fun _ => none) Contained initial
        [.add 0 (some 7) 10, .main 0, .main 0, .main 0,
          .poll none, .main 0, .main 0, .main 0,
          .add 1 none 11, .main 0, .main 0, .main 0, .bailout] = some s ∧
      s.registered = [11] ∧ ReadyReachable s 11) ∧
    ∃ s, exec (step some) Contained initial
        [.add 0 none 10, .main 0, .main 0, .main 0, .shutdown, .main 0,
          .resolve 0, .fire 10 0, .push 10] = some s ∧
      s.registered = [10] ∧
      ∃ s', Reachable (step some) MainOnly s s' ∧
        s'.op = none ∧ s'.registered = [] := by
  constructor
  · refine ⟨_, rfl, rfl, ?_⟩
    have hboth := (drain_empties_registered (Reachable.of_exec
      (rfl : exec (step fun _ => none) Contained initial
          [.add 0 (some 7) 10, .main 0, .main 0, .main 0,
            .poll none, .main 0, .main 0, .main 0,
            .add 1 none 11, .main 0, .main 0, .main 0, .bailout] = some _))).1
      ⟨rfl, rfl⟩ 11 (by decide) (by decide)
    exact hboth.resolve_right (by decide)
  · refine ⟨_, rfl, rfl, ?_⟩
    refine (drain_empties_registered (Reachable.of_exec
      (rfl : exec (step some) Contained initial
        [.add 0 none 10, .main 0, .main 0, .main 0, .shutdown, .main 0,
          .resolve 0, .fire 10 0, .push 10] = some _))).2
      (.drainWait [10]) rfl rfl ⟨?_, rfl, rfl⟩
    intro a ha c hc
    obtain rfl : a = 10 := List.mem_singleton.mp ha
    obtain rfl : 0 = c := Option.some.inj hc
    rfl

/-- The drain of a request whose only registered record no list leads to, and
that the driver has forgotten. -/
structure Stuck (reg : Addr) (s : State) : Prop where
  registered : s.registered = [reg]
  future : s.heap.future reg = none
  readyHead : s.readyHead = none
  ready : s.ready = []
  firing : s.firing = []
  pushing : s.pushing = []
  callbacks : ∀ c, (s.futures c).callback = none
  op : s.op = some .drainLoop ∨ s.op = some (.drainWait [reg]) ∨
    s.op = some (.drainWait []) ∨ s.op = some .drainFd ∨
    s.op = some .drainSplice

theorem Stuck.busy {reg : Addr} {s : State} (h : Stuck reg s) : s.op ≠ none := by
  rcases h.op with hop | hop | hop | hop | hop <;> simp [hop]

theorem Stuck.main {futureOf : Obj → Option CassFuture} {reg fresh : Addr} {s s' : State}
    (h : Stuck reg s) (hstep : step futureOf s (.main fresh) = some s') : Stuck reg s' := by
  rcases h.op with hop | hop | hop | hop | hop
  · obtain rfl : { s with op := some (.drainWait [reg]) } = s' := by
      simpa [step, hop, State.stepMain, h.registered] using hstep
    exact { h with op := by simp }
  · obtain rfl : { s with op := some (.drainWait []) } = s' := by
      simpa [step, hop, State.stepMain, State.stepDrainWait, h.future] using hstep
    exact { h with op := by simp }
  · obtain rfl : { s with op := some .drainFd } = s' := by
      simpa [step, hop, State.stepMain, State.stepDrainWait] using hstep
    exact { h with op := by simp }
  · obtain rfl : { s with fd := false, op := some .drainSplice } = s' := by
      simpa [step, hop, State.stepMain] using hstep
    exact { h with op := by simp }
  · obtain rfl : { s.splice with op := some .drainLoop } = s' := by
      simpa [step, hop, State.stepMain, h.readyHead] using hstep
    exact { h with readyHead := rfl, ready := rfl, op := by simp }

theorem Stuck.step {futureOf : Obj → Option CassFuture} {reg : Addr} {s s' : State} {e : Event}
    (h : Stuck reg s) (hstep : Async.step futureOf s e = some s') : Stuck reg s' := by
  have hbusy := h.busy
  have huser : ∀ next, userStep s next = none := by
    simp [userStep, hbusy]
  cases e with
  | main fresh => exact h.main hstep
  | resolve c =>
    simp only [Async.step, State.resolve, h.callbacks c] at hstep
    split_ifs at hstep
    cases hstep
    refine ⟨h.registered, h.future, h.readyHead, h.ready, h.firing, h.pushing, fun c' => ?_, h.op⟩
    by_cases hc : c' = c
    · subst hc
      simp
    · simpa [Function.update_of_ne hc] using h.callbacks c'
  | fire reg ident => simp [Async.step, State.fire, h.firing] at hstep
  | push reg => simp [Async.step, State.push, h.pushing] at hstep
  | callbackReturns | callbackThrows | shutdown =>
    simp only [Async.step, huser] at hstep
    split at hstep <;> simp at hstep
  | _ => simp [Async.step, huser] at hstep

/--
A fatal error in a callback leaves the rest of the batch behind.

Futures 0 and 1 are resolved when they are added. `poll()` splices both and
calls the callback of future 0, which ends the request. Record 11 is
registered, its flag is set and it is on no list; the drain goes round for
ever, whatever the other threads do.
-/
theorem drain_never_ends_bailout :
    ∃ s, exec (step fun _ => none) (fun s e => ¬ Stale s e) initial
        [.add 0 (some 7) 10, .main 0, .main 0, .main 0,
          .add 1 none 11, .main 0, .main 0, .main 0,
          .poll none, .main 0, .main 0, .main 0, .bailout] = some s ∧
      s.TopLevel ∧ 11 ∈ s.registered ∧ s.heap.enqueued 11 = true ∧
      s.pushing = [] ∧ ¬ ReadyReachable s 11 ∧
      ∃ s', step (fun _ => none) s .shutdown = some s' ∧
        ∀ s'', Reachable (step fun _ => none) (fun _ _ => True) s' s'' →
          s''.op ≠ none ∧ 11 ∈ s''.registered := by
  refine ⟨_, rfl, ⟨rfl, rfl⟩, by decide, by decide, rfl, ?_, _, rfl, ?_⟩
  · rintro ⟨cells, hchain, hmem⟩
    obtain rfl : cells = [] := hchain.unique rfl
    simp at hmem
  · intro s'' hreach
    have hstuck : Stuck 11 s'' := by
      refine hreach.invariant ⟨rfl, rfl, rfl, rfl, rfl, rfl, fun _ => rfl, .inl rfl⟩ ?_
      exact fun _ _ _ h _ hstep => h.step hstep
    exact ⟨hstuck.busy, by simp [hstuck.registered]⟩

end Async
end ScyllaDriver
