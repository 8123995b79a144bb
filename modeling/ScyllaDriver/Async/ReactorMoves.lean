import ScyllaDriver.Async.ReactorPlaces

/-!
# What one step of the reactor can do

`Move s s'` lists the ways a step changes the records and the queues, with
the post-state written out and, where it matters, the event; `Control` lists
the steps in which only the program counter of the running method changes.
`step_move` says that every step from a state in shape is a move, unless a
driver callback works on a record that was released. All invariants of the
reactor are proved from the moves.
-/

namespace ScyllaDriver
namespace Async

open Linked

/-- Where the running method goes without touching a record. -/
inductive Control (s : State) : Event → Option Op → Prop
  | stay {e : Event} : Control s e s.op
  | poll {max : Option Int} {limit : Nat} :
      s.op = none → Control s (.poll max) (some (.pollDrain limit))
  | pollDrain {e : Event} {max : Nat} :
      s.op = some (.pollDrain max) → Control s e (some (.pollSplice max))
  | batchEnd {e : Event} {max taken : Nat} {out : List Entry} :
      s.op = some (.consume max taken none [] out) →
      Control s e (some (.finish false out))
  | limit {e : Event} {max taken : Nat} {reg : Addr} {rest : List Addr} {out : List Entry} :
      s.op = some (.consume max taken (some reg) (reg :: rest) out) →
      Control s e (some (.requeue (.batch false out) reg reg [] rest))
  | walk {e : Event} {after : After} {head tail next : Addr} {walked ahead : List Addr} :
      s.op = some (.requeue after head tail walked (next :: ahead)) →
      Control s e (some (.requeue after head next (walked ++ [tail]) ahead))
  | discarded {e : Event} :
      s.op = some (.finish true []) → Control s e none
  | reclaim {e : Event} {out : List Entry} :
      s.op = some (.finish true out) →
      Control s e (some (.reclaim out none none []))
  | nothingBack {e : Event} {tail : Option Addr} :
      s.op = some (.reclaim [] none tail []) → Control s e none
  | putBack {e : Event} {head : Addr} {tail : Option Addr} {back : List Addr} :
      s.op = some (.reclaim [] (some head) tail (head :: back)) →
      Control s e (some (.requeue .reclaimed head head [] back))
  | refused {e : Event} {reg : Addr} :
      s.op = some (.add reg .setCallback) →
      Control s e (some (.add reg (.recheck false)))
  | recheckEnqueue {e : Event} {reg : Addr} {accepted : Bool} :
      s.op = some (.add reg (.recheck accepted)) →
      Control s e (some (.add reg (.claim false)))
  | waiting {e : Event} {reg : Addr} {c : CassFuture} :
      s.op = some (.add reg (.recheck true)) →
      s.heap.future reg = some c →
      (s.futures c).isSet = false →
      Control s e none
  | already {e : Event} {reg : Addr} {inner : Bool} :
      s.op = some (.add reg (.claim inner)) →
      s.heap.enqueued reg = true →
      Control s e (State.addContinue reg inner)
  | shutdown :
      s.op = none → s.callers = [] → Control s .shutdown (some .drainLoop)
  | drained {e : Event} :
      s.op = some .drainLoop → s.registered = [] → Control s e none
  | drainWait {e : Event} :
      s.op = some .drainLoop → s.registered ≠ [] →
      Control s e (some (.drainWait s.registered))
  | waited {e : Event} {reg : Addr} {todo : List Addr} :
      s.op = some (.drainWait (reg :: todo)) →
      (∀ c, s.heap.future reg = some c → (s.futures c).isSet = true) →
      Control s e (some (.drainWait todo))
  | drainFd {e : Event} :
      s.op = some (.drainWait []) → Control s e (some .drainFd)
  | drainSplice {e : Event} :
      s.op = some .drainFd → Control s e (some .drainSplice)
  | drainRetry {e : Event} :
      s.op = some .drainSplice → s.ready = [] → Control s e (some .drainLoop)
  | drainLoop {e : Event} :
      s.op = some (.drainConsume none []) → Control s e (some .drainLoop)

inductive Move (futureOf : Obj → Option CassFuture) (s : State) :
    Event → State → Prop
  | control {e : Event} {op : Option Op} (fd : Bool) (raised : List String) :
      Control s e op →
      Move futureOf s e { s with op := op, fd := fd, raised := raised }
  | describe {e : Event} {o : Obj} :
      s.slots o = none →
      Move futureOf s e { s with notifier := Function.update s.notifier o true }
  | watch {e : Event} {o : Obj} {c : CassFuture} :
      s.slots o = none →
      (s.futures c).callback = none →
      Move futureOf s e
        { s with
          notifier := Function.update s.notifier o true
          futures :=
            Function.update s.futures c { s.futures c with callback := some .notifyCb } }
  | create {fresh : Addr} {o : Obj} {callback : Option Callable} :
      s.op = none →
      s.slots o = none →
      s.notifier o = false →
      s.heap.live fresh = false →
      Move futureOf s (.add o callback fresh)
        { s.regCreate futureOf fresh o callback s.nextIdent with
          op := some (.add fresh .link) }
  | recreate {fresh : Addr} {entry : Entry} {entries : List Entry}
      {head tail : Option Addr} {back : List Addr} :
      s.op = some (.reclaim (entry :: entries) head tail back) →
      s.heap.live fresh = false →
      Move futureOf s (.main fresh)
        { s.regCreate futureOf fresh entry.obj none entry.ticket with
          op := some (.reclaimLink fresh entries head tail back) }
  | link {e : Event} {reg : Addr} :
      s.op = some (.add reg .link) →
      Move futureOf s e
        { s.regLink reg with
          op :=
            some (.add reg
              (if (s.heap.future reg).isNone then .claim false
               else .setCallback)) }
  | relink {e : Event} {reg : Addr} {entries : List Entry} {head tail : Option Addr}
      {back : List Addr} :
      s.op = some (.reclaimLink reg entries head tail back) →
      Move futureOf s e (s.stepReclaimLink reg entries head tail back)
  | accepted {e : Event} {reg : Addr} {c : CassFuture} :
      s.op = some (.add reg .setCallback) →
      s.heap.future reg = some c →
      (s.futures c).callback = none →
      Move futureOf s e
        { s with
          futures :=
            Function.update s.futures c
              { s.futures c with
                callback := some (.reactorCb reg (s.heap.ident reg)) }
          op :=
            some (.add reg
              (if (s.futures c).isSet then .claim true
               else .recheck true)) }
  | rollback {e : Event} {reg : Addr} (raised : List String) :
      s.op = some (.add reg (.recheck false)) →
      reg ∈ s.registered →
      Move futureOf s e
        { (s.clearSlot reg).regRelease reg with
          registered := s.registered.erase reg
          pending := s.pending - 1
          op := none
          raised := raised }
  | claim {e : Event} {reg : Addr} {inner : Bool} :
      s.op = some (.add reg (.claim inner)) →
      s.heap.enqueued reg = false →
      Move futureOf s e { s.claim reg with op := some (.add reg (.push inner)) }
  | pushOwn {e : Event} {reg : Addr} {inner : Bool} :
      s.op = some (.add reg (.push inner)) →
      Move futureOf s e { s.pushReady reg with op := State.addContinue reg inner }
  | splice {e : Event} {max : Nat} :
      s.op = some (.pollSplice max) →
      Move futureOf s e { s.splice with op := some (.consume max 0 s.readyHead s.ready []) }
  | empty {e : Event} {max taken : Nat} {reg : Addr} {rest : List Addr} {out : List Entry} :
      s.op = some (.consume max taken (some reg) (reg :: rest) out) →
      reg ∈ s.registered →
      s.heap.futureObj reg = none →
      Move futureOf s e
        { s.regRelease reg with
          registered := s.registered.erase reg
          pending := s.pending - 1
          op := some (.consume max (taken + 1) (s.heap.nextReady reg) rest out) }
  | collect {e : Event} {max taken : Nat} {reg : Addr} {rest : List Addr}
      {out : List Entry} {o : Obj} :
      s.op = some (.consume max taken (some reg) (reg :: rest) out) →
      reg ∈ s.registered →
      s.heap.futureObj reg = some o →
      Move futureOf s e
        { (s.clearObj reg).regRelease reg with
          registered := s.registered.erase reg
          pending := s.pending - 1
          slots := Function.update s.slots o none
          op :=
            some (.consume max (taken + 1) (s.heap.nextReady reg) rest
              (out ++ [⟨o, s.heap.ticket reg⟩])) }
  | call {fresh : Addr} {max taken : Nat} {reg : Addr} {rest : List Addr}
      {out : List Entry} {o : Obj} :
      s.op = some (.consume max taken (some reg) (reg :: rest) out) →
      reg ∈ s.registered →
      s.heap.futureObj reg = some o →
      (s.heap.callback reg).isSome = true →
      Move futureOf s (.main fresh)
        { s with
          registered := s.registered.erase reg
          pending := s.pending - 1
          slots := Function.update s.slots o none
          op := none
          callers := ⟨max, taken, reg, s.heap.nextReady reg, rest, out⟩ :: s.callers
          delivered := s.heap.ticket reg :: s.delivered }
  | callbackEnds {e : Event} {c : Caller} {callers : List Caller} (exn : Bool) :
      s.op = none →
      s.callers = c :: callers →
      e = (if exn then .callbackThrows else .callbackReturns) →
      Move futureOf s e (s.callbackEnds c callers exn)
  | requeue {e : Event} {after : After} {head tail : Addr} {walked : List Addr} :
      s.op = some (.requeue after head tail walked []) →
      Move futureOf s e
        { s.requeueLocked head tail (walked ++ [tail]) with
          op := State.afterRequeue after }
  | deliver {fresh : Addr} {out : List Entry} :
      s.op = some (.finish false out) →
      Move futureOf s (.main fresh)
        { s with
          op := none
          delivered := out.map Entry.ticket ++ s.delivered }
  | bailout :
      s.op = none →
      Move futureOf s .bailout { s with callers := [] }
  | drainSplice {e : Event} :
      s.op = some .drainSplice →
      Move futureOf s e { s.splice with op := some (.drainConsume s.readyHead s.ready) }
  | discard {e : Event} {reg : Addr} {rest : List Addr} :
      s.op = some (.drainConsume (some reg) (reg :: rest)) →
      reg ∈ s.registered →
      Move futureOf s e
        { ((s.clearSlot reg).clearObj reg).regRelease reg with
          registered := s.registered.erase reg
          pending := s.pending - 1
          op := some (.drainConsume (s.heap.nextReady reg) rest) }
  | resolve {e : Event} {c : CassFuture} :
      (s.futures c).isSet = false →
      Move futureOf s e
        { s with
          futures := Function.update s.futures c { s.futures c with isSet := true }
          firing :=
            match (s.futures c).callback with
            | some (.reactorCb reg ident) => (reg, ident) :: s.firing
            | _ => s.firing }
  | fireAgain {e : Event} {reg : Addr} {ident : Nat} :
      (reg, ident) ∈ s.firing →
      s.heap.enqueued reg = true →
      Move futureOf s e { s with firing := s.firing.erase (reg, ident) }
  | fire {e : Event} {reg : Addr} {ident : Nat} :
      (reg, ident) ∈ s.firing →
      s.heap.enqueued reg = false →
      s.heap.live reg = true →
      s.heap.ident reg = ident →
      Move futureOf s e
        { s.claim reg with
          firing := s.firing.erase (reg, ident)
          pushing := reg :: s.pushing }
  | push {e : Event} {reg : Addr} :
      reg ∈ s.pushing →
      Move futureOf s e { s.pushReady reg with pushing := s.pushing.erase reg }

section Inversion

variable {futureOf : Obj → Option CassFuture} {s s' : State} {e : Event}

theorem Move.stay (raised : List String) : Move futureOf s e { s with raised := raised } :=
  .control s.fd raised .stay

variable {fresh : Addr}

theorem callAdd_move {o : Obj} {callback : Option Callable} (hop : s.op = none)
    (hstep : s.callAdd futureOf o callback fresh = some s') :
    Move futureOf s (.add o callback fresh) s' := by
  unfold State.callAdd at hstep
  split at hstep
  · cases hstep
    exact .stay _
  · next hclaim =>
      split_ifs at hstep with hlive
      cases hstep
      have hfree : s.slots o = none ∧ s.notifier o = false := by
        unfold claimReactor at hclaim
        split_ifs at hclaim with hslot hnotifier
        exact ⟨by simpa using hslot, by simpa using hnotifier⟩
      exact .create hop hfree.1 hfree.2 (by simpa using hlive)

theorem callPoll_move {max : Option Int} (hop : s.op = none) :
    Move futureOf s (.poll max) (s.callPoll max) := by
  unfold State.callPoll
  split
  · exact .stay _
  · exact .control s.fd s.raised (.poll hop)

theorem callDescribe_move {o : Obj} {resolved : Bool} :
    Move futureOf s e (s.callDescribe futureOf o resolved) := by
  unfold State.callDescribe
  split
  · exact .stay _
  · next hclaim =>
      have hfree : s.slots o = none := by
        unfold claimNotifier at hclaim
        split_ifs at hclaim with hslot
        simpa using hslot
      split_ifs
      · exact .stay s.raised
      · exact .describe hfree
      · cases futureOf o with
        | none => exact .stay _
        | some c =>
          simp only [State.ensureNotifier]
          split_ifs with hunset hset
          · exact .watch hfree hunset
          · exact .describe hfree
          · exact .stay _

theorem stepAdd_move {reg : Addr} {phase : AddPhase} (h : Shape s)
    (hop : s.op = some (.add reg phase)) : Move futureOf s e (s.stepAdd reg phase) := by
  cases phase with
  | link => exact .link hop
  | setCallback =>
    simp only [State.stepAdd]
    split
    · exact .stay s.raised
    · next c hfuture =>
        unfold State.addSetCallback
        split_ifs with hunset hset
        · have hmove : Move futureOf s e _ := .accepted hop hfuture hunset
          rwa [if_pos hset] at hmove
        · have hmove : Move futureOf s e _ := .accepted hop hfuture hunset
          rwa [if_neg hset] at hmove
        · exact .control s.fd s.raised (.refused hop)
  | recheck accepted =>
    simp only [State.stepAdd]
    split
    · exact .stay s.raised
    · next c hfuture =>
        unfold State.addRecheck
        split_ifs with hrollback henqueue
        · obtain ⟨rfl, -⟩ := hrollback
          have hreg : reg ∈ s.registered := (h.add_sound reg _ hop).1
          have hreg' : reg ∈ (s.clearSlot reg).registered := hreg
          rw [State.regUnregister_eq hreg']
          exact .rollback _ hop hreg
        · exact .control s.fd s.raised (.recheckEnqueue hop)
        · have hcases : accepted = true ∧ (s.futures c).isSet = false := by
            cases accepted <;> simp_all
          obtain ⟨rfl, hunset⟩ := hcases
          exact .control s.fd s.raised (.waiting hop hfuture hunset)
  | claim inner =>
    simp only [State.stepAdd]
    split_ifs with hflag
    · exact .control s.fd s.raised (.already hop hflag)
    · exact .claim hop (by simpa using hflag)
  | push inner => exact .pushOwn hop

variable {rest : List Addr}

theorem Shape.batch_head_registered (h : Shape s) {reg : Addr} (hheld : s.opHeld = reg :: rest) :
    reg ∈ s.registered :=
  h.mem_registered (by simp [State.placed, hheld])

variable {head : Option Addr}

theorem stepConsume_move {max taken : Nat} {out : List Entry} (h : Shape s)
    (hop : s.op = some (.consume max taken head rest out)) :
    Move futureOf s (.main fresh) (s.stepConsume max taken head rest out) := by
  have hchain : Chain s.heap.nextReady head rest := h.op_linked _ hop
  cases head with
  | none =>
    obtain rfl := hchain.head_eq_none_iff.mp rfl
    exact .control s.fd s.raised (.batchEnd hop)
  | some reg =>
    obtain ⟨rest, rfl, -⟩ := hchain.exists_cons
    have hreg : reg ∈ s.registered :=
      h.batch_head_registered (show s.opHeld = reg :: rest by simp [State.opHeld, hop, Op.held])
    by_cases hlimit : max ≠ 0 ∧ max ≤ taken
    · rw [State.stepConsume_limit hlimit]
      exact .control s.fd s.raised (.limit hop)
    · cases hobj : s.heap.futureObj reg with
      | none =>
        rw [State.stepConsume_empty hlimit hreg hobj]
        exact .empty hop hreg hobj
      | some o =>
        by_cases hcallback : (s.heap.callback reg).isSome = true
        · rw [State.stepConsume_call hlimit hreg hobj hcallback]
          exact .call hop hreg hobj hcallback
        · rw [State.stepConsume_collect hlimit hreg hobj hcallback]
          exact .collect hop hreg hobj

theorem stepRequeue_move {after : After} {head tail : Addr} {walked ahead : List Addr} (h : Shape s)
    (hop : s.op = some (.requeue after head tail walked ahead)) :
    Move futureOf s e (s.stepRequeue after head tail walked ahead) := by
  have hchain : Chain s.heap.nextReady (some head) (walked ++ tail :: ahead) := h.op_linked _ hop
  have hnext := hchain.next_eq_head
  unfold State.stepRequeue
  split
  · next next heq =>
      rw [heq] at hnext
      obtain ⟨ahead, rfl⟩ : ∃ rest, ahead = next :: rest := List.head?_eq_some_iff.mp hnext.symm
      exact .control s.fd s.raised (.walk hop)
  · next heq =>
      rw [heq] at hnext
      obtain rfl := List.head?_eq_none_iff.mp hnext.symm
      exact .requeue hop

theorem stepFinish_move {exn : Bool} {out : List Entry} (hop : s.op = some (.finish exn out)) :
    Move futureOf s (.main fresh) (s.stepFinish exn out) := by
  unfold State.stepFinish
  split_ifs with hexn hempty
  · subst hexn
    obtain rfl := List.isEmpty_iff.mp hempty
    exact .control s.fd s.raised (.discarded hop)
  · subst hexn
    exact .control s.fd s.raised (.reclaim hop)
  · obtain rfl : exn = false := by simpa using hexn
    exact .deliver hop

theorem stepReclaim_move {entries : List Entry} {tail : Option Addr} {back : List Addr}
    (h : Shape s) (hop : s.op = some (.reclaim entries head tail back))
    (hstep : s.stepReclaim futureOf fresh entries head tail back = some s') :
    Move futureOf s (.main fresh) s' := by
  have hchain : Chain s.heap.nextReady head back := (h.op_linked _ hop).1
  cases entries with
  | nil =>
    cases head with
    | none =>
      cases hstep
      obtain rfl := hchain.head_eq_none_iff.mp rfl
      exact .control s.fd s.raised (.nothingBack hop)
    | some first =>
      cases hstep
      obtain ⟨rest, rfl, -⟩ := hchain.exists_cons
      exact .control s.fd s.raised (.putBack hop)
  | cons entry entries =>
    simp only [State.stepReclaim] at hstep
    split_ifs at hstep with hlive
    cases hstep
    exact .recreate hop (by simpa using hlive)

theorem stepDrainWait_move {todo : List Addr} (hop : s.op = some (.drainWait todo))
    (hstep : s.stepDrainWait todo = some s') : Move futureOf s e s' := by
  cases todo with
  | nil =>
    cases hstep
    exact .control s.fd s.raised (.drainFd hop)
  | cons reg todo =>
    simp only [State.stepDrainWait] at hstep
    split at hstep
    · next hfuture =>
        cases hstep
        exact .control s.fd s.raised (.waited hop (by simp [hfuture]))
    · next c hfuture =>
        split_ifs at hstep with hset
        cases hstep
        refine .control s.fd s.raised (.waited hop ?_)
        intro c' hc
        obtain rfl := Option.some.inj (hfuture.symm.trans hc)
        exact hset

theorem stepDrainConsume_move (h : Shape s) (hop : s.op = some (.drainConsume head rest)) :
    Move futureOf s e (s.stepDrainConsume head rest) := by
  have hchain : Chain s.heap.nextReady head rest := h.op_linked _ hop
  cases head with
  | none =>
    obtain rfl := hchain.head_eq_none_iff.mp rfl
    exact .control s.fd s.raised (.drainLoop hop)
  | some reg =>
    obtain ⟨rest, rfl, -⟩ := hchain.exists_cons
    have hreg : reg ∈ s.registered :=
      h.batch_head_registered (show s.opHeld = reg :: rest by simp [State.opHeld, hop, Op.held])
    simp only [State.stepDrainConsume, State.regUnregister_eq hreg]
    exact .discard hop hreg

theorem stepMain_move {op : Op} (h : Shape s) (hop : s.op = some op)
    (hstep : s.stepMain futureOf fresh op = some s') : Move futureOf s (.main fresh) s' := by
  cases op with
  | add reg phase =>
    cases hstep
    exact stepAdd_move h hop
  | pollDrain max =>
    cases hstep
    exact .control false s.raised (.pollDrain hop)
  | pollSplice max =>
    cases hstep
    exact .splice hop
  | consume max taken head rest out =>
    cases hstep
    exact stepConsume_move h hop
  | requeue after head tail walked ahead =>
    cases hstep
    exact stepRequeue_move h hop
  | finish exn out =>
    cases hstep
    exact stepFinish_move hop
  | reclaim entries head tail back => exact stepReclaim_move h hop hstep
  | reclaimLink reg entries head tail back =>
    cases hstep
    exact .relink hop
  | drainLoop =>
    simp only [State.stepMain] at hstep
    split_ifs at hstep with hempty
    · cases hstep
      exact .control false s.raised (.drained hop (List.isEmpty_iff.mp hempty))
    · cases hstep
      exact .control s.fd s.raised (.drainWait hop (fun hnil => hempty (by simp [hnil])))
  | drainWait todo => exact stepDrainWait_move hop hstep
  | drainFd =>
    cases hstep
    exact .control false s.raised (.drainSplice hop)
  | drainSplice =>
    cases hstep
    by_cases hhead : s.readyHead.isSome = true
    · rw [if_pos hhead]
      exact .drainSplice hop
    · -- an empty ready list is left as it is
      have hnone : s.readyHead = none := by simpa using hhead
      have hnil := h.ready_chain.head_eq_none_iff.mp hnone
      have htail : s.readyTail = none := by
        rw [h.ready_last, hnil]
        rfl
      have hsame : s.splice = s := by
        cases s
        simp_all [State.splice]
      rw [if_neg hhead, hsame]
      exact .control s.fd s.raised (.drainRetry hop hnil)
  | drainConsume head rest =>
    cases hstep
    exact stepDrainConsume_move h hop

/-- Every step is a move, unless a driver callback works on a record that was
released. -/
theorem step_move (h : Shape s) (hstale : ¬ Stale s e) (hstep : step futureOf s e = some s') :
    Move futureOf s e s' := by
  cases e with
  | add o callback fresh =>
    obtain ⟨hop, hcall⟩ := userStep_eq_some hstep
    exact callAdd_move hop hcall
  | poll max =>
    obtain ⟨hop, rfl⟩ := userStep_of_some hstep
    exact callPoll_move hop
  | pending =>
    obtain ⟨hop, rfl⟩ := userStep_of_some hstep
    exact .stay s.raised
  | getResource o resolved | forFuture o =>
    obtain ⟨hop, rfl⟩ := userStep_of_some hstep
    exact callDescribe_move
  | callbackReturns =>
    obtain ⟨c, callers, hop, hcallers, rfl⟩ := callbackStep_eq_some hstep
    exact .callbackEnds false hop hcallers rfl
  | callbackThrows =>
    obtain ⟨c, callers, hop, hcallers, rfl⟩ := callbackStep_eq_some hstep
    exact .callbackEnds true hop hcallers rfl
  | bailout =>
    obtain ⟨hop, rfl⟩ := userStep_of_some hstep
    exact .bailout hop
  | shutdown =>
    simp only [step] at hstep
    split at hstep
    · next hcallers =>
        obtain ⟨hop, rfl⟩ := userStep_of_some hstep
        exact .control s.fd s.raised (.shutdown hop hcallers)
    · simp at hstep
  | main fresh =>
    simp only [step] at hstep
    split at hstep
    · simp at hstep
    · next op hop => exact stepMain_move h hop hstep
  | resolve c =>
    simp only [step, State.resolve] at hstep
    split_ifs at hstep with hset
    cases hstep
    exact .resolve (by simpa using hset)
  | fire reg ident =>
    obtain ⟨hlive, hident⟩ := not_not.mp hstale
    simp only [step, State.fire] at hstep
    split_ifs at hstep with hmem hflag
    · cases hstep
      exact .fireAgain hmem hflag
    · cases hstep
      exact .fire hmem (by simpa using hflag) hlive hident
  | push reg =>
    simp only [step, State.push] at hstep
    split_ifs at hstep with hmem
    cases hstep
    exact .push hmem

end Inversion

end Async
end ScyllaDriver
