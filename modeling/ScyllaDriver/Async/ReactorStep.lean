import ScyllaDriver.Async.ReactorShape

/-!
# Every step of the reactor keeps the records in place

The control steps first, then one case per move; `shape_step` puts them
together.
-/

namespace ScyllaDriver
namespace Async

open Linked

namespace Shape

variable {futureOf : Obj → Option CassFuture} {s s' : State} {e : Event}

theorem of_method (h : Shape s) {op : Option Op} (op' : Option Op) (hop : s.op = op)
    (hheld : op'.elim [] Op.held = op.elim [] Op.held)
    (hcreating : op'.elim [] Op.creating = op.elim [] Op.creating)
    (hmethod : MethodSound { s with op := op' }) : Shape { s with op := op' } := by
  subst hop
  exact h.of_op op' hheld hcreating hmethod

variable {reg : Addr}

theorem batch_head_gone (h : Shape s) {rest : List Addr} (hheld : s.opHeld = reg :: rest) :
    reg ∈ s.registered ∧
      s.pushing.count reg + s.ready.count reg + s.callerRests.count reg + rest.count reg = 0 := by
  constructor
  · exact h.mem_registered (by simp [State.placed, hheld])
  · have hone := h.placed_split reg
    rw [hheld, List.count_cons_self] at hone
    omega

theorem control (h : Shape s) {op : Option Op} (hcontrol : Control s e op) :
    Shape { s with op := op } := by
  have hbatch : ∀ op' : Op, op'.Linked s.heap.nextReady → (∀ reg phase, op' ≠ .add reg phase) →
      op'.isDrain = false → MethodSound { s with op := some op' } := by
    intro op' hlinked hadd hdrain
    exact .running rfl hlinked hadd (by simp [hdrain])
  have hdrain : ∀ op op' : Op, s.op = some op → op.isDrain = true → op'.Linked s.heap.nextReady →
      (∀ reg phase, op' ≠ .add reg phase) → MethodSound { s with op := some op' } := by
    intro op op' hop htop hlinked hadd
    exact .running rfl hlinked hadd (fun _ => h.drain_top op hop htop)
  cases hcontrol with
  | stay => exact h
  | poll hop | pollDrain hop | batchEnd hop =>
    exact h.of_method _ hop rfl rfl (hbatch _ trivial (by simp) rfl)
  | limit hop =>
    have hlinked := h.op_linked _ hop
    exact h.of_method _ hop rfl rfl (hbatch _ hlinked (by simp) rfl)
  | walk hop =>
    have hlinked := h.op_linked _ hop
    refine h.of_method _ hop (by simp [Op.held]) rfl (hbatch _ ?_ (by simp) rfl)
    simpa [Op.Linked] using hlinked
  | reclaim hop => exact h.of_method _ hop rfl rfl (hbatch _ ⟨rfl, rfl⟩ (by simp) rfl)
  | putBack hop =>
    exact h.of_method _ hop rfl rfl (hbatch _ (h.op_linked _ hop).1 (by simp) rfl)
  | refused hop =>
    have hsound := h.add_sound _ _ hop
    exact h.of_method _ hop rfl rfl (.adding rfl hsound)
  | @recheckEnqueue _ reg accepted hop =>
    have hsound := h.add_sound _ _ hop
    refine h.of_method _ hop rfl rfl (.adding rfl ?_)
    cases accepted with
    | false => exact hsound.1
    | true => exact hsound
  | @already _ reg inner hop hflag =>
    cases inner with
    | false => exact h.of_method none hop rfl rfl (.idle rfl)
    | true =>
      have hsound := h.add_sound _ _ hop
      exact h.of_method _ hop rfl rfl (.adding rfl hsound)
  | shutdown hop hcallers =>
    exact h.of_method _ hop rfl rfl (.running rfl trivial (by simp) (fun _ => hcallers))
  | discarded hop | nothingBack hop | waiting hop hfuture hunset | drained hop hnil =>
    exact h.of_method none hop rfl rfl (.idle rfl)
  | drainWait hop hne | waited hop hset | drainFd hop | drainSplice hop | drainRetry hop hnil
  | drainLoop hop => exact h.of_method _ hop rfl rfl (hdrain _ _ hop rfl trivial (by simp))

/-- A driver thread flags the record of the running `add()` only after the
driver has accepted the callback. -/
theorem claimed_sound (h : Shape s) {ident : Nat} {phase : AddPhase} {flagged published : Prop}
    (hop : s.op = some (.add reg phase)) (hout : s.Outstanding reg ident)
    (hident : s.heap.ident reg = ident) (hreg : reg ∈ s.registered) :
    phase.Sound (reg ∈ s.registered) flagged published := by
  have hsound := h.add_sound reg phase hop
  rw [hident] at hsound
  cases phase with
  | link =>
    have hmem : reg ∈ s.opCreating := by
      simp [State.opCreating, hop, Op.creating, AddPhase.creating]
    exact absurd hreg (h.creating_fresh hmem).1
  | setCallback => exact absurd hout hsound.2.2
  | recheck accepted =>
    cases accepted with
    | false => exact absurd hout hsound.2.2
    | true => exact hreg
  | claim inner => exact hreg
  | push inner => exact hreg

theorem fire (h : Shape s) {ident : Nat} (hmem : (reg, ident) ∈ s.firing)
    (hflag : s.heap.enqueued reg = false) (hlive : s.heap.live reg = true)
    (hident : s.heap.ident reg = ident) :
    Shape
      { s.claim reg with
        firing := s.firing.erase (reg, ident)
        pushing := reg :: s.pushing } := by
  have hout : s.Outstanding reg ident := .inl hmem
  have hreg := h.registered_of_outstanding hout hlive hident hflag
  have hmethod : MethodSound { s.claim reg with pushing := reg :: s.pushing } := by
    refine { h with add_sound := ?_ }
    intro reg' phase hop
    by_cases hne : reg' = reg
    · subst hne
      exact h.claimed_sound hop hout hident hreg
    · change phase.Sound _ ((s.claim reg).heap.enqueued reg' = true) _
      rw [State.claim_enqueued, if_neg hne]
      exact h.add_sound reg' phase hop
  have hclaimed : Shape { s.claim reg with op := s.op, pushing := reg :: s.pushing } := by
    apply h.claim _ hreg hflag _ rfl hmethod
    intro a
    rw [← List.singleton_append, List.count_append, count_singleton_eq_ite]
    change _ + s.opHeld.count a = _
    omega
  exact hclaimed.of_driver_le s.futures _ (fun _ _ hnew => hnew.imp_left List.mem_of_mem_erase)

theorem push (h : Shape s) (hmem : reg ∈ s.pushing) :
    Shape { s.pushReady reg with pushing := s.pushing.erase reg } := by
  have hpos := List.count_pos_iff.mpr hmem
  apply h.pushReady _ _ rfl { h with }
  intro a
  change _ + s.opHeld.count a + _ = _
  by_cases ha : a = reg
  · subst ha
    rw [List.count_erase_self, if_pos rfl]
    omega
  · rw [List.count_erase_of_ne ha, if_neg ha, Nat.add_zero]

theorem claimOwn (h : Shape s) {inner : Bool} (hop : s.op = some (.add reg (.claim inner)))
    (hflag : s.heap.enqueued reg = false) :
    Shape { s.claim reg with op := some (.add reg (.push inner)) } := by
  have hsound : reg ∈ s.registered := h.add_sound reg _ hop
  apply h.claim s.pushing hsound hflag
  · intro a
    simp only [State.opHeld, hop, Option.elim_some, Op.held, AddPhase.held,
      List.count_nil, count_singleton_eq_ite]
    omega
  · rw [State.opCreating, hop]
    rfl
  · exact .adding rfl hsound

theorem pushOwn (h : Shape s) {inner : Bool} (hop : s.op = some (.add reg (.push inner))) :
    Shape { s.pushReady reg with op := State.addContinue reg inner } := by
  have hsound : reg ∈ s.registered := h.add_sound reg _ hop
  have hheld : (State.addContinue reg inner).elim [] Op.held = [] := by
    cases inner <;> rfl
  have hmethod : MethodSound { s with op := State.addContinue reg inner } := by
    cases inner with
    | false => exact .idle rfl
    | true => exact .adding rfl hsound
  apply h.pushReady s.pushing
  · intro a
    rw [hheld]
    simp only [State.opHeld, hop, Option.elim_some, Op.held, AddPhase.held,
      List.count_nil, count_singleton_eq_ite]
    omega
  · rw [State.opCreating, hop]
    cases inner <;> rfl
  · exact hmethod

theorem releaseHead (h : Shape s) {op op' : Op} {rest : List Addr} (hop : s.op = some op)
    (hheld : op.held = reg :: rest) (hcreating : op.creating = []) (hheld' : op'.held = rest)
    (hcreating' : op'.creating = []) (hlinked : op'.Linked s.heap.nextReady)
    (hadd : ∀ reg phase, op' ≠ .add reg phase) (hdrain : op'.isDrain = true → s.callers = []) :
    Shape
      { s.regRelease reg with
        registered := s.registered.erase reg
        op := some op' } := by
  have hheldS : s.opHeld = reg :: rest := by
    rw [State.opHeld, hop]
    exact hheld
  obtain ⟨hreg, hgone⟩ := h.batch_head_gone hheldS
  apply h.release _ hreg
  · intro a ha
    rw [hheldS, List.count_cons_of_ne (fun h => ha h.symm)]
    exact congrArg (List.count a) hheld'
  · rw [Option.elim_some, hheld']
    exact hgone
  · exact hcreating'
  · rw [State.opCreating, hop]
    exact hcreating
  · exact .running rfl hlinked hadd hdrain

theorem move (h : Shape s) (hmove : Move futureOf s e s') : Shape s' := by
  cases hmove with
  | control fd raised hcontrol =>
    exact { h.control hcontrol with }
  | describe hfree => exact { h with }
  | @watch _ o c hfree hunset =>
    have hdriver := h.of_driver_le
      (Function.update s.futures c { s.futures c with callback := some .notifyCb }) s.firing
      (by
        intro reg ident hout
        rcases State.outstanding_of_update hout with hold | ⟨-, hdata⟩
        · exact hold
        · simp at hdata)
    exact { hdriver with }
  | create hop hfree hnotifier hdead =>
    apply h.regCreate hdead
    · simp [State.opCreating, hop]
    · simp [State.opHeld, hop, Op.held, AddPhase.held]
    · rfl
    · exact .adding rfl (by simp [AddPhase.Sound, State.regCreate])
  | recreate hop hdead =>
    apply h.regCreate hdead
    · simp [State.opCreating, hop, Op.creating]
    · simp [State.opHeld, hop, Op.held]
    · rfl
    · have hlinked := h.op_linked _ hop
      exact .running rfl hlinked (by simp) (by simp [Op.isDrain])
  | link hop =>
    apply h.regLink hop
    · split_ifs <;> rfl
    · split_ifs <;> rfl
    · split_ifs
      · trivial
      · exact ⟨trivial, id, id⟩
  | relink hop => exact h.stepReclaimLink hop
  | accepted hop hfuture hunset => exact h.accepted hop
  | @rollback _ reg raised hop hreg =>
    have hsound := h.add_sound reg _ hop
    have hflag : s.heap.enqueued reg = false := by
      simpa using hsound.2.1
    have hzero := List.count_eq_zero.mpr (h.not_placed_of_not_enqueued hflag)
    simp only [State.placed, List.count_append] at hzero
    have hreleased := h.release none hreg (by simp [State.opHeld, hop, Op.held, AddPhase.held])
      (by simp only [Option.elim_none, List.count_nil]; omega) rfl
      (by simp [State.opCreating, hop, Op.creating, AddPhase.creating]) (.idle rfl)
    exact { hreleased with }
  | claim hop hflag => exact h.claimOwn hop hflag
  | pushOwn hop => exact h.pushOwn hop
  | splice hop =>
    exact h.splice (by simp [State.opHeld, hop, Op.held])
      (by simp [State.opCreating, hop, Op.creating]) rfl rfl h.ready_chain
      (by simp) (by simp [Op.isDrain])
  | empty hop hreg hobj | collect hop hreg hobj =>
    have hlinked := h.op_linked _ hop
    exact { h.releaseHead hop rfl rfl rfl rfl (by exact hlinked.2) (by simp)
      (by simp [Op.isDrain]) with }
  | call hop hreg hobj =>
    exact { h.dispatch hop (h.op_linked _ hop).2 with }
  | callbackEnds exn hop hcallers => exact h.callbackEnds exn hop hcallers
  | requeue hop => exact h.requeueLocked hop
  | deliver hop => exact { h.of_method none hop rfl rfl (.idle rfl) with }
  | bailout hop => exact h.bailout hop
  | drainSplice hop =>
    exact h.splice (by simp [State.opHeld, hop, Op.held])
      (by simp [State.opCreating, hop, Op.creating]) rfl rfl h.ready_chain
      (by simp) (fun _ => h.drain_top _ hop rfl)
  | discard hop hreg =>
    have hlinked := h.op_linked _ hop
    exact { h.releaseHead hop rfl rfl rfl rfl (by exact hlinked.2) (by simp)
      (fun _ => h.drain_top _ hop rfl) with }
  | resolve hunset => exact h.resolve hunset
  | fireAgain hmem hflag =>
    exact h.of_driver_le s.futures _ (fun _ _ hnew => hnew.imp_left List.mem_of_mem_erase)
  | fire hmem hflag hlive hident => exact h.fire hmem hflag hlive hident
  | push hmem => exact h.push hmem

end Shape

/-- Every step keeps the shape, unless a driver callback works on a record
that was released. -/
theorem shape_step {futureOf : Obj → Option CassFuture} {s s' : State} {e : Event} (h : Shape s)
    (hstale : ¬ Stale s e) (hstep : step futureOf s e = some s') : Shape s' :=
  h.move (step_move h hstale hstep)

/-- In every run without a stale callback, the end of the request included, the ready list
is one chain up to its tail, and each record on its way to a delivery is in one place,
registered, live and flagged. -/
theorem records_in_one_place
    {futureOf : Obj → Option CassFuture}
    {s : State}
    (hreach : Transition.Reachable (step futureOf) (fun s e => ¬ Stale s e) initial s) :
    Linked.Chain s.heap.nextReady s.readyHead s.ready ∧ s.readyTail = s.ready.getLast? ∧
      s.placed.Nodup ∧
      ∀ a ∈ s.placed, a ∈ s.registered ∧ s.heap.live a = true ∧ s.heap.enqueued a = true := by
  have h : Shape s := by
    induction hreach with
    | init => exact shape_initial
    | step _ hstale hstep ih => exact shape_step ih hstale hstep
  have hnodup : s.placed.Nodup := List.nodup_iff_count_le_one.mpr fun a =>
    (h.placed_count a).trans (h.registered_count_le a)
  refine ⟨h.ready_chain, h.ready_last, hnodup, fun a ha => ?_⟩
  have hreg := h.mem_registered ha
  exact ⟨hreg, h.owned_live a (List.mem_append_left _ hreg), h.placed_enqueued a ha⟩

theorem pushed_record_in_place :
    ∃ events s, Transition.exec (step some) (fun s e => ¬ Stale s e) initial events = some s ∧
      10 ∈ s.placed ∧ 10 ∈ s.registered := by
  have h : Transition.exec (step some) (fun s e => ¬ Stale s e) initial
      [.add 0 none 10, .main 0, .main 0, .main 0, .resolve 0, .fire 10 0] = some _ := rfl
  exact ⟨_, _, h, by decide, ((records_in_one_place (.of_exec h)).2.2.2 10 (by decide)).1⟩

end Async
end ScyllaDriver
