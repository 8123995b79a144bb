import ScyllaDriver.Async.ReactorDelivery

/-!
# Every completion is handed out once

In every run without stale callbacks, fatal errors and request shutdown the
tickets are conserved, so between two top-level calls a completion was handed
out or its record is on the ready list, and not both. From there one `poll()`
without limit, whose callbacks return, hands out the whole list.

A stale callback breaks the ready list: it may push a record that `reg_create`
is still filling, and the last store of `reg_create` then cuts off what other
threads have pushed behind it.
-/

namespace ScyllaDriver
namespace Async

open Linked Transition

/-- The main thread goes on, and callbacks return. -/
def Polling (_ : State) (e : Event) : Prop :=
  e = .main 0 ∨ e = .callbackReturns

section HandOut

variable {futureOf : Obj → Option CassFuture} {s : State}

theorem polling_invariant {s' : State} (hshape : Shape s) (hpinned : Pinned s)
    (hreach : Reachable (step futureOf) Polling s s') : Shape s' ∧ Pinned s' := by
  induction hreach with
  | init => exact ⟨hshape, hpinned⟩
  | @step s₁ s₂ e _ hpolling hstep ih =>
    have hstale : ¬ Stale s₁ e := by
      rcases hpolling with rfl | rfl <;> exact id
    exact ⟨shape_step ih.1 hstale hstep, pinned_step ih.1 ih.2 hstale hstep⟩

theorem main_reachable {op : Op} {s' : State} (hop : s.op = some op)
    (hnext : s.stepMain futureOf 0 op = some s') : Reachable (step futureOf) Polling s s' := by
  refine Reachable.init.step (.inl rfl) ?_
  simp only [step, hop, hnext]

theorem consume_round (futureOf : Obj → Option CassFuture) {max taken : Nat} {reg : Addr}
    {rest : List Addr} {out : List Entry} (hshape : Shape s) (hpinned : Pinned s)
    (hlimit : ¬ (max ≠ 0 ∧ max ≤ taken))
    (hop : s.op = some (.consume max taken (some reg) (reg :: rest) out))
    (hcallers : s.callers = []) :
    ∃ s' out', Reachable (step futureOf) Polling s s' ∧
      s'.op = some (.consume max (taken + 1) (s.heap.nextReady reg) rest out') ∧
      s'.callers = [] ∧ s'.heap.ticket = s.heap.ticket ∧
      (∀ t ∈ s.delivered, t ∈ s'.delivered) ∧
      (∀ entry ∈ out, entry ∈ out') ∧
      (s.heap.ticket reg ∈ s'.delivered ∨ ∃ entry ∈ out', entry.ticket = s.heap.ticket reg) := by
  have hreg : reg ∈ s.registered :=
    hshape.batch_head_registered (show s.opHeld = reg :: rest by simp [State.opHeld, hop, Op.held])
  obtain ⟨o, hobj⟩ := Option.ne_none_iff_exists'.mp (hpinned reg (List.mem_append_left _ hreg))
  by_cases hcallback : (s.heap.callback reg).isSome = true
  · -- the callback is called and returns
    have hcall : s.stepConsume max taken (some reg) (reg :: rest) out = _ :=
      State.stepConsume_call hlimit hreg hobj hcallback
    refine ⟨_, out,
      (main_reachable hop (congrArg some hcall)).step (.inr rfl) rfl,
      rfl, hcallers, rfl, ?_, fun _ h => h, .inl ?_⟩
    · intro t ht
      exact List.mem_cons_of_mem _ ht
    · exact List.mem_cons_self
  · have hcollect : s.stepConsume max taken (some reg) (reg :: rest) out = _ :=
      State.stepConsume_collect hlimit hreg hobj hcallback
    refine ⟨_, _, main_reachable hop (congrArg some hcollect),
      rfl, hcallers, rfl, fun _ h => h, ?_, .inr ?_⟩
    · intro entry hentry
      exact List.mem_append_left _ hentry
    · exact ⟨⟨o, s.heap.ticket reg⟩, by simp, rfl⟩

theorem consume_hands_out {taken : Nat} {head : Option Addr} {rest : List Addr} {out : List Entry}
    (hshape : Shape s) (hpinned : Pinned s) (hop : s.op = some (.consume 0 taken head rest out))
    (hcallers : s.callers = []) :
    ∃ s', Reachable (step futureOf) Polling s s' ∧ s'.TopLevel ∧
      (∀ t ∈ s.delivered, t ∈ s'.delivered) ∧
      (∀ entry ∈ out, entry.ticket ∈ s'.delivered) ∧
      ∀ a ∈ rest, s.heap.ticket a ∈ s'.delivered := by
  have hchain : Chain s.heap.nextReady head rest := hshape.op_linked _ hop
  induction rest generalizing s taken head out with
  | nil =>
    obtain rfl := hchain.head_eq_none_iff.mpr rfl
    have hfirst : Reachable (step futureOf) Polling s { s with op := some (.finish false out) } :=
      main_reachable hop rfl
    refine ⟨_, hfirst.trans (main_reachable rfl rfl), ⟨rfl, hcallers⟩, ?_, ?_, by simp⟩
    · intro t ht
      exact List.mem_append_right _ ht
    · intro entry hentry
      exact List.mem_append_left _ (List.mem_map_of_mem hentry)
  | cons reg rest ih =>
    obtain ⟨rfl, -⟩ := hchain
    obtain ⟨s₁, out₁, hround, hop₁, hcallers₁, hticket, hkept, hout, htaken⟩ :=
      consume_round futureOf hshape hpinned (by simp) hop hcallers
    obtain ⟨hshape₁, hpinned₁⟩ := polling_invariant hshape hpinned hround
    obtain ⟨s₂, hrest, htop, hdelivered, hentries, hbatch⟩ :=
      ih hshape₁ hpinned₁ hop₁ hcallers₁ (hshape₁.op_linked _ hop₁)
    refine ⟨s₂, hround.trans hrest, htop, ?_, ?_, ?_⟩
    · exact fun t ht => hdelivered t (hkept t ht)
    · exact fun entry hentry => hentries entry (hout entry hentry)
    · intro a ha
      rcases List.mem_cons.mp ha with rfl | ha
      · rcases htaken with hnow | ⟨entry, hentry, hsame⟩
        · exact hdelivered _ hnow
        · rw [← hsame]
          exact hentries entry hentry
      · rw [← hticket]
        exact hbatch a ha

theorem poll_hands_out (futureOf : Obj → Option CassFuture) (hshape : Shape s) (hpinned : Pinned s)
    (htop : s.TopLevel) :
    ∃ s', Reachable (step futureOf) Polling (s.callPoll none) s' ∧
      s'.TopLevel ∧ ∀ a ∈ s.ready, s.heap.ticket a ∈ s'.delivered := by
  have hpoll : step futureOf s (.poll none) = some (s.callPoll none) := by
    simp [step, userStep, htop.1]
  have hshape₁ := shape_step hshape id hpoll
  have hpinned₁ := pinned_step hshape hpinned id hpoll
  have hdrain : Reachable (step futureOf) Polling (s.callPoll none)
      { s with fd := false, op := some (.pollSplice 0) } :=
    main_reachable rfl rfl
  have hsplice := hdrain.trans (main_reachable rfl rfl)
  obtain ⟨hshape₂, hpinned₂⟩ := polling_invariant hshape₁ hpinned₁ hsplice
  obtain ⟨s', hrest, htop', -, -, hbatch⟩ := consume_hands_out hshape₂ hpinned₂ rfl htop.2
  exact ⟨s', hsplice.trans hrest, htop', hbatch⟩

end HandOut

/-- No stale callback, and the request does not end. -/
def Regular (s : State) (e : Event) : Prop :=
  ¬ Stale s e ∧ e ≠ .bailout ∧ e ≠ .shutdown

instance (s : State) (e : Event) : Decidable (Regular s e) :=
  inferInstanceAs (Decidable (_ ∧ _))

/-- The record of the ticket is registered and linked in the ready list. -/
def Queued (s : State) (t : Nat) : Prop :=
  ∃ cells, Chain s.heap.nextReady s.readyHead cells ∧
    ∃ a ∈ cells, a ∈ s.registered ∧ s.heap.ticket a = t

theorem regular_invariant {futureOf : Obj → Option CassFuture} {s : State}
    (hreach : Reachable (step futureOf) Regular initial s) : Shape s ∧ Pinned s ∧ Delivery s := by
  induction hreach with
  | init => exact ⟨shape_initial, pinned_initial, delivery_initial⟩
  | step _ hregular hstep ih =>
    obtain ⟨hshape, hpinned, hdelivery⟩ := ih
    obtain ⟨hstale, hbailout, hshutdown⟩ := hregular
    have hmove := step_move hshape hstale hstep
    exact ⟨hshape.move hmove, hpinned.move hshape hmove,
      hdelivery.move hshape hpinned hbailout hshutdown hmove⟩

namespace Delivery

variable {s : State}

theorem delivered_nodup (h : Delivery s) : s.delivered.Nodup := by
  rw [List.nodup_iff_count_le_one]
  intro t
  have hle := h.unique t
  rw [State.count_tickets] at hle
  omega

theorem not_registered_of_delivered (h : Delivery s) {a : Addr} (ha : a ∈ s.registered) :
    s.heap.ticket a ∉ s.delivered := by
  intro hmem
  have hle := h.unique (s.heap.ticket a)
  have hpos := List.count_pos_iff.mpr hmem
  have hpos' := List.count_pos_iff.mpr (List.mem_map_of_mem (f := s.heap.ticket) ha)
  rw [State.count_tickets] at hle
  omega

theorem delivered_or_ready (h : Delivery s) (htop : s.TopLevel) {t : Nat} (ht : t ∈ s.completions) :
    t ∈ s.delivered ∨ ∃ a ∈ s.ready, s.heap.ticket a = t := by
  obtain ⟨hop, hcallers⟩ := htop
  have hmem := h.kept t ht
  simp only [State.pipeline, State.onWay, State.callerRests, State.opBatch,
    State.collected, State.callerOuts, State.opCollected, hop, hcallers,
    Option.elim_none, List.flatMap_nil, List.append_nil, List.map_nil,
    List.nil_append, List.mem_append, List.mem_map] at hmem
  exact hmem.symm

end Delivery

/--
No completion is lost or handed out twice.

In every state of every run, whatever the threads and the callbacks do, no
ticket was handed out twice; and between two top-level calls every ticket
whose completion was pushed was handed out, or is registered and linked in the
ready list, where a later `poll()` finds it.
-/
theorem completion_handed_out_once
    {futureOf : Obj → Option CassFuture}
    {s : State}
    (hreach : Reachable (step futureOf) Regular initial s) :
    s.delivered.Nodup ∧
      (s.TopLevel → ∀ t ∈ s.completions,
        (t ∈ s.delivered ∧ ¬ Queued s t) ∨
          (t ∉ s.delivered ∧ Queued s t ∧
            ∃ s', Reachable (step futureOf) Polling (s.callPoll none) s' ∧
              s'.TopLevel ∧ t ∈ s'.delivered)) := by
  obtain ⟨hshape, hpinned, hdelivery⟩ := regular_invariant hreach
  refine ⟨hdelivery.delivered_nodup, fun htop t ht => ?_⟩
  rcases hdelivery.delivered_or_ready htop ht with hdone | ⟨a, ha, rfl⟩
  · refine .inl ⟨hdone, ?_⟩
    rintro ⟨cells, -, a, -, hreg, rfl⟩
    exact hdelivery.not_registered_of_delivered hreg hdone
  · have hreg : a ∈ s.registered := hshape.mem_registered (by simp [State.placed, ha])
    obtain ⟨s', hpoll, htop', hall⟩ := poll_hands_out futureOf hshape hpinned htop
    exact .inr ⟨hdelivery.not_registered_of_delivered hreg,
      ⟨s.ready, hshape.ready_chain, a, ha, hreg, rfl⟩,
      s', hpoll, htop', hall a ha⟩

/-- A future is added and resolved, and its callback runs. -/
theorem completion_handed_out_once_add :
    ∃ s, exec (step some) Regular initial
        [.add 0 none 10, .main 0, .main 0, .main 0, .resolve 0, .fire 10 0,
          .push 10] = some s ∧
      0 ∈ s.completions ∧ Queued s 0 ∧ s.delivered = [] := by
  refine ⟨_, rfl, by decide, ?_, rfl⟩
  have hboth := (completion_handed_out_once (Reachable.of_exec
    (rfl : exec (step some) Regular initial
        [.add 0 none 10, .main 0, .main 0, .main 0, .resolve 0, .fire 10 0,
          .push 10] = some _))).2 ⟨rfl, rfl⟩ 0 (by decide)
  rcases hboth with ⟨hdone, -⟩ | ⟨-, hqueued, -⟩
  · exact absurd hdone (by decide)
  · exact hqueued

/--
A stale callback loses a completion.

`add()` finds the future of record 10 resolved and enqueues the record; the
driver has not run its callback yet. After `poll()` has freed the record,
`add()` gets the same memory for another future, and the late callback pushes
the half-filled record. The driver then pushes record 11 behind it, and
`reg->next_ready = nullptr` cuts record 11 off.
-/
theorem completion_lost_stale :
    ∃ s, exec (step some) (fun _ e => e ≠ .bailout ∧ e ≠ .shutdown) initial
        [.add 0 none 10, .main 0, .main 0, .resolve 0, .main 0, .main 0,
          .main 0, .poll none, .main 0, .main 0, .main 0, .main 0, .main 0,
          .add 1 none 11, .main 0, .main 0, .main 0,
          .add 2 none 10, .fire 10 0, .push 10,
          .resolve 1, .fire 11 1, .push 11,
          .main 0, .main 0, .main 0] = some s ∧
      s.TopLevel ∧ 1 ∈ s.completions ∧ 1 ∉ s.delivered ∧ ¬ Queued s 1 := by
  refine ⟨_, rfl, ⟨rfl, rfl⟩, by decide, by decide, ?_⟩
  rintro ⟨cells, hchain, a, ha, -, ht⟩
  obtain rfl : cells = [10] := hchain.unique ⟨rfl, rfl⟩
  obtain rfl : a = 10 := by simpa using ha
  exact absurd ht (by decide)

end Async
end ScyllaDriver
