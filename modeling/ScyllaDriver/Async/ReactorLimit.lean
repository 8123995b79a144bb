import ScyllaDriver.Async.ReactorOrder

/-!
# What one `poll()` hands out

A `poll()` with a limit takes the first records of the ready list it has spliced
out, as many as the limit allows, and puts the others back. Whatever driver
threads push and callbacks add meanwhile comes behind them.
-/

namespace ScyllaDriver
namespace Async

open Linked Transition Served

/-- The run goes on with the `poll()` that has begun, and no callback throws. -/
def NotAborted (s : State) (e : Event) : Prop :=
  Regular s e ∧ (∀ max, e ≠ .poll max) ∧ e ≠ .callbackThrows

/-- How far a `poll()` with the limit `max` has come with the tickets `batch`; the
tickets `before` had been handed out. -/
inductive Progress (max : Nat) (before batch : List Nat) (s : State) : Prop
  | consuming {taken : Nat} {head : Option Addr} {rest : List Addr} {out : List Entry} :
      s.callers = [] →
      s.op = some (.consume max taken head rest out) →
      taken ≤ max →
      rest.map s.heap.ticket = batch.drop taken →
      (out.map Entry.ticket ++ s.delivered).Perm (batch.take taken ++ before) →
      Progress max before batch s
  | calling {c : Caller} :
      s.callers = [c] →
      s.Adding →
      c.max = max →
      c.taken < max →
      c.rest.map s.heap.ticket = batch.drop (c.taken + 1) →
      (c.out.map Entry.ticket ++ s.delivered).Perm (batch.take (c.taken + 1) ++ before) →
      Progress max before batch s
  | requeueing {out : List Entry} {head tail : Addr} {walked ahead : List Addr} :
      s.callers = [] →
      s.op = some (.requeue (.batch false out) head tail walked ahead) →
      (out.map Entry.ticket ++ s.delivered).Perm (batch.take max ++ before) →
      Progress max before batch s
  | finishing {out : List Entry} :
      s.callers = [] →
      s.op = some (.finish false out) →
      (out.map Entry.ticket ++ s.delivered).Perm (batch.take max ++ before) →
      Progress max before batch s
  | done :
      s.callers = [] →
      s.Adding →
      s.delivered.Perm (batch.take max ++ before) →
      Progress max before batch s

/-- A step that leaves the methods that run, the deliveries and the tickets. -/
structure Bystands (s s' : State) : Prop where
  op_eq : s'.op = s.op
  callers_eq : s'.callers = s.callers
  delivered_eq : s'.delivered = s.delivered
  ticket_eq : s'.heap.ticket = s.heap.ticket

section

variable {futureOf : Obj → Option CassFuture} {s s' : State} {e : Event}

theorem bystands_of_driver (hstep : step futureOf s e = some s')
    (hdriver : (∃ c, e = .resolve c) ∨ (∃ reg ident, e = .fire reg ident) ∨
      ∃ reg, e = .push reg) : Bystands s s' := by
  rcases hdriver with ⟨c, rfl⟩ | ⟨reg, ident, rfl⟩ | ⟨reg, rfl⟩
  · simp only [step, State.resolve] at hstep
    split_ifs at hstep
    cases hstep
    exact ⟨rfl, rfl, rfl, rfl⟩
  · simp only [step, State.fire] at hstep
    split_ifs at hstep
    · cases hstep
      exact ⟨rfl, rfl, rfl, rfl⟩
    · cases hstep
      exact ⟨rfl, rfl, rfl, rfl⟩
  · simp only [step, State.push] at hstep
    split_ifs at hstep
    cases hstep
    exact ⟨rfl, rfl, rfl, rfl⟩

theorem running_step {op : Op} (hop : s.op = some op) (hstep : step futureOf s e = some s') :
    (∃ fresh, e = .main fresh ∧ s.stepMain futureOf fresh op = some s') ∨ Bystands s s' := by
  have huser : ∀ next : Option State, userStep s next = some s' → False := by
    intro next hnext
    cases hop.symm.trans (userStep_eq_some hnext).1
  cases e with
  | main fresh =>
    simp only [step, hop] at hstep
    exact .inl ⟨fresh, rfl, hstep⟩
  | resolve c => exact .inr (bystands_of_driver hstep (.inl ⟨c, rfl⟩))
  | fire reg ident => exact .inr (bystands_of_driver hstep (.inr (.inl ⟨reg, ident, rfl⟩)))
  | push reg => exact .inr (bystands_of_driver hstep (.inr (.inr ⟨reg, rfl⟩)))
  | callbackReturns | callbackThrows =>
    simp only [step] at hstep
    split at hstep
    · cases hstep
    · exact (huser _ hstep).elim
  | shutdown =>
    simp only [step] at hstep
    split at hstep
    · exact (huser _ hstep).elim
    · cases hstep
  | _ => exact (huser _ hstep).elim

theorem adding_step (hshape : Shape s) (hadding : s.Adding) (hgoes : NotAborted s e)
    (hstep : step futureOf s e = some s') :
    Adds s s' ∨ ∃ c callers, s.callers = c :: callers ∧ s' = s.callbackEnds c callers false := by
  obtain ⟨⟨hstale, hbailout, hshutdown⟩, hpoll, hthrows⟩ := hgoes
  cases (step_move hshape hstale hstep).nesting hshape with
  | keep _ hadds => exact .inl (hadds hadding)
  | starts hevent =>
    obtain ⟨max, rfl⟩ | rfl := hevent
    · exact absurd rfl (hpoll max)
    · exact absurd rfl hshutdown
  | call hnot => exact absurd hadding hnot
  | ends exn hcallers hevent =>
    cases exn with
    | false => exact .inr ⟨_, _, hcallers, rfl⟩
    | true => exact absurd hevent hthrows
  | bailout => exact absurd rfl hbailout

variable {max : Nat} {before batch : List Nat}

theorem perm_hand_out {out delivered taken : List Nat} (t : Nat)
    (h : (out ++ delivered).Perm (taken ++ before)) :
    (out ++ t :: delivered).Perm (taken ++ [t] ++ before) := by
  calc (out ++ t :: delivered).Perm (t :: (out ++ delivered)) := List.perm_middle
    _ |>.Perm (t :: (taken ++ before)) := h.cons t
    _ |>.Perm (taken ++ t :: before) := List.perm_middle.symm
    _ = taken ++ [t] ++ before := List.append_cons taken t before

theorem Progress.consume {taken : Nat} {head : Option Addr} {rest : List Addr} {out : List Entry}
    (hshape : Shape s) (hpinned : Pinned s) (hmax : max ≠ 0) (hcallers : s.callers = [])
    (hop : s.op = some (.consume max taken head rest out)) (htaken : taken ≤ max)
    (hrest : rest.map s.heap.ticket = batch.drop taken)
    (hperm : (out.map Entry.ticket ++ s.delivered).Perm (batch.take taken ++ before)) :
    Progress max before batch (s.stepConsume max taken head rest out) := by
  have hchain : Chain s.heap.nextReady head rest := hshape.op_linked _ hop
  cases head with
  | none =>
    obtain rfl := hchain.head_eq_none_iff.mp rfl
    have hall : batch.take max = batch.take taken := by
      have hlength : batch.length ≤ taken := List.drop_eq_nil_iff.mp (hrest.symm.trans List.map_nil)
      rw [List.take_of_length_le hlength, List.take_of_length_le (hlength.trans htaken)]
    refine .finishing hcallers rfl ?_
    rw [hall]
    exact hperm
  | some reg =>
    obtain ⟨rest, rfl, -⟩ := hchain.exists_cons
    by_cases hlimit : max ≠ 0 ∧ max ≤ taken
    · obtain rfl : taken = max := le_antisymm htaken hlimit.2
      rw [State.stepConsume_limit hlimit]
      exact .requeueing hcallers rfl hperm
    · have hreg : reg ∈ s.registered :=
        hshape.batch_head_registered
          (show s.opHeld = reg :: rest by simp [State.opHeld, hop, Op.held])
      obtain ⟨o, hobj⟩ := Option.ne_none_iff_exists'.mp (hpinned reg (List.mem_append_left _ hreg))
      have hlt : taken < max := by omega
      rw [List.map_cons] at hrest
      have htail : rest.map s.heap.ticket = batch.drop (taken + 1) := by
        rw [← List.tail_drop, ← hrest, List.tail_cons]
      have htake : batch.take (taken + 1) = batch.take taken ++ [s.heap.ticket reg] := by
        have hget : batch[taken]? = some (s.heap.ticket reg) := by
          rw [← List.head?_drop, ← hrest, List.head?_cons]
        rw [List.take_add_one, hget, Option.toList_some]
      by_cases hcallback : (s.heap.callback reg).isSome = true
      · rw [State.stepConsume_call hlimit hreg hobj hcallback]
        refine .calling (by rw [hcallers]) (State.adding_of_none rfl) rfl hlt htail ?_
        rw [htake]
        exact perm_hand_out _ hperm
      · rw [State.stepConsume_collect hlimit hreg hobj hcallback]
        refine .consuming hcallers rfl hlt htail ?_
        rw [htake, List.map_append, List.map_singleton, List.append_assoc]
        exact perm_hand_out _ hperm

theorem Progress.step (hshape : Shape s) (hpinned : Pinned s) (hmax : max ≠ 0)
    (h : Progress max before batch s) (hgoes : NotAborted s e)
    (hstep : step futureOf s e = some s') : Progress max before batch s' := by
  cases h with
  | consuming hcallers hop htaken hrest hperm =>
    rcases running_step hop hstep with ⟨fresh, -, hmain⟩ | hstays
    · cases hmain
      exact .consume hshape hpinned hmax hcallers hop htaken hrest hperm
    · exact .consuming (hstays.callers_eq.trans hcallers) (hstays.op_eq.trans hop) htaken
        (hstays.ticket_eq ▸ hrest) (hstays.delivered_eq ▸ hperm)
  | @calling c hcallers hadding hlimit htaken hrest hperm =>
    rcases adding_step hshape hadding hgoes hstep with hadds | ⟨c', callers, hcallers', rfl⟩
    · refine .calling (hadds.callers_eq.trans hcallers) hadds.adding hlimit htaken ?_
        (hadds.delivered_eq ▸ hperm)
      rw [← hrest]
      refine List.map_congr_left fun a ha => hadds.ticket_eq a ?_
      simp [State.onWay, State.callerRests, hcallers, ha]
    · obtain ⟨rfl, rfl⟩ := List.cons.inj (hcallers.symm.trans hcallers')
      subst hlimit
      exact .consuming rfl rfl htaken hrest hperm
  | requeueing hcallers hop hperm =>
    rcases running_step hop hstep with ⟨fresh, -, hmain⟩ | hstays
    · cases hmain
      unfold State.stepRequeue
      split
      · exact .requeueing hcallers rfl hperm
      · exact .finishing hcallers rfl hperm
    · exact .requeueing (hstays.callers_eq.trans hcallers) (hstays.op_eq.trans hop)
        (hstays.delivered_eq ▸ hperm)
  | finishing hcallers hop hperm =>
    rcases running_step hop hstep with ⟨fresh, -, hmain⟩ | hstays
    · cases hmain
      exact .done hcallers (State.adding_of_none rfl) hperm
    · exact .finishing (hstays.callers_eq.trans hcallers) (hstays.op_eq.trans hop)
        (hstays.delivered_eq ▸ hperm)
  | done hcallers hadding hperm =>
    rcases adding_step hshape hadding hgoes hstep with hadds | ⟨c, callers, hcallers', -⟩
    · exact .done (hadds.callers_eq.trans hcallers) hadds.adding (hadds.delivered_eq ▸ hperm)
    · cases hcallers.symm.trans hcallers'

theorem requeue_returns {out : List Entry} {head tail : Addr} {walked ahead : List Addr}
    (hshape : Shape s) (hpinned : Pinned s) (hcallers : s.callers = [])
    (hop : s.op = some (.requeue (.batch false out) head tail walked ahead)) :
    ∃ s', Reachable (step futureOf) Polling s s' ∧ s'.TopLevel := by
  induction ahead generalizing s tail walked with
  | nil =>
    have hlast : s.heap.nextReady tail = none := Chain.next_eq_head (hshape.op_linked _ hop)
    have hlocked : Reachable (step futureOf) Polling s
        (s.stepRequeue (.batch false out) head tail walked []) :=
      main_reachable hop rfl
    rw [State.stepRequeue, hlast] at hlocked
    exact ⟨_, hlocked.trans (main_reachable rfl rfl), rfl, hcallers⟩
  | cons next ahead ih =>
    have hnext : s.heap.nextReady tail = some next := Chain.next_eq_head (hshape.op_linked _ hop)
    have hwalk : Reachable (step futureOf) Polling s
        (s.stepRequeue (.batch false out) head tail walked (next :: ahead)) :=
      main_reachable hop rfl
    rw [State.stepRequeue, hnext] at hwalk
    obtain ⟨hshape₁, hpinned₁⟩ := polling_invariant hshape hpinned hwalk
    obtain ⟨s', hrest, htop⟩ := ih hshape₁ hpinned₁ hcallers rfl
    exact ⟨s', hwalk.trans hrest, htop⟩

/-- With the driver threads at rest, a `poll()` whose callbacks return comes to its
end. -/
theorem consume_returns {taken : Nat} {head : Option Addr} {rest : List Addr} {out : List Entry}
    (hshape : Shape s) (hpinned : Pinned s) (hcallers : s.callers = [])
    (hop : s.op = some (.consume max taken head rest out)) :
    ∃ s', Reachable (step futureOf) Polling s s' ∧ s'.TopLevel := by
  have hchain : Chain s.heap.nextReady head rest := hshape.op_linked _ hop
  induction rest generalizing s taken head out with
  | nil =>
    obtain rfl := hchain.head_eq_none_iff.mpr rfl
    have hfinish : Reachable (step futureOf) Polling s { s with op := some (.finish false out) } :=
      main_reachable hop rfl
    exact ⟨_, hfinish.trans (main_reachable rfl rfl), rfl, hcallers⟩
  | cons reg rest ih =>
    obtain ⟨rfl, -⟩ := hchain
    by_cases hlimit : max ≠ 0 ∧ max ≤ taken
    · have hstart : Reachable (step futureOf) Polling s
          (s.stepConsume max taken (some reg) (reg :: rest) out) :=
        main_reachable hop rfl
      rw [State.stepConsume_limit hlimit] at hstart
      obtain ⟨hshape₁, hpinned₁⟩ := polling_invariant hshape hpinned hstart
      obtain ⟨s', hrest, htop⟩ := requeue_returns hshape₁ hpinned₁ hcallers rfl
      exact ⟨s', hstart.trans hrest, htop⟩
    · obtain ⟨s₁, out₁, hround, hop₁, hcallers₁, -⟩ :=
        consume_round futureOf hshape hpinned hlimit hop hcallers
      obtain ⟨hshape₁, hpinned₁⟩ := polling_invariant hshape hpinned hround
      obtain ⟨s₂, hrest, htop⟩ := ih hshape₁ hpinned₁ hcallers₁ hop₁ (hshape₁.op_linked _ hop₁)
      exact ⟨s₂, hround.trans hrest, htop⟩

/-- A `poll()` that has not spliced the list out yet, or its progress since then. -/
inductive Underway
    (futureOf : Obj → Option CassFuture)
    (max : Nat)
    (before : List Nat)
    (start s : State) : Prop
  | draining :
      s.callers = [] →
      s.op = some (.pollDrain max) ∨ s.op = some (.pollSplice max) →
      s.delivered = before →
      Underway futureOf max before start s
  | spliced {s₀ : State} :
      Reachable (step futureOf) NotAborted start s₀ →
      s₀.callers = [] →
      s₀.op = some (.pollSplice max) →
      s₀.delivered = before →
      Reachable (step futureOf) NotAborted s₀ s →
      Progress max before (s₀.ready.map s₀.heap.ticket) s →
      Underway futureOf max before start s

theorem Underway.step {start : State} (hshape : Shape s) (hpinned : Pinned s) (hmax : max ≠ 0)
    (hreach : Reachable (step futureOf) NotAborted start s)
    (h : Underway futureOf max before start s) (hgoes : NotAborted s e)
    (hstep : step futureOf s e = some s') : Underway futureOf max before start s' := by
  cases h with
  | draining hcallers hop hdelivered =>
    rcases hop with hop | hop
    · rcases running_step hop hstep with ⟨fresh, -, hmain⟩ | hstays
      · cases hmain
        exact .draining hcallers (.inr rfl) hdelivered
      · exact .draining (hstays.callers_eq.trans hcallers) (.inl (hstays.op_eq.trans hop))
          (hstays.delivered_eq.trans hdelivered)
    · have hone : Reachable (Async.step futureOf) NotAborted s s' := Reachable.init.step hgoes hstep
      rcases running_step hop hstep with ⟨fresh, -, hmain⟩ | hstays
      · cases hmain
        refine .spliced hreach hcallers hop hdelivered hone ?_
        refine .consuming hcallers rfl (Nat.zero_le max) rfl ?_
        rw [← hdelivered]
        exact List.Perm.refl _
      · exact .draining (hstays.callers_eq.trans hcallers) (.inr (hstays.op_eq.trans hop))
          (hstays.delivered_eq.trans hdelivered)
  | spliced hstart hcallers hop hdelivered hsince hprogress =>
    exact .spliced hstart hcallers hop hdelivered (hsince.step hgoes hstep)
      (hprogress.step hshape hpinned hmax hgoes hstep)

theorem Progress.handed_out (h : Progress max before batch s) (htop : s.TopLevel) :
    s.delivered.Perm (batch.take max ++ before) := by
  cases h with
  | calling hcallers => cases htop.2.symm.trans hcallers
  | consuming _ hop | requeueing _ hop | finishing _ hop => cases htop.1.symm.trans hop
  | done _ _ hperm => exact hperm

end

/-- A step of a run without stale callback, end of the request and re-entrant
`poll()`. -/
def guardedStep (futureOf : Obj → Option CassFuture) (s : State) (e : Event) : Option State :=
  if Regular s e ∧ NotReentrant s e then step futureOf s e else none

structure Guarded (s : State) : Prop where
  shape : Shape s
  pinned : Pinned s
  delivery : Delivery s
  alone : Alone s
  inLine : InLine s

theorem guarded_initial : Guarded initial :=
  ⟨shape_initial, pinned_initial, delivery_initial, alone_initial, inLine_initial⟩

namespace Guarded

variable {futureOf : Obj → Option CassFuture} {s s' : State} {e : Event}

theorem waiting_nodup (h : Guarded s) : s.waiting.Nodup :=
  Async.waiting_nodup h.shape h.delivery h.alone

theorem next (h : Guarded s) (hregular : Regular s e) (hreentrant : NotReentrant s e)
    (hstep : step futureOf s e = some s') : Guarded s' := by
  have hmove := step_move h.shape hregular.1 hstep
  have hline := line_step h.shape h.pinned h.delivery h.alone hregular hstep
  exact {
    shape := h.shape.move hmove
    pinned := h.pinned.move h.shape hmove
    delivery := h.delivery.move h.shape h.pinned hregular.2.1 hregular.2.2 hmove
    alone := h.alone.step h.shape hregular hreentrant hstep
    inLine := h.inLine.step h.waiting_nodup h.delivery hline }

theorem lineStep (h : Guarded s) (hstep : guardedStep futureOf s e = some s') :
    Guarded s' ∧ LineStep s e s' := by
  unfold guardedStep at hstep
  split_ifs at hstep with hcond
  exact ⟨h.next hcond.1 hcond.2 hstep, line_step h.shape h.pinned h.delivery h.alone hcond.1 hstep⟩

theorem notAborted (h : Guarded s) (hreach : Reachable (step futureOf) NotAborted s s') :
    Guarded s' := by
  refine hreach.invariant h ?_
  intro s₁ e s₂ h₁ hgoes hstep
  refine h₁.next hgoes.1 ?_ hstep
  cases e with
  | poll max => exact absurd rfl (hgoes.2.1 max)
  | _ => trivial

/-- A limited `poll()` takes the oldest completions it finds. -/
theorem limited_poll {s₁ : State} {max : Nat} (h : Guarded s) (hmax : max ≠ 0)
    (hcallers : s.callers = []) (hop : s.op = some (.pollDrain max))
    (hreach : Reachable (step futureOf) NotAborted s s₁) (htop : s₁.TopLevel) :
    ∃ s₀, Reachable (step futureOf) NotAborted s s₀ ∧
      s₀.op = some (.pollSplice max) ∧
      Reachable (step futureOf) NotAborted s₀ s₁ ∧
      left s₀.line s₀.delivered = s₀.ready.map s₀.heap.ticket ∧
      s₁.delivered.Perm ((left s₀.line s₀.delivered).take max ++ s.delivered) := by
  have hunderway : Underway futureOf max s.delivered s s₁ := by
    clear htop
    induction hreach with
    | init => exact .draining hcallers (.inl hop) rfl
    | step hbefore hgoes hstep ih =>
      have hguarded := h.notAborted hbefore
      exact ih.step hguarded.shape hguarded.pinned hmax hbefore hgoes hstep
  cases hunderway with
  | draining _ hop =>
    rcases hop with hop | hop
    · cases htop.1.symm.trans hop
    · cases htop.1.symm.trans hop
  | @spliced s₀ hstart hcallers₀ hop₀ hdelivered hsince hprogress =>
    have hready : left s₀.line s₀.delivered = s₀.ready.map s₀.heap.ticket := by
      rw [(h.notAborted hstart).inLine.left_eq, State.waiting, hcallers₀, hop₀]
      rfl
    refine ⟨s₀, hstart, hop₀, hsince, hready, ?_⟩
    rw [hready]
    exact hprogress.handed_out htop

theorem poll_returns {max : Nat} (futureOf : Obj → Option CassFuture) (h : Guarded s)
    (hcallers : s.callers = []) (hop : s.op = some (.pollDrain max)) :
    ∃ s₁, Reachable (step futureOf) Polling s s₁ ∧ s₁.TopLevel := by
  have hdrain : Reachable (step futureOf) Polling s
      { s with fd := false, op := some (.pollSplice max) } :=
    main_reachable hop rfl
  have hsplice := hdrain.trans (main_reachable rfl rfl)
  obtain ⟨hshape, hpinned⟩ := polling_invariant h.shape h.pinned hsplice
  obtain ⟨s₁, hrest, htop⟩ := consume_returns hshape hpinned hcallers rfl
  exact ⟨s₁, hsplice.trans hrest, htop⟩

end Guarded

/--
Deliveries in the order of the completions.

Among the runs without stale callback, end of the request and re-entrant
`poll()`, those in which no delivery overtakes an older completion are the runs
that call a callback only while nothing has been collected; if a `poll()` counts
as one moment, those in which a callback throws only then. And a `poll()` with a
limit that is not aborted hands out the oldest completions it finds on the ready
list, as many as the limit allows.
-/
theorem deliveries_in_completion_order
    (futureOf : Obj → Option CassFuture) :
    (∀ events,
      Throughout (guardedStep futureOf) State.Ordered initial events ↔
        EachStep (guardedStep futureOf) NothingCollected initial events) ∧
    (∀ events,
      Throughout (guardedStep futureOf) State.OrderedByPoll initial events ↔
        EachStep (guardedStep futureOf) NothingDiscarded initial events) ∧
    ∀ (s : State) (limit : Int),
      Reachable (guardedStep futureOf) (fun _ _ => True) initial s →
      s.TopLevel → 1 ≤ limit → limit < 2 ^ 32 →
      ∃ s₁, step futureOf s (.poll (some limit)) = some s₁ ∧
        (∃ s₂, Reachable (step futureOf) Polling s₁ s₂ ∧ s₂.TopLevel) ∧
        ∀ s₂, Reachable (step futureOf) NotAborted s₁ s₂ → s₂.TopLevel →
          ∃ s₀, Reachable (step futureOf) NotAborted s₁ s₀ ∧
            s₀.op = some (.pollSplice limit.toNat) ∧
            Reachable (step futureOf) NotAborted s₀ s₂ ∧
            left s₀.line s₀.delivered = s₀.ready.map s₀.heap.ticket ∧
            s₂.delivered.Perm
              ((left s₀.line s₀.delivered).take limit.toNat ++ s.delivered) := by
  refine ⟨?_, ?_, ?_⟩
  · refine throughout_iff_eachStep Guarded (fun s e s' h hstep => (h.lineStep hstep).1) ?_
      guarded_initial List.Pairwise.nil
    intro s e s' h hordered hstep
    exact ordered_step_iff h.inLine h.waiting_nodup h.delivery hordered (h.lineStep hstep).2
  · refine throughout_iff_eachStep Guarded (fun s e s' h hstep => (h.lineStep hstep).1) ?_
      guarded_initial List.Pairwise.nil
    intro s e s' h hordered hstep
    exact orderedByPoll_step_iff h.inLine h.waiting_nodup h.delivery hordered (h.lineStep hstep).2
  · intro s limit hreach htop hpos hlt
    have hguarded : Guarded s :=
      hreach.invariant guarded_initial fun s e s' h _ hstep => (h.lineStep hstep).1
    have hlimit : pollLimit (some limit) = .ok limit.toNat := by
      rw [pollLimit, if_neg (by omega), Int.emod_eq_of_lt (by omega) hlt]
    have hcall : step futureOf s (.poll (some limit)) =
        some { s with op := some (.pollDrain limit.toNat) } := by
      rw [step, userStep, if_pos htop.1, State.callPoll, hlimit]
    have hregular : Regular s (.poll (some limit)) := ⟨id, by simp, by simp⟩
    have hguarded₁ : Guarded { s with op := some (.pollDrain limit.toNat) } :=
      hguarded.next hregular htop.2 hcall
    refine ⟨_, hcall, hguarded₁.poll_returns futureOf htop.2 rfl, ?_⟩
    intro s₂ hrest htop₂
    exact hguarded₁.limited_poll (by omega) htop.2 rfl hrest htop₂

/--
A future stays behind.

Future 0 has no callback and completes before future 1, whose callback throws.
`poll()` has collected future 0 by then, so that it is put back; future 1 has been
handed out.
-/
theorem collected_future_overtaken :
    ∃ s, exec (guardedStep fun _ => none) (fun _ _ => True) initial
        [.add 0 none 10, .main 0, .main 0, .main 0,
          .add 1 (some 0) 11, .main 0, .main 0, .main 0,
          .poll none, .main 0, .main 0, .main 0, .main 0, .callbackThrows,
          .main 0, .main 12, .main 0, .main 0, .main 0] = some s ∧
      s.TopLevel ∧ s.line = [0, 1] ∧ s.delivered = [1] ∧
      ¬ s.Ordered ∧ ¬ s.OrderedByPoll := by
  refine ⟨_, rfl, by decide, by decide, by decide, ?_, ?_⟩
  · unfold State.Ordered InOrder
    decide
  · unfold State.OrderedByPoll InOrder
    decide

end Async
end ScyllaDriver
