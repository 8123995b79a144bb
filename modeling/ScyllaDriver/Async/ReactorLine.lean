import ScyllaDriver.Async.ReactorDescriptor
import ScyllaDriver.Async.ReactorHandOut
import ScyllaDriver.Library.Served

/-!
# The line of completions

The completions that were pushed and not handed out yet are spread over the array
of the running `poll()`, the rest of its batch and the ready list. Read in this
order they are the completions in the order in which they were pushed, as long as
no callback calls `poll()` again: a put-back at the front of the ready list
restores the order from before the splice.
-/

namespace ScyllaDriver
namespace Async

open Linked Transition Served

/-- No method runs but `add()`. -/
def State.Adding (s : State) : Prop :=
  ∀ op, s.op = some op → ∃ reg phase, op = .add reg phase

/-- `poll()` is not called from a callback. -/
def NotReentrant (s : State) : Event → Prop
  | .poll _ => s.callers = []
  | _ => True

instance (s : State) : DecidablePred (NotReentrant s)
  | .poll _ => inferInstanceAs (Decidable (s.callers = []))
  | .add .. | .pending | .getResource .. | .forFuture _ | .callbackReturns | .callbackThrows
  | .bailout | .shutdown | .main _ | .resolve _ | .fire .. | .push _ => isTrue trivial

/-- A step that leaves the callbacks, the deliveries and the tickets on their way,
and runs nothing but `add()`. -/
structure Adds (s s' : State) : Prop where
  callers_eq : s'.callers = s.callers
  delivered_eq : s'.delivered = s.delivered
  adding : s'.Adding
  ticket_eq : ∀ a ∈ s.onWay, s'.heap.ticket a = s.heap.ticket a

inductive Nesting (s : State) : Event → State → Prop
  | keep {e : Event} {s' : State} :
      s'.callers = s.callers →
      (s.Adding → Adds s s') →
      Nesting s e s'
  | starts {e : Event} {s' : State} :
      (∃ max, e = .poll max) ∨ e = .shutdown →
      s'.callers = s.callers →
      Nesting s e s'
  | call {fresh : Addr} {s' : State} {c : Caller} :
      ¬ s.Adding →
      s'.callers = c :: s.callers →
      s'.op = none →
      Nesting s (.main fresh) s'
  | ends {e : Event} {c : Caller} {callers : List Caller} (exn : Bool) :
      s.callers = c :: callers →
      e = (if exn then .callbackThrows else .callbackReturns) →
      Nesting s e (s.callbackEnds c callers exn)
  | bailout {s' : State} :
      Nesting s .bailout s'

section

variable {futureOf : Obj → Option CassFuture} {s s' : State} {e : Event}

theorem State.adding_of_none (hop : s.op = none) : s.Adding :=
  fun _ hsome => nomatch hop.symm.trans hsome

theorem State.adding_of_add {reg : Addr} {phase : AddPhase} (hop : s.op = some (.add reg phase)) :
    s.Adding :=
  fun _ hsome => ⟨reg, phase, Option.some.inj (hsome.symm.trans hop)⟩

theorem State.adding_of_addContinue {reg : Addr} {inner : Bool}
    (hop : s.op = State.addContinue reg inner) : s.Adding := by
  cases inner with
  | false => exact State.adding_of_none hop
  | true => exact State.adding_of_add hop

theorem State.not_adding {op : Op} (hop : s.op = some op)
    (hadd : ∀ reg phase, op ≠ .add reg phase) : ¬ s.Adding := by
  intro h
  obtain ⟨reg, phase, heq⟩ := h op hop
  exact hadd reg phase heq

theorem Control.nesting {op : Option Op} (hcontrol : Control s e op) (fd : Bool)
    (raised : List String) : Nesting s e { s with op := op, fd := fd, raised := raised } := by
  have hadds : ({ s with op := op, fd := fd, raised := raised } : State).Adding →
      Nesting s e { s with op := op, fd := fd, raised := raised } := fun hadding =>
    .keep rfl fun _ => ⟨rfl, rfl, hadding, fun _ _ => rfl⟩
  have hbusy : ∀ {running : Op}, s.op = some running → (∀ reg phase, running ≠ .add reg phase) →
      Nesting s e { s with op := op, fd := fd, raised := raised } := fun hop hadd =>
    .keep rfl fun hadding => absurd hadding (State.not_adding hop hadd)
  cases hcontrol with
  | stay => exact .keep rfl fun hadding => ⟨rfl, rfl, hadding, fun _ _ => rfl⟩
  | poll hop => exact .starts (.inl ⟨_, rfl⟩) rfl
  | shutdown hop => exact .starts (.inr rfl) rfl
  | refused hop | recheckEnqueue hop => exact hadds (State.adding_of_add rfl)
  | waiting hop => exact hadds (State.adding_of_none rfl)
  | already hop => exact hadds (State.adding_of_addContinue rfl)
  | pollDrain hop | batchEnd hop | limit hop | walk hop | discarded hop | reclaim hop
  | nothingBack hop | putBack hop | drained hop | drainWait hop | waited hop | drainFd hop
  | drainSplice hop | drainRetry hop | drainLoop hop => exact hbusy hop nofun

theorem Move.nesting (hshape : Shape s) (hmove : Move futureOf s e s') : Nesting s e s' := by
  have hadds : s'.callers = s.callers → s'.delivered = s.delivered →
      s'.heap.ticket = s.heap.ticket → (s.Adding → s'.Adding) → Nesting s e s' :=
    fun hcallers hdelivered hticket hadding => .keep hcallers fun h =>
      ⟨hcallers, hdelivered, hadding h, fun a _ => congrFun hticket a⟩
  have hbusy : ∀ {op : Op}, s.op = some op → (∀ reg phase, op ≠ .add reg phase) →
      s'.callers = s.callers → Nesting s e s' := fun hop hadd hcallers =>
    .keep hcallers fun hadding => absurd hadding (State.not_adding hop hadd)
  cases hmove with
  | control fd raised hcontrol => exact hcontrol.nesting fd raised
  | @create fresh o callback hop hfree hnotifier hdead =>
    refine .keep rfl fun _ => ⟨rfl, rfl, State.adding_of_add rfl, fun a ha => ?_⟩
    change (s.regCreate futureOf fresh o callback s.nextIdent).heap.ticket a = _
    rw [State.regCreate_ticket, if_neg]
    rintro rfl
    exact hshape.not_mem_owned_of_dead hdead (hshape.mem_owned_of_onWay ha)
  | rollback raised hop => exact hadds rfl rfl rfl fun _ => State.adding_of_none rfl
  | link hop | accepted hop | claim hop => exact hadds rfl rfl rfl fun _ => State.adding_of_add rfl
  | pushOwn hop => exact hadds rfl rfl rfl fun _ => State.adding_of_addContinue rfl
  | call hop => exact .call (State.not_adding hop nofun) rfl rfl
  | callbackEnds exn hop hcallers hevent => exact .ends exn hcallers hevent
  | bailout => exact .bailout
  | describe | watch | resolve | fireAgain | fire | push => exact hadds rfl rfl rfl id
  | recreate hop | relink hop | splice hop | empty hop | collect hop | requeue hop | deliver hop
  | drainSplice hop | discard hop => exact hbusy hop nofun rfl

/-- At most one callback runs, and while it does only `add()` is called. -/
structure Alone (s : State) : Prop where
  callers_le : s.callers.length ≤ 1
  adding : s.callers ≠ [] → s.Adding

theorem alone_initial : Alone initial :=
  ⟨Nat.zero_le 1, fun h => absurd rfl h⟩

theorem Alone.callers_eq_nil (h : Alone s) (hnot : ¬ s.Adding) : s.callers = [] := by
  by_contra hcallers
  exact hnot (h.adding hcallers)

theorem Alone.step (h : Alone s) (hshape : Shape s) (hregular : Regular s e)
    (hreentrant : NotReentrant s e) (hstep : step futureOf s e = some s') : Alone s' := by
  obtain ⟨hstale, hbailout, hshutdown⟩ := hregular
  cases (step_move hshape hstale hstep).nesting hshape with
  | keep hcallers hadds =>
    refine ⟨hcallers ▸ h.callers_le, ?_⟩
    intro hne
    rw [hcallers] at hne
    exact (hadds (h.adding hne)).adding
  | starts hevent hcallers =>
    obtain ⟨max, rfl⟩ | rfl := hevent
    · have hnone : s.callers = [] := hreentrant
      rw [hnone] at hcallers
      exact ⟨by simp [hcallers], fun hne => absurd hcallers hne⟩
    · exact absurd rfl hshutdown
  | call hnot hcallers hop =>
    refine ⟨?_, fun _ => State.adding_of_none hop⟩
    rw [hcallers, h.callers_eq_nil hnot, List.length_singleton]
  | ends exn hcallers =>
    have hle := h.callers_le
    rw [hcallers, List.length_cons] at hle
    obtain rfl := List.length_eq_zero_iff.mp (Nat.le_zero.mp (Nat.le_of_succ_le_succ hle))
    exact ⟨Nat.zero_le 1, fun hne => absurd rfl hne⟩
  | bailout => exact absurd rfl hbailout

end

/-- The tickets a running method has in hand, in the order in which they were
pushed. What `reactor_reclaim` has put back already comes first. -/
def Op.waiting (ticket : Addr → Nat) : Op → List Nat
  | .consume _ _ _ rest out => out.map Entry.ticket ++ rest.map ticket
  | .requeue (.batch _ out) _ tail walked ahead =>
    out.map Entry.ticket ++ (walked ++ tail :: ahead).map ticket
  | .requeue .reclaimed _ tail walked ahead => (walked ++ tail :: ahead).map ticket
  | .finish _ out => out.map Entry.ticket
  | .reclaim entries _ _ back => back.map ticket ++ entries.map Entry.ticket
  | .reclaimLink reg entries _ _ back =>
    (back ++ [reg]).map ticket ++ entries.map Entry.ticket
  | _ => []

/-- The same for a `poll()` that waits for a callback. -/
def Caller.waiting (ticket : Addr → Nat) (c : Caller) : List Nat :=
  c.out.map Entry.ticket ++ c.rest.map ticket

namespace State

/-- The tickets that were pushed and not handed out. -/
def waiting (s : State) : List Nat :=
  s.callers.flatMap (Caller.waiting s.heap.ticket) ++
    (s.op.elim [] (Op.waiting s.heap.ticket) ++ s.ready.map s.heap.ticket)

def line (s : State) : List Nat :=
  s.completions.reverse

end State

section

variable {futureOf : Obj → Option CassFuture} {s s' : State} {e : Event}

theorem Op.count_waiting (op : Op) (ticket : Addr → Nat) (t : Nat) :
    (op.waiting ticket).count t =
      (op.batch.map ticket).count t + (op.collected.map Entry.ticket).count t := by
  cases op with
  | requeue after head tail walked ahead =>
    cases after <;>
      simp only [Op.waiting, Op.batch, Op.collected, List.count_append, List.map_nil,
        List.count_nil] <;>
      omega
  | _ =>
    simp only [Op.waiting, Op.batch, Op.collected, List.count_append, List.map_nil,
      List.count_nil] <;>
    omega

theorem Alone.count_waiting (h : Alone s) (t : Nat) :
    s.waiting.count t + s.delivered.count t = s.pipeline.count t := by
  have hop : (s.op.elim [] (Op.waiting s.heap.ticket)).count t =
      (s.opBatch.map s.heap.ticket).count t + (s.opCollected.map Entry.ticket).count t := by
    cases hop : s.op with
    | none => simp [State.opBatch, State.opCollected, hop]
    | some op => simp [State.opBatch, State.opCollected, hop, op.count_waiting]
  rw [State.count_pipeline, State.waiting]
  have hle := h.callers_le
  cases hcallers : s.callers with
  | nil =>
    simp only [State.callerRests, State.callerOuts, hcallers, List.flatMap_nil, List.nil_append,
      List.count_append, hop, List.map_nil, List.count_nil]
    omega
  | cons c callers =>
    rw [hcallers, List.length_cons] at hle
    obtain rfl : callers = [] := List.length_eq_zero_iff.mp (by omega)
    simp only [State.callerRests, State.callerOuts, hcallers, List.flatMap_cons,
      List.flatMap_nil, List.append_nil, Caller.waiting, List.count_append, hop]
    omega

/-- Every record on its way is registered or being created, and in one place. -/
theorem Shape.onWay_subperm (h : Shape s) : s.onWay.Subperm (s.registered ++ s.opCreating) := by
  rw [List.subperm_ext_iff]
  intro a _
  have hbatch : s.opBatch.count a ≤ s.opHeld.count a + s.opCreating.count a := by
    cases hop : s.op with
    | none => simp [State.opBatch, hop]
    | some op =>
      cases op <;> simp [State.opBatch, State.opHeld, State.opCreating, hop, Op.batch, Op.held,
        Op.creating]
  have hplaced := h.placed_count a
  simp only [State.placed, List.count_append] at hplaced
  simp only [State.onWay, List.count_append]
  omega

theorem pipeline_count_le_one (hshape : Shape s) (hdelivery : Delivery s) (t : Nat) :
    s.pipeline.count t ≤ 1 := by
  have hway : (s.onWay.map s.heap.ticket).count t ≤
      ((s.registered ++ s.opCreating).map s.heap.ticket).count t := by
    obtain ⟨l, hperm, hsub⟩ := hshape.onWay_subperm
    rw [← (hperm.map s.heap.ticket).count_eq]
    exact (hsub.map s.heap.ticket).count_le t
  have hunique := hdelivery.unique t
  simp only [State.tickets, State.pipeline, List.count_append] at hunique ⊢
  omega

theorem waiting_nodup (hshape : Shape s) (hdelivery : Delivery s) (halone : Alone s) :
    s.waiting.Nodup := by
  rw [List.nodup_iff_count_le_one]
  intro t
  have hcount := halone.count_waiting t
  have hle := pipeline_count_le_one hshape hdelivery t
  omega

end

end Async
end ScyllaDriver
