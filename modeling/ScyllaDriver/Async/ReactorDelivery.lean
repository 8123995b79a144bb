import ScyllaDriver.Async.ReactorObjects

/-!
# No completion is lost or delivered twice

An `add()` call is followed by its number, the ticket. A ticket is with a
registered record, in the array of a running `poll()`, or handed out; the
array and the records change places, but a step never duplicates a ticket
(`tickets`) and never drops one whose completion was enqueued (`pipeline`).

`Conserves` says this of one step. It holds for every step of `add()`,
`poll()` and the driver threads; only the discard at request shutdown and a
fatal error in a callback drop completions.
-/

namespace ScyllaDriver
namespace Async

open Linked Transition

namespace Op

/-- The part of the array of the running `poll()` that is filled. -/
def collected : Op → List Entry
  | .consume _ _ _ _ out => out
  | .requeue (.batch _ out) _ _ _ _ => out
  | .finish _ out => out
  | .reclaim entries _ _ _ => entries
  | .reclaimLink _ entries _ _ _ => entries
  | _ => []

/-- The records of the batch of the running method, with the one that is
being created for a collected future. -/
def batch : Op → List Addr
  | .consume _ _ _ rest _ => rest
  | .requeue _ _ tail walked ahead => walked ++ tail :: ahead
  | .reclaim _ _ _ back => back
  | .reclaimLink reg _ _ _ back => back ++ [reg]
  | _ => []

end Op

namespace State

def opCollected (s : State) : List Entry :=
  s.op.elim [] Op.collected

def opBatch (s : State) : List Addr :=
  s.op.elim [] Op.batch

def callerOuts (s : State) : List Entry :=
  s.callers.flatMap Caller.out

/-- The tickets in the arrays of the running `poll()` calls. -/
def collected (s : State) : List Nat :=
  (s.callerOuts ++ s.opCollected).map Entry.ticket

/-- The records whose completion was pushed and not yet taken. -/
def onWay (s : State) : List Addr :=
  s.ready ++ (s.callerRests ++ s.opBatch)

def tickets (s : State) : List Nat :=
  (s.registered ++ s.opCreating).map s.heap.ticket ++ (s.collected ++ s.delivered)

/-- The tickets whose completion was pushed. -/
def pipeline (s : State) : List Nat :=
  s.onWay.map s.heap.ticket ++ (s.collected ++ s.delivered)

theorem count_tickets (s : State) (t : Nat) :
    s.tickets.count t =
      (s.registered.map s.heap.ticket).count t + (s.opCreating.map s.heap.ticket).count t +
        (s.callerOuts.map Entry.ticket).count t +
        (s.opCollected.map Entry.ticket).count t + s.delivered.count t := by
  simp only [tickets, collected, List.map_append, List.count_append]
  omega

theorem count_pipeline (s : State) (t : Nat) :
    s.pipeline.count t =
      (s.ready.map s.heap.ticket).count t + (s.callerRests.map s.heap.ticket).count t +
        (s.opBatch.map s.heap.ticket).count t +
        (s.callerOuts.map Entry.ticket).count t +
        (s.opCollected.map Entry.ticket).count t + s.delivered.count t := by
  simp only [pipeline, onWay, collected, List.map_append, List.count_append]
  omega

end State

/-- One step keeps the tickets apart and drops no completion. -/
structure Conserves (s s' : State) : Prop where
  tickets_le : ∀ t, s'.tickets.count t ≤ s.tickets.count t
  pipeline_le : ∀ t, s.pipeline.count t ≤ s'.pipeline.count t
  completions_le : ∀ t ∈ s'.completions, t ∈ s.completions ∨ t ∈ s'.pipeline
  nextIdent_le : s.nextIdent ≤ s'.nextIdent

/-- What every run of `add()`, `poll()` and the driver threads keeps. -/
structure Delivery (s : State) : Prop where
  unique : ∀ t, s.tickets.count t ≤ 1
  numbered : ∀ t ∈ s.tickets, t < s.nextIdent
  kept : ∀ t ∈ s.completions, t ∈ s.pipeline
  no_drain : ∀ op, s.op = some op → op.isDrain = false

theorem delivery_initial : Delivery initial := by
  constructor <;> simp [initial, State.tickets, State.collected,
    State.callerOuts, State.opCollected, State.opCreating]

namespace Conserves

variable {s s' : State}

theorem of_eq (htickets : s'.tickets = s.tickets) (hpipeline : s'.pipeline = s.pipeline)
    (hcompletions : s'.completions = s.completions) (hnext : s'.nextIdent = s.nextIdent) :
    Conserves s s' where
  tickets_le t := by rw [htickets]
  pipeline_le t := by rw [hpipeline]
  completions_le t ht := .inl (by rwa [hcompletions] at ht)
  nextIdent_le := by rw [hnext]

theorem refl (s : State) : Conserves s s :=
  of_eq rfl rfl rfl rfl

theorem unique (h : Conserves s s') (hunique : ∀ t, s.tickets.count t ≤ 1) (t : Nat) :
    s'.tickets.count t ≤ 1 :=
  le_trans (h.tickets_le t) (hunique t)

theorem numbered (h : Conserves s s') (hnumbered : ∀ t ∈ s.tickets, t < s.nextIdent) (t : Nat)
    (ht : t ∈ s'.tickets) : t < s'.nextIdent := by
  have hpos := List.count_pos_iff.mpr ht
  have hle := h.tickets_le t
  have hmem : t ∈ s.tickets := List.count_pos_iff.mp (by omega)
  exact lt_of_lt_of_le (hnumbered t hmem) h.nextIdent_le

theorem kept (h : Conserves s s') (hkept : ∀ t ∈ s.completions, t ∈ s.pipeline) (t : Nat)
    (ht : t ∈ s'.completions) : t ∈ s'.pipeline := by
  rcases h.completions_le t ht with hold | hnew
  · have hpos := List.count_pos_iff.mpr (hkept t hold)
    exact List.count_pos_iff.mp (lt_of_lt_of_le hpos (h.pipeline_le t))
  · exact hnew

end Conserves

theorem count_map_erase {l : List Addr} {a : Addr} (ha : a ∈ l) (f : Addr → Nat) (t : Nat) :
    ((l.erase a).map f).count t + (if f a = t then 1 else 0) = (l.map f).count t := by
  have hperm := ((List.perm_cons_erase ha).map f).count_eq t
  rw [hperm, List.map_cons, List.count_cons]
  simp only [beq_iff_eq]

theorem Op.mem_of_batch {op : Op} {a : Addr} (ha : a ∈ op.batch) :
    a ∈ op.held ∨ a ∈ op.creating := by
  cases op with
  | consume max taken head rest out | requeue after head tail walked ahead
  | reclaim entries head tail back => exact .inl ha
  | reclaimLink reg entries head tail back => exact List.mem_append.mp ha
  | _ => simp [Op.batch] at ha

theorem Shape.mem_owned_of_onWay {s : State} (h : Shape s) {a : Addr} (ha : a ∈ s.onWay) :
    a ∈ s.owned := by
  have hplaced : a ∈ s.placed → a ∈ s.owned := by
    intro hp
    simp [State.owned, h.mem_registered hp]
  simp only [State.onWay, List.mem_append] at ha
  rcases ha with ha | ha | ha
  · exact hplaced (by simp [State.placed, ha])
  · exact hplaced (by simp [State.placed, ha])
  · cases hop : s.op with
    | none => simp [State.opBatch, hop] at ha
    | some op =>
      simp only [State.opBatch, hop, Option.elim_some] at ha
      rcases Op.mem_of_batch ha with hheld | hcreating
      · exact hplaced (by simp [State.placed, State.opHeld, hop, hheld])
      · simp [State.owned, State.opCreating, hop, hcreating]

namespace Conserves

variable {s : State}

theorem of_op {op : Option Op} (hcollected : op.elim [] Op.collected = s.opCollected)
    (hbatch : op.elim [] Op.batch = s.opBatch) (hcreating : op.elim [] Op.creating = s.opCreating) :
    Conserves s { s with op := op } := by
  apply of_eq
  · simp only [State.tickets, State.collected, State.callerOuts,
      State.opCollected, State.opCreating] at *
    rw [hcollected, hcreating]
  · simp only [State.pipeline, State.onWay, State.callerRests, State.opBatch,
      State.collected, State.callerOuts, State.opCollected] at *
    rw [hcollected, hbatch]
  · rfl
  · rfl

attribute [local simp] State.count_tickets State.count_pipeline State.opCreating State.opCollected
  State.opBatch State.callerOuts State.callerRests Op.creating Op.collected Op.batch
  List.count_cons

/-- A movement is conservative when no ticket is counted more often than
before and no pushed one less often. -/
theorem of_counts {s' : State} (hcompletions : s'.completions = s.completions)
    (hnext : s.nextIdent ≤ s'.nextIdent)
    (h : ∀ t, s'.tickets.count t ≤ s.tickets.count t ∧ s.pipeline.count t ≤ s'.pipeline.count t) :
    Conserves s s' where
  tickets_le t := (h t).1
  pipeline_le t := (h t).2
  completions_le _ ht := .inl (hcompletions ▸ ht)
  nextIdent_le := hnext

theorem regLink {reg : Addr} {phase : AddPhase} (hop : s.op = some (.add reg .link))
    (hcreating : phase.creating reg = []) :
    Conserves s { s.regLink reg with op := some (.add reg phase) } := by
  have hlink : AddPhase.creating reg .link = [reg] := rfl
  refine of_counts rfl le_rfl (fun t => ?_)
  simp [State.regLink, hop, hcreating, hlink]

theorem pushReady {reg : Addr} {op : Option Op} {pushing : List Addr}
    (hcollected : op.elim [] Op.collected = s.opCollected)
    (hbatch : op.elim [] Op.batch = s.opBatch) (hcreating : op.elim [] Op.creating = s.opCreating) :
    Conserves s { s.pushReady reg with op := op, pushing := pushing } := by
  constructor
  case tickets_le =>
    intro t
    rw [State.count_tickets, State.count_tickets, ← hcollected, ← hcreating]
    exact le_refl _
  case pipeline_le =>
    intro t
    rw [State.count_pipeline, State.count_pipeline, ← hcollected, ← hbatch]
    simp only [State.pushReady, State.opBatch, State.opCollected,
      State.callerOuts, State.callerRests, List.map_append,
      List.count_append]
    omega
  case completions_le =>
    intro t ht
    rcases List.mem_cons.mp ht with rfl | hold
    · right
      simp [State.pipeline, State.onWay, State.pushReady]
    · exact .inl hold
  case nextIdent_le => exact le_refl _

theorem splice {max : Nat} (hop : s.op = some (.pollSplice max)) :
    Conserves s
      { s.splice with
        op := some (.consume max 0 s.readyHead s.ready []) } := by
  refine of_counts rfl le_rfl (fun t => ?_)
  simp [State.splice, hop]
  omega

variable {reg : Addr}

theorem rollback {phase : AddPhase} (hop : s.op = some (.add reg phase))
    (hreg : reg ∈ s.registered) (hcreating : phase.creating reg = []) :
    Conserves s { s with registered := s.registered.erase reg, op := none } := by
  refine of_counts rfl le_rfl (fun t => ?_)
  have := count_map_erase hreg s.heap.ticket t
  simp [hop, hcreating]
  omega

variable {head : Option Addr} {out : List Entry}

theorem dispatch {max taken : Nat} {rest : List Addr}
    (hop : s.op = some (.consume max taken (some reg) (reg :: rest) out))
    (hreg : reg ∈ s.registered) :
    Conserves s
      { s with
        registered := s.registered.erase reg
        op := none
        callers := ⟨max, taken, reg, head, rest, out⟩ :: s.callers
        delivered := s.heap.ticket reg :: s.delivered } := by
  refine of_counts rfl le_rfl (fun t => ?_)
  have := count_map_erase hreg s.heap.ticket t
  simp [hop]
  omega

theorem collect {max taken taken' : Nat} {rest : List Addr} {o : Obj}
    (hop : s.op = some (.consume max taken (some reg) (reg :: rest) out))
    (hreg : reg ∈ s.registered) :
    Conserves s
      { s with
        registered := s.registered.erase reg
        op := some (.consume max taken' head rest (out ++ [⟨o, s.heap.ticket reg⟩])) } := by
  refine of_counts rfl le_rfl (fun t => ?_)
  have := count_map_erase hreg s.heap.ticket t
  simp [hop]
  omega

theorem callbackEnds {c : Caller} {callers : List Caller} (exn : Bool) (hshape : Shape s)
    (hop : s.op = none) (hcallers : s.callers = c :: callers) :
    Conserves s (s.callbackEnds c callers exn) := by
  have hchain := hshape.caller_chain c (by simp [hcallers])
  have hnew : ∃ op, (s.callbackEnds c callers exn).op = some op ∧
      op.batch = c.rest ∧ op.collected = c.out ∧ op.creating = [] := by
    cases exn with
    | false => exact ⟨_, rfl, rfl, rfl, rfl⟩
    | true =>
      cases hhead : c.head with
      | none =>
        have hrest := hchain.head_eq_none_iff.mp hhead
        exact ⟨.finish true c.out, by simp [State.callbackEnds, hhead], hrest.symm, rfl, rfl⟩
      | some head =>
        rw [hhead] at hchain
        obtain ⟨rest, hrest, -⟩ := hchain.exists_cons
        refine ⟨State.startRequeue (.batch true c.out) head c.rest,
          by simp [State.callbackEnds, hhead], ?_, rfl, rfl⟩
        simp [State.startRequeue, Op.batch, hrest]
  obtain ⟨op, hop', hbatch, hcollected, hcreating⟩ := hnew
  refine of_counts rfl le_rfl (fun t => ?_)
  simp [-Op.creating, -Op.collected, -Op.batch, hop, hop', hcallers, hcreating, hcollected, hbatch]
  simp only [State.callbackEnds, State.clearObj, State.regRelease]
  omega

theorem requeueLocked {after : After} {head tail : Addr} {walked : List Addr}
    (hop : s.op = some (.requeue after head tail walked [])) :
    Conserves s
      { s.requeueLocked head tail (walked ++ [tail]) with
        op := State.afterRequeue after } := by
  have hafter : (State.afterRequeue after).elim [] Op.batch = [] ∧
      (State.afterRequeue after).elim [] Op.creating = [] ∧
      (State.afterRequeue after).elim [] Op.collected =
        Op.collected (.requeue after head tail walked []) := by
    cases after <;> exact ⟨rfl, rfl, rfl⟩
  refine of_counts rfl le_rfl (fun t => ?_)
  simp [State.requeueLocked, hop, hafter]
  omega

theorem deliver (hop : s.op = some (.finish false out)) :
    Conserves s
      { s with
        op := none
        delivered := out.map Entry.ticket ++ s.delivered } := by
  refine of_counts rfl le_rfl (fun t => ?_)
  simp [hop]
  omega

theorem map_regCreate_ticket {futureOf : Obj → Option CassFuture} {fresh : Addr} {o : Obj}
    {callback : Option Callable} {ticket : Nat} {l : List Addr} (hfresh : fresh ∉ l) :
    l.map (s.regCreate futureOf fresh o callback ticket).heap.ticket = l.map s.heap.ticket := by
  apply List.map_congr_left
  intro a ha
  rw [State.regCreate_ticket, if_neg]
  rintro rfl
  exact hfresh ha

theorem recreate {futureOf : Obj → Option CassFuture} {fresh : Addr} {entry : Entry}
    {entries : List Entry} {tail : Option Addr} {back : List Addr} (hshape : Shape s)
    (hdead : s.heap.live fresh = false)
    (hop : s.op = some (.reclaim (entry :: entries) head tail back)) :
    Conserves s
      { s.regCreate futureOf fresh entry.obj none entry.ticket with
        op := some (.reclaimLink fresh entries head tail back) } := by
  have hfresh := hshape.not_mem_owned_of_dead hdead
  have hregistered : fresh ∉ s.registered := by
    intro hmem
    exact hfresh (by simp [State.owned, hmem])
  have honWay : ∀ l : List Addr, (∀ a ∈ l, a ∈ s.onWay) → fresh ∉ l := by
    intro l hl hmem
    exact hfresh (hshape.mem_owned_of_onWay (hl fresh hmem))
  have hready := honWay s.ready (by simp +contextual [State.onWay])
  have hrests := honWay s.callerRests (by simp +contextual [State.onWay])
  have hback := honWay back (by
    simp +contextual [State.onWay, State.opBatch, hop, Op.batch])
  refine of_counts rfl (Nat.le_succ _) (fun t => ?_)
  simp [hop]
  change (s.registered.map _).count t + _ + _ + _ + _ ≤ _ ∧
    _ ≤ (s.ready.map _).count t + (s.callerRests.map _).count t + _ + _ + _ + _
  rw [map_regCreate_ticket hregistered, map_regCreate_ticket hready, map_regCreate_ticket hrests,
    map_regCreate_ticket hback]
  simp only [State.regCreate, State.callerRests]
  omega

theorem relink {entries : List Entry} {tail : Option Addr} {back : List Addr}
    (hop : s.op = some (.reclaimLink reg entries head tail back)) :
    Conserves s (s.stepReclaimLink reg entries head tail back) := by
  refine of_counts rfl le_rfl (fun t => ?_)
  simp [State.stepReclaimLink, State.regLink, State.claim, hop]

end Conserves

namespace Conserves

variable {futureOf : Obj → Option CassFuture} {s s' : State} {e : Event}

theorem control {op : Option Op} (hcontrol : Control s e op) : Conserves s { s with op := op } := by
  cases hcontrol with
  | stay => exact refl s
  | @walk _ after head tail next walked ahead hop =>
    apply of_op
    · cases after <;> simp [State.opCollected, hop, Op.collected]
    · simp [State.opBatch, hop, Op.batch]
    · simp [State.opCreating, hop, Op.creating]
  | @already _ reg inner hop hflag =>
    apply of_op <;> cases inner <;>
      simp [State.addContinue, State.opCollected, State.opBatch,
        State.opCreating, hop, Op.collected, Op.batch, Op.creating,
        AddPhase.creating]
  | _ =>
    rename_i hop
    apply of_op <;>
      simp_all [State.opCollected, State.opBatch, State.opCreating,
        Op.collected, Op.batch, Op.creating, AddPhase.creating]

/-- Every move but the fatal error and the discard conserves the tickets or
draws a new one. -/
theorem move (hshape : Shape s) (hpinned : Pinned s)
    (hdrain : ∀ op, s.op = some op → op.isDrain = false) (hbailout : e ≠ .bailout)
    (hmove : Move futureOf s e s') :
    Conserves s s' ∨
      ∃ fresh o callback, s.op = none ∧ s.heap.live fresh = false ∧
        s' =
          { s.regCreate futureOf fresh o callback s.nextIdent with
            op := some (.add fresh .link) } := by
  cases hmove with
  | create hop hfree hnotifier hdead =>
    exact .inr ⟨_, _, _, hop, hdead, rfl⟩
  | bailout hop => exact absurd rfl hbailout
  | drainSplice hop | discard hop hreg => simpa [Op.isDrain] using hdrain _ hop
  | @empty _ max taken reg rest out hop hreg hobj =>
    exact absurd hobj (hpinned reg (List.mem_append_left _ hreg))
  | control fd raised hcontrol =>
    exact .inl { control hcontrol with }
  | recreate hop hdead =>
    exact .inl (recreate hshape hdead hop)
  | link hop =>
    left
    apply regLink hop
    split_ifs <;> rfl
  | relink hop =>
    exact .inl (relink hop)
  | @accepted _ reg c hop hfuture hunset =>
    have hop' : Conserves s
        { s with
          op :=
            some (.add reg
              (if (s.futures c).isSet then .claim true
               else .recheck true)) } := by
      apply of_op <;> split_ifs <;>
        simp [State.opCollected, State.opBatch, State.opCreating, hop,
          Op.collected, Op.batch, Op.creating, AddPhase.creating]
    exact .inl { hop' with }
  | rollback raised hop hreg =>
    exact .inl { rollback hop hreg rfl with }
  | @claim _ reg inner hop hflag =>
    have hop' : Conserves s { s with op := some (.add reg (.push inner)) } := by
      apply of_op <;>
        simp [State.opCollected, State.opBatch, State.opCreating, hop,
          Op.collected, Op.batch, Op.creating, AddPhase.creating]
    exact .inl { hop' with }
  | @pushOwn _ reg inner hop =>
    left
    apply pushReady <;> cases inner <;>
      simp [State.addContinue, State.opCollected, State.opBatch,
        State.opCreating, hop, Op.collected, Op.batch, Op.creating,
        AddPhase.creating]
  | splice hop =>
    exact .inl (splice hop)
  | collect hop hreg hobj =>
    exact .inl { collect hop hreg with }
  | call hop hreg hobj =>
    exact .inl { dispatch hop hreg with }
  | callbackEnds exn hop hcallers =>
    exact .inl (callbackEnds exn hshape hop hcallers)
  | requeue hop =>
    exact .inl (requeueLocked hop)
  | deliver hop =>
    exact .inl (deliver hop)
  | describe hfree | watch hfree hunset | resolve hunset | fireAgain hmem hflag
  | fire hmem hflag hlive hident =>
    exact .inl { refl s with }
  | push hmem =>
    exact .inl (pushReady rfl rfl rfl)

end Conserves

theorem Move.no_drain {futureOf : Obj → Option CassFuture} {s s' : State} {e : Event}
    (hmove : Move futureOf s e s') (hshutdown : e ≠ .shutdown)
    (h : ∀ op, s.op = some op → op.isDrain = false) :
    ∀ op, s'.op = some op → op.isDrain = false := by
  cases hmove with
  | control fd raised hcontrol =>
    cases hcontrol with
    | stay => exact h
    | @already _ reg inner hop hflag =>
      cases inner <;> simp [State.addContinue, Op.isDrain]
    | shutdown hop hcallers => exact absurd rfl hshutdown
    | _ => simp_all [Op.isDrain]
  | @pushOwn _ reg inner hop =>
    cases inner <;> simp [State.addContinue, Op.isDrain]
  | @requeue _ after head tail walked hop =>
    cases after <;> simp [State.afterRequeue, Op.isDrain]
  | @callbackEnds _ c callers exn hop hcallers =>
    cases exn with
    | false => simp [State.callbackEnds, Op.isDrain]
    | true =>
      cases hhead : c.head <;>
        simp [State.callbackEnds, hhead, State.startRequeue, Op.isDrain]
  | relink hop => simp [State.stepReclaimLink, Op.isDrain]
  | drainSplice hop | discard hop hreg => simpa [Op.isDrain] using h _ hop
  | bailout hop | describe hfree | watch hfree hunset | resolve hunset | fireAgain hmem hflag
  | fire hmem hflag hlive hident | push hmem => exact h
  | _ => simp [Op.isDrain]

namespace Delivery

variable {futureOf : Obj → Option CassFuture} {s s' : State} {e : Event}

theorem create (h : Delivery s) (hshape : Shape s) {fresh : Addr} {o : Obj}
    {callback : Option Callable} (hop : s.op = none) (hdead : s.heap.live fresh = false) :
    Delivery
      { s.regCreate futureOf fresh o callback s.nextIdent with
        op := some (.add fresh .link) } := by
  have hfresh := hshape.not_mem_owned_of_dead hdead
  have hregistered : fresh ∉ s.registered := by
    intro hmem
    exact hfresh (by simp [State.owned, hmem])
  have honWay : fresh ∉ s.onWay := fun hmem =>
    hfresh (hshape.mem_owned_of_onWay hmem)
  have htickets : ∀ t,
      (State.tickets
          { s.regCreate futureOf fresh o callback s.nextIdent with
            op := some (.add fresh .link) }).count t =
        s.tickets.count t + if s.nextIdent = t then 1 else 0 := by
    intro t
    rw [State.count_tickets, State.count_tickets]
    change ((s.registered.map _).count t + ([fresh].map _).count t + _ + _ + _) = _
    rw [Conserves.map_regCreate_ticket hregistered]
    simp only [List.map_cons, List.map_nil, State.regCreate_ticket,
      List.count_cons, List.count_nil, beq_iff_eq, State.opCreating,
      State.opCollected, hop, Option.elim_none, Option.elim_some,
      Op.collected]
    simp only [State.callerOuts, State.regCreate, ↓reduceIte]
    omega
  have hpipeline :
      State.pipeline
          { s.regCreate futureOf fresh o callback s.nextIdent with
            op := some (.add fresh .link) } = s.pipeline := by
    have hway :
        State.onWay
            { s.regCreate futureOf fresh o callback s.nextIdent with
              op := some (.add fresh .link) } = s.onWay := by
      simp [State.onWay, State.opBatch, hop, Op.batch, State.callerRests, State.regCreate]
    rw [State.pipeline, hway, Conserves.map_regCreate_ticket honWay]
    simp [State.pipeline, State.collected, State.callerOuts,
      State.opCollected, hop, Op.collected, State.regCreate]
  have hnew : s.nextIdent ∉ s.tickets := fun hmem =>
    lt_irrefl _ (h.numbered _ hmem)
  constructor
  case unique =>
    intro t
    rw [htickets]
    split_ifs with ht
    · subst ht
      rw [List.count_eq_zero.mpr hnew]
    · exact h.unique t
  case numbered =>
    intro t ht
    have hpos := List.count_pos_iff.mpr ht
    rw [htickets] at hpos
    change t < s.nextIdent + 1
    split_ifs at hpos with heq
    · omega
    · exact Nat.lt_succ_of_lt (h.numbered t (List.count_pos_iff.mp hpos))
  case kept =>
    rw [hpipeline]
    exact h.kept
  case no_drain => simp [Op.isDrain]

theorem move (h : Delivery s) (hshape : Shape s) (hpinned : Pinned s) (hbailout : e ≠ .bailout)
    (hshutdown : e ≠ .shutdown) (hmove : Move futureOf s e s') : Delivery s' := by
  have hdrain := hmove.no_drain hshutdown h.no_drain
  rcases Conserves.move hshape hpinned h.no_drain hbailout hmove with
    hconserves | ⟨fresh, o, callback, hop, hdead, rfl⟩
  · exact ⟨hconserves.unique h.unique, hconserves.numbered h.numbered,
      hconserves.kept h.kept, hdrain⟩
  · exact h.create hshape hop hdead

end Delivery

end Async
end ScyllaDriver
