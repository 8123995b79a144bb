import ScyllaDriver.Async.ReactorLine

/-!
# The order of the deliveries

A callback runs at once, while a future without callback is collected and only
handed out when `poll()` returns. So a callback overtakes the futures that were
collected before it; and if it throws, they are put back and stay behind until a
later `poll()`.
-/

namespace ScyllaDriver
namespace Async

open Linked Transition Served

/-- What was collected before the callback that the next step calls. -/
def State.dispatching (s : State) : Option (List Entry) :=
  match s.op with
  | some (.consume max taken (some reg) _ out) =>
    if ¬ (max ≠ 0 ∧ max ≤ taken) ∧ (s.heap.futureObj reg).isSome ∧ (s.heap.callback reg).isSome then
      some out
    else none
  | _ => none

/-- A callback is called only while nothing has been collected. -/
def NothingCollected (s : State) : Event → Prop
  | .main _ => ∀ out, s.dispatching = some out → out = []
  | _ => True

/-- A callback throws only if nothing was collected before it. -/
def NothingDiscarded (s : State) : Event → Prop
  | .callbackThrows => ∀ c callers, s.callers = c :: callers → c.out = []
  | _ => True

/-- The part of the array that is still to be returned. -/
def Op.returning : Op → List Entry
  | .consume _ _ _ _ out => out
  | .requeue (.batch false out) _ _ _ _ => out
  | .finish false out => out
  | _ => []

/-- The tickets a running `poll()` has collected and is going to return. -/
def State.returning (s : State) : List Nat :=
  (s.callerOuts ++ s.op.elim [] Op.returning).map Entry.ticket

/-- What a step does to the line, its deliveries and the array. -/
inductive LineStep (s : State) : Event → State → Prop
  | same {e : Event} {s' : State} :
      s'.completions = s.completions →
      s'.delivered = s.delivered →
      s'.waiting = s.waiting →
      (∀ t ∈ s.returning, t ∈ s'.returning) →
      (∀ c ∈ s'.callers, c ∈ s.callers) →
      NothingCollected s e →
      NothingDiscarded s e →
      LineStep s e s'
  | throws {s' : State} {c : Caller} :
      s.callers = [c] →
      s'.completions = s.completions →
      s'.delivered = s.delivered →
      s'.waiting = s.waiting →
      s.returning = c.out.map Entry.ticket →
      s'.returning = [] →
      s'.callers = [] →
      LineStep s .callbackThrows s'
  | come {e : Event} {s' : State} {reg : Addr} :
      reg ∈ s.registered →
      s'.completions = s.heap.ticket reg :: s.completions →
      s'.delivered = s.delivered →
      s'.waiting = s.waiting ++ [s.heap.ticket reg] →
      s'.returning = s.returning →
      s'.callers = s.callers →
      NothingCollected s e →
      NothingDiscarded s e →
      LineStep s e s'
  | call {fresh : Addr} {s' : State} {c : Caller} {t : Nat} {after : List Nat} :
      s.dispatching = some c.out →
      s.waiting = c.out.map Entry.ticket ++ t :: after →
      s'.completions = s.completions →
      s'.delivered = t :: s.delivered →
      s'.waiting = c.out.map Entry.ticket ++ after →
      s.returning = c.out.map Entry.ticket →
      s'.returning = c.out.map Entry.ticket →
      s'.callers = [c] →
      LineStep s (.main fresh) s'
  | deliver {e : Event} {s' : State} {out after : List Nat} :
      s.waiting = out ++ after →
      s.returning = out →
      s'.completions = s.completions →
      s'.delivered = out ++ s.delivered →
      s'.waiting = after →
      (∀ c ∈ s'.callers, c ∈ s.callers) →
      NothingCollected s e →
      NothingDiscarded s e →
      LineStep s e s'

section

variable {futureOf : Obj → Option CassFuture} {s s' : State} {e : Event}

theorem callers_stepConsume (max taken : Nat) (reg : Addr) (rest : List Addr) (out : List Entry) :
    (s.stepConsume max taken (some reg) rest out).callers =
      if ¬ (max ≠ 0 ∧ max ≤ taken) ∧ (s.heap.futureObj reg).isSome ∧
          (s.heap.callback reg).isSome then
        ⟨max, taken, reg, s.heap.nextReady reg, rest.tail, out⟩ :: s.callers
      else s.callers := by
  by_cases hlimit : max ≠ 0 ∧ max ≤ taken
  · rw [State.stepConsume_limit hlimit, if_neg fun h => h.1 hlimit]
  · simp only [State.stepConsume, if_neg hlimit]
    cases hobj : s.heap.futureObj reg with
    | none => simp [State.regUnregister, hobj, State.regRelease]
    | some o =>
      by_cases hcallback : (s.heap.callback reg).isSome
      · simp [State.regUnregister, State.clearSlot, hobj, hcallback, hlimit]
      · simp [State.regUnregister, State.clearSlot, State.clearObj, State.regRelease, hobj,
          hcallback]

theorem nothingCollected_of_keep (hstep : step futureOf s e = some s')
    (hcallers : s'.callers = s.callers) : NothingCollected s e := by
  cases e with
  | main fresh =>
    intro out hdispatch
    unfold State.dispatching at hdispatch
    split at hdispatch
    · next max taken reg rest out' hop =>
        split_ifs at hdispatch with hcall
        simp only [step, hop, State.stepMain] at hstep
        cases hstep
        rw [callers_stepConsume, if_pos hcall] at hcallers
        exact absurd hcallers (List.cons_ne_self _ _)
    · cases hdispatch
  | _ => trivial

theorem nothingDiscarded_of_keep (hstep : step futureOf s e = some s')
    (hcallers : s'.callers = s.callers) : NothingDiscarded s e := by
  cases e with
  | callbackThrows =>
    obtain ⟨c, callers, -, hcons, rfl⟩ := callbackStep_eq_some hstep
    rw [hcons] at hcallers
    exact absurd hcallers.symm (List.cons_ne_self _ _)
  | _ => trivial

theorem dispatching_of_call {fresh : Addr} {max taken : Nat} {reg : Addr} {rest : List Addr}
    {out : List Entry} (hop : s.op = some (.consume max taken (some reg) rest out))
    (hstep : step futureOf s (.main fresh) = some s') (hcallers : s'.callers ≠ s.callers) :
    s.dispatching = some out := by
  simp only [step, hop, State.stepMain] at hstep
  cases hstep
  rw [callers_stepConsume] at hcallers
  simp only [State.dispatching, hop]
  split_ifs at hcallers ⊢ with hcall
  · rfl
  · exact absurd rfl hcallers

attribute [local simp] State.waiting State.returning State.callerOuts Op.waiting Op.returning
  Caller.waiting State.regCreate State.regLink State.claim State.clearSlot State.clearObj
  State.regRelease State.splice State.stepReclaimLink State.pushReady State.addContinue
  State.requeueLocked State.afterRequeue State.callbackEnds State.startRequeue

theorem waiting_of_op {op : Option Op}
    (hop : op.elim [] (Op.waiting s.heap.ticket) =
      s.op.elim [] (Op.waiting s.heap.ticket)) : State.waiting { s with op := op } = s.waiting := by
  simp only [State.waiting, hop]

theorem Control.waiting_eq {op : Option Op} (hcontrol : Control s e op) :
    op.elim [] (Op.waiting s.heap.ticket) = s.op.elim [] (Op.waiting s.heap.ticket) := by
  cases hcontrol with
  | stay => rfl
  | @walk _ after head tail next walked ahead hop =>
    cases after <;> simp [hop]
  | @already _ reg inner hop hflag => cases inner <;> simp [hop]
  | _ => simp_all

theorem Control.returning_subset {op : Option Op} (hcontrol : Control s e op) (entry : Entry)
    (hentry : entry ∈ s.op.elim [] Op.returning) : entry ∈ op.elim [] Op.returning := by
  cases hcontrol with
  | stay => exact hentry
  | @walk _ after head tail next walked ahead hop =>
    rw [hop] at hentry
    rcases after with ⟨exn, out⟩ | _
    · cases exn <;> exact hentry
    · exact hentry
  | @already _ reg inner hop hflag => cases inner <;> simp [hop] at hentry
  | _ => simp_all

theorem Op.waiting_congr {ticket ticket' : Addr → Nat} {op : Op}
    (hsame : ∀ a ∈ op.batch, ticket' a = ticket a) : op.waiting ticket' = op.waiting ticket := by
  have hmap : op.batch.map ticket' = op.batch.map ticket := List.map_congr_left hsame
  cases op with
  | requeue after head tail walked ahead =>
    cases after <;> simp only [Op.waiting, Op.batch] at hmap ⊢ <;> rw [hmap]
  | consume max taken head rest out | reclaim entries head tail back
  | reclaimLink reg entries head tail back =>
    simp only [Op.waiting, Op.batch] at hmap ⊢
    rw [hmap]
  | _ => rfl

theorem waiting_regCreate {fresh : Addr} {o : Obj} {callback : Option Callable} {ticket : Nat}
    (hshape : Shape s) (hdead : s.heap.live fresh = false) :
    (s.regCreate futureOf fresh o callback ticket).waiting = s.waiting := by
  have hsame : ∀ a ∈ s.onWay,
      (s.regCreate futureOf fresh o callback ticket).heap.ticket a = s.heap.ticket a := by
    intro a ha
    rw [State.regCreate_ticket, if_neg]
    rintro rfl
    exact hshape.not_mem_owned_of_dead hdead (hshape.mem_owned_of_onWay ha)
  have hready : s.ready.map (s.regCreate futureOf fresh o callback ticket).heap.ticket =
      s.ready.map s.heap.ticket :=
    List.map_congr_left fun a ha => hsame a (by simp [State.onWay, ha])
  have hcallers : s.callers.flatMap
        (Caller.waiting (s.regCreate futureOf fresh o callback ticket).heap.ticket) =
      s.callers.flatMap (Caller.waiting s.heap.ticket) := by
    refine List.flatMap_congr fun c hc => ?_
    rw [Caller.waiting, Caller.waiting]
    refine congrArg (c.out.map Entry.ticket ++ ·) (List.map_congr_left fun a ha => hsame a ?_)
    simp [State.onWay, State.mem_callerRests hc ha]
  have hop : s.op.elim [] (Op.waiting (s.regCreate futureOf fresh o callback ticket).heap.ticket) =
      s.op.elim [] (Op.waiting s.heap.ticket) := by
    cases hop : s.op with
    | none => rfl
    | some op =>
      refine Op.waiting_congr fun a ha => hsame a ?_
      simp [State.onWay, State.opBatch, hop, ha]
  rw [State.waiting, State.waiting, ← hready, ← hcallers, ← hop]
  rfl

theorem waiting_callbackEnds {c : Caller} (hshape : Shape s) (hop : s.op = none)
    (hcallers : s.callers = [c]) (exn : Bool) : (s.callbackEnds c [] exn).waiting = s.waiting := by
  have hchain := hshape.caller_chain c (by simp [hcallers])
  have hheld : (s.callbackEnds c [] exn).op.elim [] (Op.waiting s.heap.ticket) =
      Caller.waiting s.heap.ticket c := by
    cases exn with
    | false => rfl
    | true =>
      cases hhead : c.head with
      | none =>
        have hrest := hchain.head_eq_none_iff.mp hhead
        simp [hhead, hrest]
      | some head =>
        rw [hhead] at hchain
        obtain ⟨rest, hrest, -⟩ := hchain.exists_cons
        simp [hhead, hrest]
  have hticket : (s.callbackEnds c [] exn).heap.ticket = s.heap.ticket := rfl
  have hready : (s.callbackEnds c [] exn).ready = s.ready := rfl
  have hnone : (s.callbackEnds c [] exn).callers = [] := rfl
  rw [State.waiting, State.waiting, hticket, hheld, hready, hnone, hcallers, hop]
  simp

theorem line_step_callback {c : Caller} {callers : List Caller} (hshape : Shape s)
    (halone : Alone s) (hop : s.op = none) (hcallers : s.callers = c :: callers) :
    LineStep s .callbackReturns (s.callbackEnds c callers false) ∧
      LineStep s .callbackThrows (s.callbackEnds c callers true) := by
  have hle := halone.callers_le
  rw [hcallers, List.length_cons] at hle
  obtain rfl : callers = [] := List.length_eq_zero_iff.mp (by omega)
  have hreturning : s.returning = c.out.map Entry.ticket := by
    simp [hcallers, hop]
  constructor
  · refine .same rfl rfl (waiting_callbackEnds hshape hop hcallers false) ?_ ?_ trivial trivial
    · intro t ht
      rw [hreturning] at ht
      simpa using ht
    · intro c' hc'
      cases hc'
  · refine .throws hcallers rfl rfl (waiting_callbackEnds hshape hop hcallers true) hreturning
      ?_ rfl
    cases hhead : c.head <;> simp [hhead]

theorem line_step (hshape : Shape s) (hpinned : Pinned s) (hdelivery : Delivery s)
    (halone : Alone s) (hregular : Regular s e) (hstep : step futureOf s e = some s') :
    LineStep s e s' := by
  have hmove : Move futureOf s e s' := step_move hshape hregular.1 hstep
  have hsame : s'.completions = s.completions → s'.delivered = s.delivered →
      s'.waiting = s.waiting → (∀ t ∈ s.returning, t ∈ s'.returning) →
      s'.callers = s.callers → LineStep s e s' := by
    intro hcompletions hdelivered hwaiting hreturning hcallers
    exact .same hcompletions hdelivered hwaiting hreturning (fun c hc => hcallers ▸ hc)
      (nothingCollected_of_keep hstep hcallers) (nothingDiscarded_of_keep hstep hcallers)
  cases hmove with
  | control fd raised hcontrol =>
    refine hsame rfl rfl (waiting_of_op hcontrol.waiting_eq) ?_ rfl
    intro t ht
    obtain ⟨entry, hentry, rfl⟩ := List.mem_map.mp ht
    refine List.mem_map_of_mem ?_
    rcases List.mem_append.mp hentry with hentry | hentry
    · exact List.mem_append_left _ hentry
    · exact List.mem_append_right _ (hcontrol.returning_subset entry hentry)
  | create hop hfree hnotifier hdead | recreate hop hdead =>
    refine hsame rfl rfl ((waiting_of_op ?_).trans (waiting_regCreate hshape hdead)) ?_ rfl
    · simp [hop]
    · simp [hop]
  | @pushOwn _ reg inner hop =>
    have hreg : reg ∈ s.registered := hshape.add_sound reg _ hop
    refine .come hreg rfl rfl ?_ ?_ rfl (nothingCollected_of_keep hstep rfl)
      (nothingDiscarded_of_keep hstep rfl)
    · cases inner <;> simp [hop]
    · cases inner <;> simp [hop]
  | link hop | relink hop | accepted hop hfuture hunset | rollback raised hop hreg
  | claim hop hflag | splice hop => exact hsame rfl rfl (by simp [hop]) (by simp [hop]) rfl
  | empty hop hreg hobj => exact absurd hobj (hpinned _ (List.mem_append_left _ hreg))
  | collect hop hreg hobj =>
    refine hsame rfl rfl (by simp [hop]) ?_ rfl
    · intro t ht
      simp only [State.returning, State.callerOuts, State.clearObj, State.regRelease, hop,
        Op.returning, Option.elim_some, List.map_append, List.mem_append] at ht ⊢
      exact ht.imp_right .inl
  | @call _ max taken reg rest out o hop hreg hobj =>
    have hcallers : s.callers = [] :=
      halone.callers_eq_nil (State.not_adding hop (by simp))
    have hwaiting : s.waiting = out.map Entry.ticket ++
        s.heap.ticket reg :: (rest.map s.heap.ticket ++ s.ready.map s.heap.ticket) := by
      simp [hcallers, hop]
    refine .call (c := ⟨max, taken, reg, s.heap.nextReady reg, rest, out⟩)
      (dispatching_of_call hop hstep (List.cons_ne_self _ _)) hwaiting rfl rfl ?_ ?_ ?_ ?_
    · simp [hcallers]
    · simp [hcallers, hop]
    · simp [hcallers]
    · simp [hcallers]
  | callbackEnds exn hop hcallers hevent =>
    subst hevent
    cases exn with
    | false => exact (line_step_callback hshape halone hop hcallers).1
    | true => exact (line_step_callback hshape halone hop hcallers).2
  | @requeue _ after head tail walked hop =>
    rcases after with ⟨exn, out⟩ | _
    · exact hsame rfl rfl (by simp [hop]) (by cases exn <;> simp [hop]) rfl
    · exact hsame rfl rfl (by simp [hop]) (by simp [hop]) rfl
  | @deliver _ out hop =>
    have hcallers : s.callers = [] :=
      halone.callers_eq_nil (State.not_adding hop (by simp))
    have hwaiting : s.waiting = out.map Entry.ticket ++ s.ready.map s.heap.ticket := by
      simp [hcallers, hop]
    refine .deliver hwaiting ?_ rfl rfl ?_ (fun c hc => hc) (nothingCollected_of_keep hstep rfl)
      (nothingDiscarded_of_keep hstep rfl)
    · simp [hcallers, hop]
    · simp [hcallers]
  | bailout hop => exact absurd rfl hregular.2.1
  | drainSplice hop => simpa [Op.isDrain] using hdelivery.no_drain _ hop
  | discard hop hreg => simpa [Op.isDrain] using hdelivery.no_drain _ hop
  | describe hfree | watch hfree hunset | resolve hunset | fireAgain hmem hflag
  | fire hmem hflag hlive hident => exact hsame rfl rfl rfl (fun _ ht => ht) rfl
  | @push _ reg hmem =>
    have hreg : reg ∈ s.registered := hshape.mem_registered (by simp [State.placed, hmem])
    refine .come hreg rfl rfl ?_ rfl rfl (nothingCollected_of_keep hstep rfl)
      (nothingDiscarded_of_keep hstep rfl)
    simp

/-- Those in line are waiting; and what a callback overtook came before it. -/
structure InLine (s : State) : Prop where
  left_eq : left s.line s.delivered = s.waiting
  called : ∀ c ∈ s.callers, ∃ b ∈ s.delivered, ∀ entry ∈ c.out, [entry.ticket, b].Sublist s.line

theorem inLine_initial : InLine initial where
  left_eq := rfl
  called := fun _ hc => nomatch hc

theorem filter_not_mem_append {out after : List Nat} (hnodup : (out ++ after).Nodup) :
    (out ++ after).filter (· ∉ out) = after := by
  rw [List.filter_append, List.filter_eq_nil_iff.mpr (by simp), List.nil_append,
    List.filter_eq_self]
  intro a ha
  simpa using fun hout => List.disjoint_of_nodup_append hnodup hout ha

theorem filter_ne_middle {out after : List Nat} {t : Nat} (hnodup : (out ++ t :: after).Nodup) :
    (out ++ t :: after).filter (· ∉ [t]) = out ++ after := by
  have hout : t ∉ out := fun hmem =>
    List.disjoint_of_nodup_append hnodup hmem List.mem_cons_self
  have hafter : t ∉ after := (List.nodup_cons.mp (List.nodup_append.mp hnodup).2.1).1
  rw [List.filter_append, List.filter_cons_of_neg (by simp)]
  congr 1
  · rw [List.filter_eq_self]
    intro a ha
    simpa using fun heq : a = t => hout (heq ▸ ha)
  · rw [List.filter_eq_self]
    intro a ha
    simpa using fun heq : a = t => hafter (heq ▸ ha)

theorem InLine.step (h : InLine s) (hnodup : s.waiting.Nodup) (hdelivery : Delivery s)
    (hline : LineStep s e s') : InLine s' := by
  cases hline with
  | same hcompletions hdelivered hwaiting _ hcallers =>
    have hline : s'.line = s.line := congrArg List.reverse hcompletions
    refine ⟨by rw [hline, hdelivered, hwaiting, h.left_eq], ?_⟩
    intro c hc
    rw [hline, hdelivered]
    exact h.called c (hcallers c hc)
  | throws _ hcompletions hdelivered hwaiting _ _ hcallers =>
    have hline : s'.line = s.line := congrArg List.reverse hcompletions
    refine ⟨by rw [hline, hdelivered, hwaiting, h.left_eq], ?_⟩
    rw [hcallers]
    exact fun _ hc => nomatch hc
  | @come _ _ reg hreg hcompletions hdelivered hwaiting _ hcallers =>
    have hline : s'.line = s.line ++ [s.heap.ticket reg] := by
      rw [State.line, hcompletions, List.reverse_cons, State.line]
    refine ⟨?_, ?_⟩
    · rw [hline, hdelivered, hwaiting,
        left_come (hdelivery.not_registered_of_delivered hreg), h.left_eq]
    · intro c hc
      rw [hcallers] at hc
      obtain ⟨b, hb, hbefore⟩ := h.called c hc
      refine ⟨b, hdelivered ▸ hb, fun entry hentry => ?_⟩
      rw [hline]
      exact (hbefore entry hentry).trans (List.sublist_append_left _ _)
  | @call fresh _ c t after _ hwaiting hcompletions hdelivered hwaiting' _ _ hcallers =>
    have hline : s'.line = s.line := congrArg List.reverse hcompletions
    refine ⟨?_, ?_⟩
    · rw [hline, hdelivered, hwaiting', ← List.singleton_append, left_serve, h.left_eq, hwaiting,
        filter_ne_middle (hwaiting ▸ hnodup)]
    · intro c' hc'
      rw [hcallers, List.mem_singleton] at hc'
      subst hc'
      refine ⟨t, hdelivered ▸ List.mem_cons_self, fun entry hentry => ?_⟩
      rw [hline]
      exact sublist_of_left (h.left_eq.trans hwaiting) (List.mem_map_of_mem hentry)
        List.mem_cons_self
  | @deliver _ _ out after hwaiting _ hcompletions hdelivered hwaiting' hcallers =>
    have hline : s'.line = s.line := congrArg List.reverse hcompletions
    refine ⟨?_, ?_⟩
    · rw [hline, hdelivered, hwaiting', left_serve, h.left_eq, hwaiting,
        filter_not_mem_append (hwaiting ▸ hnodup)]
    · intro c hc
      obtain ⟨b, hb, hbefore⟩ := h.called c (hcallers c hc)
      refine ⟨b, hdelivered ▸ List.mem_append_right _ hb, fun entry hentry => ?_⟩
      rw [hline]
      exact hbefore entry hentry

/-- Nothing is handed out before a completion that was pushed earlier. -/
def State.Ordered (s : State) : Prop :=
  InOrder s.line s.delivered []

/-- The same up to the futures that the running `poll()` is going to return. -/
def State.OrderedByPoll (s : State) : Prop :=
  InOrder s.line s.delivered s.returning

theorem ordered_step_iff (h : InLine s) (hnodup : s.waiting.Nodup) (hdelivery : Delivery s)
    (hordered : s.Ordered) (hline : LineStep s e s') : s'.Ordered ↔ NothingCollected s e := by
  unfold State.Ordered at *
  cases hline with
  | same hcompletions hdelivered _ _ _ hcollected =>
    refine iff_of_true ?_ hcollected
    rwa [State.line, hcompletions, hdelivered]
  | throws _ hcompletions hdelivered =>
    refine iff_of_true ?_ trivial
    rwa [State.line, hcompletions, hdelivered]
  | come hreg hcompletions hdelivered _ _ _ hcollected =>
    refine iff_of_true ?_ hcollected
    rw [State.line, hcompletions, hdelivered, List.reverse_cons]
    exact hordered.come (hdelivery.not_registered_of_delivered hreg)
  | @call fresh _ c t after hdispatch hwaiting hcompletions hdelivered =>
    rw [State.line, hcompletions, hdelivered, ← State.line,
      inOrder_serve_iff hordered (h.left_eq ▸ hnodup) (h.left_eq.trans hwaiting)]
    simp [NothingCollected, hdispatch, List.eq_nil_iff_forall_not_mem]
  | @deliver _ _ out after hwaiting _ hcompletions hdelivered _ _ hcollected =>
    refine iff_of_true ?_ hcollected
    rw [State.line, hcompletions, hdelivered, ← State.line]
    have hsplit : left s.line s.delivered = ([] ++ out) ++ after := h.left_eq.trans hwaiting
    exact hordered.serve (h.left_eq ▸ hnodup) hsplit (by simp)

theorem orderedByPoll_step_iff (h : InLine s) (hnodup : s.waiting.Nodup) (hdelivery : Delivery s)
    (hordered : s.OrderedByPoll) (hline : LineStep s e s') :
    s'.OrderedByPoll ↔ NothingDiscarded s e := by
  unfold State.OrderedByPoll at *
  cases hline with
  | same hcompletions hdelivered _ hreturning _ _ hdiscarded =>
    refine iff_of_true ?_ hdiscarded
    rw [State.line, hcompletions, hdelivered]
    exact hordered.excuse fun a ha => .inr (hreturning a ha)
  | @throws _ c hcallers hcompletions hdelivered _ hreturning hreturning' =>
    rw [State.line, hcompletions, hdelivered, ← State.line, hreturning']
    constructor
    · intro hafter c' callers hcallers'
      obtain ⟨rfl, -⟩ := List.cons.inj (hcallers.symm.trans hcallers')
      rw [List.eq_nil_iff_forall_not_mem]
      intro entry hentry
      obtain ⟨b, hb, hbefore⟩ := h.called c (by simp [hcallers])
      have hwaiting : entry.ticket ∈ s.waiting := by
        rw [State.waiting, hcallers]
        simp only [List.flatMap_singleton, Caller.waiting, List.mem_append]
        exact .inl (.inl (List.mem_map_of_mem hentry))
      rw [← h.left_eq, mem_left] at hwaiting
      rw [InOrder, List.pairwise_iff_forall_sublist] at hafter
      rcases hafter (hbefore entry hentry) hb with hserved | hnil
      · exact hwaiting.2 hserved
      · cases hnil
    · intro hdiscarded
      rwa [hreturning, hdiscarded c [] hcallers, List.map_nil] at hordered
  | come hreg hcompletions hdelivered _ hreturning _ _ hdiscarded =>
    refine iff_of_true ?_ hdiscarded
    rw [State.line, hcompletions, hdelivered, List.reverse_cons, hreturning]
    exact hordered.come (hdelivery.not_registered_of_delivered hreg)
  | @call fresh _ c t after _ hwaiting hcompletions hdelivered _ hreturning hreturning' =>
    refine iff_of_true ?_ trivial
    rw [hreturning] at hordered
    rw [State.line, hcompletions, hdelivered, ← State.line, hreturning',
      inOrder_serve_iff hordered (h.left_eq ▸ hnodup) (h.left_eq.trans hwaiting)]
    exact fun _ ha => ha
  | @deliver _ _ out after hwaiting hreturning hcompletions hdelivered _ _ _ hdiscarded =>
    refine iff_of_true ?_ hdiscarded
    rw [State.line, hcompletions, hdelivered, ← State.line]
    have hsplit : left s.line s.delivered = ([] ++ out) ++ after := h.left_eq.trans hwaiting
    have hserved := hordered.serve (h.left_eq ▸ hnodup) hsplit (by simp)
    exact hserved.excuse fun a ha => .inl (List.mem_append_left _ (hreturning ▸ ha))

end

end Async
end ScyllaDriver
