import ScyllaDriver.Async.ReactorStep

/-!
# A registered record is on its way or awaited

`Shape` bounds where a record may be; `Covered` says that it is somewhere. A
registered record whose flag is set is in one of the lists that lead to a
delivery. One whose flag is not set is within reach of a driver callback, or
is the record of a running `add()` that will set the flag or roll back.

Every move keeps this, except for a fatal error in a callback while some
`poll()` has records of its batch left: the pointer to them is on the stack
frame that the error discards.
-/

namespace ScyllaDriver
namespace Async

open Linked

/-- The phases of `add()` that will enqueue the record or roll back. -/
def AddPhase.covers : AddPhase → Bool
  | .setCallback => true
  | .recheck false => true
  | .claim _ => true
  | _ => false

/-- The callback of the record's own future will run. -/
def State.Awaits (s : State) (a : Addr) : Prop :=
  (a, s.heap.ident a) ∈ s.firing ∨
    ∃ c, s.heap.future a = some c ∧ (s.futures c).isSet = false ∧
      (s.futures c).callback = some (.reactorCb a (s.heap.ident a))

structure Covered (s : State) : Prop where
  flagged : ∀ a ∈ s.registered, s.heap.enqueued a = true → a ∈ s.placed
  awaited : ∀ a ∈ s.registered, s.heap.enqueued a = false →
    s.Awaits a ∨ ∃ phase, s.op = some (.add a phase) ∧ phase.covers = true
  /-- The drain waits for registered records only. -/
  waiting : ∀ todo, s.op = some (.drainWait todo) → ∀ a ∈ todo, a ∈ s.registered

theorem covered_initial : Covered initial := by
  constructor <;> simp [initial]

/-- A fatal error in a callback finds the batch of every running `poll()`
visited. -/
def BatchVisited (s : State) (e : Event) : Prop :=
  e = .bailout → ∀ c ∈ s.callers, c.head = none

instance (s : State) (e : Event) : Decidable (BatchVisited s e) :=
  inferInstanceAs (Decidable (_ → _))

variable {a : Addr} {s : State}

theorem State.mem_placed :
    a ∈ s.placed ↔ a ∈ s.pushing ∨ a ∈ s.ready ∨ a ∈ s.callerRests ∨ a ∈ s.opHeld := by
  simp [State.placed]

theorem Control.held_eq {e : Event} {op : Option Op} (h : Control s e op) :
    op.elim [] Op.held = s.opHeld := by
  cases h with
  | stay => rfl
  | @already _ reg inner hop hflag =>
    cases inner <;> simp [State.addContinue, State.opHeld, hop, Op.held, AddPhase.held]
  | _ => simp_all [State.opHeld, Op.held, AddPhase.held]

theorem State.opHeld_of_some {op : Op} (hop : s.op = some op) : s.opHeld = op.held := by
  simp [State.opHeld, hop]

theorem State.opHeld_of_none (hop : s.op = none) : s.opHeld = [] := by
  simp [State.opHeld, hop]

theorem Shape.callbackEnds_held (h : Shape s) {c : Caller} (hc : c ∈ s.callers)
    (callers : List Caller) (exn : Bool) : (s.callbackEnds c callers exn).opHeld = c.rest := by
  have hchain := h.caller_chain c hc
  cases exn with
  | false => rfl
  | true =>
    cases hhead : c.head with
    | none =>
      rw [hchain.head_eq_none_iff.mp hhead]
      simp [State.opHeld, State.callbackEnds, hhead, Op.held]
    | some head =>
      rw [hhead] at hchain
      obtain ⟨rest, hrest, -⟩ := hchain.exists_cons
      simp [State.opHeld, State.callbackEnds, hhead, State.startRequeue, Op.held, hrest]

namespace Covered

variable {futureOf : Obj → Option CassFuture} {s s' : State} {e : Event}

theorem flagged_of_places (h : Covered s) {held : List Addr} (hheld : s.opHeld = held)
    (hflag : ∀ a ∈ s'.registered, s'.heap.enqueued a = true →
      a ∈ s'.placed ∨ (a ∈ s.registered ∧ s.heap.enqueued a = true))
    (hplaces : ∀ a ∈ s'.registered,
      a ∈ s.pushing ∨ a ∈ s.ready ∨ a ∈ s.callerRests ∨ a ∈ held →
        a ∈ s'.pushing ∨ a ∈ s'.ready ∨ a ∈ s'.callerRests ∨ a ∈ s'.opHeld) :
    ∀ a ∈ s'.registered, s'.heap.enqueued a = true → a ∈ s'.placed := by
  intro a ha hset
  rcases hflag a ha hset with hnew | ⟨hreg, hold⟩
  · exact hnew
  · have hplaced := h.flagged a hreg hold
    rw [State.mem_placed, hheld] at hplaced
    exact State.mem_placed.mpr (hplaces a ha hplaced)

theorem flagged_of_visited (h : Covered s) (hshape : Shape s) {op : Op} {reg : Addr}
    {rest : List Addr} (hop : s.op = some op) (hheld : op.held = reg :: rest)
    (hregistered : s'.registered = s.registered.erase reg)
    (hflag : s'.heap.enqueued = s.heap.enqueued) (hpushing : s'.pushing = s.pushing)
    (hready : s'.ready = s.ready)
    (hrests : ∀ a, a ∈ s.callerRests ∨ a ∈ rest → a ∈ s'.callerRests ∨ a ∈ s'.opHeld) :
    ∀ a ∈ s'.registered, s'.heap.enqueued a = true → a ∈ s'.placed := by
  apply h.flagged_of_places ((State.opHeld_of_some hop).trans hheld)
  · intro a ha hset
    rw [hregistered] at ha
    rw [hflag] at hset
    exact .inr ⟨List.mem_of_mem_erase ha, hset⟩
  · intro a ha hp
    have hne : a ≠ reg := by
      rintro rfl
      rw [hregistered] at ha
      exact hshape.not_mem_erase a ha
    rw [hpushing, hready]
    have := hrests a
    simp only [List.mem_cons, hne, false_or] at hp
    tauto

theorem flagged_move (h : Covered s) (hshape : Shape s) (hvisited : BatchVisited s e)
    (hmove : Move futureOf s e s') :
    ∀ a ∈ s'.registered, s'.heap.enqueued a = true → a ∈ s'.placed := by
  cases hmove with
  | control fd raised hcontrol =>
    exact h.flagged_of_places hcontrol.held_eq.symm
      (fun _ ha hset => .inr ⟨ha, hset⟩) (fun _ _ hp => hp)
  | create hop hfree hnotifier hdead =>
    refine h.flagged_of_places (State.opHeld_of_none hop) (fun a ha hset => ?_) (fun _ _ hp => hp)
    rw [State.regCreate_enqueued] at hset
    split_ifs at hset
    exact .inr ⟨ha, hset⟩
  | recreate hop hdead =>
    refine h.flagged_of_places (State.opHeld_of_some hop) (fun a ha hset => ?_) (fun _ _ hp => hp)
    rw [State.regCreate_enqueued] at hset
    split_ifs at hset
    exact .inr ⟨ha, hset⟩
  | @link _ reg hop =>
    refine h.flagged_of_places (State.opHeld_of_some hop) (fun a ha hset => ?_) (fun a _ hp => ?_)
    · -- nobody else knows the new record yet
      have hflag : ¬ s.heap.enqueued reg = true := hshape.add_sound reg _ hop
      rcases List.mem_cons.mp ha with rfl | ha
      · exact absurd hset hflag
      · exact .inr ⟨ha, hset⟩
    · simp only [Op.held, AddPhase.held, List.not_mem_nil, or_false] at hp
      tauto
  | @relink _ reg entries head tail back hop =>
    refine h.flagged_of_places (State.opHeld_of_some hop) (fun a ha hset => ?_) (fun a _ hp => ?_)
    · by_cases hreg : a = reg
      · exact .inl (State.mem_placed.mpr
          (.inr (.inr (.inr (List.mem_append_right _ (List.mem_singleton.mpr hreg))))))
      · have hset' : Function.update s.heap.enqueued reg true a = true := hset
        rw [Function.update_of_ne hreg] at hset'
        exact .inr ⟨(List.mem_cons.mp ha).resolve_left hreg, hset'⟩
    · exact hp.imp_right (Or.imp_right (Or.imp_right (List.mem_append_left _)))
  | accepted hop hfuture hunset =>
    refine h.flagged_of_places (State.opHeld_of_some hop)
      (fun _ ha hset => .inr ⟨ha, hset⟩) (fun a _ hp => ?_)
    simp only [Op.held, AddPhase.held, List.not_mem_nil, or_false] at hp
    tauto
  | rollback raised hop hreg =>
    exact h.flagged_of_places (State.opHeld_of_some hop)
      (fun _ ha hset => .inr ⟨List.mem_of_mem_erase ha, hset⟩)
      (fun _ _ hp => hp)
  | @claim _ reg inner hop hflag =>
    refine h.flagged_of_places (State.opHeld_of_some hop) (fun a ha hset => ?_) (fun a _ hp => ?_)
    · change (s.claim reg).heap.enqueued a = true at hset
      rw [State.claim_enqueued] at hset
      split_ifs at hset with hreg
      · exact .inl (State.mem_placed.mpr (.inr (.inr (.inr (List.mem_singleton.mpr hreg)))))
      · exact .inr ⟨ha, hset⟩
    · simp only [Op.held, AddPhase.held, List.not_mem_nil, or_false] at hp
      tauto
  | @pushOwn _ reg inner hop =>
    refine h.flagged_of_places (State.opHeld_of_some hop)
      (fun _ ha hset => .inr ⟨ha, hset⟩) (fun a _ hp => ?_)
    rcases hp with hp | hp | hp | hp
    · exact .inl hp
    · exact .inr (.inl (List.mem_append_left _ hp))
    · exact .inr (.inr (.inl hp))
    · exact .inr (.inl (List.mem_append_right _ hp))
  | empty hop hreg hobj | collect hop hreg hobj | discard hop hreg =>
    exact h.flagged_of_visited hshape hop rfl rfl rfl rfl rfl fun _ hp => hp
  | call hop hreg hobj =>
    refine h.flagged_of_visited hshape hop rfl rfl rfl rfl rfl fun a hp => .inl ?_
    exact List.mem_append.mpr hp.symm
  | @callbackEnds _ c callers exn hop hcallers =>
    have hheld := hshape.callbackEnds_held (hcallers ▸ List.mem_cons_self) callers exn
    refine h.flagged_of_places (State.opHeld_of_none hop)
      (fun _ ha hset => .inr ⟨ha, hset⟩) (fun a _ hp => ?_)
    rw [hheld]
    rcases hp with hp | hp | hp | hp
    · exact .inl hp
    · exact .inr (.inl hp)
    · rw [State.callerRests, hcallers, List.flatMap_cons] at hp
      exact .inr (.inr (List.mem_append.mp hp).symm)
    · exact absurd hp List.not_mem_nil
  | @requeue _ after head tail walked hop =>
    refine h.flagged_of_places (State.opHeld_of_some hop)
      (fun _ ha hset => .inr ⟨ha, hset⟩) (fun a _ hp => ?_)
    rcases hp with hp | hp | hp | hp
    · exact .inl hp
    · exact .inr (.inl (List.mem_append_right _ hp))
    · exact .inr (.inr (.inl hp))
    · exact .inr (.inl (List.mem_append_left _ hp))
  | deliver hop =>
    exact h.flagged_of_places (State.opHeld_of_some hop)
      (fun _ ha hset => .inr ⟨ha, hset⟩) (fun _ _ hp => hp)
  | bailout hop =>
    -- the batches that are dropped have no record left
    have hrests : s.callerRests = [] := by
      rw [State.callerRests, List.flatMap_eq_nil_iff]
      intro c hc
      exact (hshape.caller_chain c hc).head_eq_none_iff.mp (hvisited rfl c hc)
    refine h.flagged_of_places (State.opHeld_of_none hop)
      (fun _ ha hset => .inr ⟨ha, hset⟩) (fun a _ hp => ?_)
    rw [hrests] at hp
    rcases hp with hp | hp | hp | hp
    · exact .inl hp
    · exact .inr (.inl hp)
    · exact absurd hp List.not_mem_nil
    · exact absurd hp List.not_mem_nil
  | splice hop | drainSplice hop =>
    refine h.flagged_of_places (State.opHeld_of_some hop)
      (fun _ ha hset => .inr ⟨ha, hset⟩) (fun a _ hp => ?_)
    rcases hp with hp | hp | hp | hp
    · exact .inl hp
    · exact .inr (.inr (.inr hp))
    · exact .inr (.inr (.inl hp))
    · exact absurd hp List.not_mem_nil
  | @fire _ reg ident hmem hflag hlive hident =>
    refine h.flagged_of_places rfl (fun a ha hset => ?_) (fun a _ hp => ?_)
    · change (s.claim reg).heap.enqueued a = true at hset
      rw [State.claim_enqueued] at hset
      split_ifs at hset with hreg
      · exact .inl (State.mem_placed.mpr (.inl (List.mem_cons.mpr (.inl hreg))))
      · exact .inr ⟨ha, hset⟩
    · exact hp.imp_left (List.mem_cons_of_mem reg)
  | @push _ reg hmem =>
    refine h.flagged_of_places rfl (fun _ ha hset => .inr ⟨ha, hset⟩) (fun a _ hp => ?_)
    by_cases ha : a = reg
    · exact .inr (.inl (List.mem_append_right _ (by simp [ha])))
    · rcases hp with hp | hp | hp
      · exact .inl ((List.mem_erase_of_ne ha).mpr hp)
      · exact .inr (.inl (List.mem_append_left _ hp))
      · exact .inr (.inr hp)
  | _ => exact h.flagged

theorem control_covers {op : Option Op} (hcontrol : Control s e op) {phase : AddPhase}
    (hop : s.op = some (.add a phase)) (hcovers : phase.covers = true)
    (hflag : s.heap.enqueued a = false) :
    ∃ phase', op = some (.add a phase') ∧ phase'.covers = true := by
  cases hcontrol with
  | stay => exact ⟨phase, hop, hcovers⟩
  | waiting hop' hfuture hset =>
    obtain ⟨rfl, rfl⟩ := Op.add.inj (Option.some.inj (hop.symm.trans hop'))
    simp [AddPhase.covers] at hcovers
  | _ => simp_all [AddPhase.covers]

theorem awaited_of_kept (h : Covered s)
    (hkept : ∀ a ∈ s'.registered, s'.heap.enqueued a = false →
      a ∈ s.registered ∧ s.heap.enqueued a = false ∧ (s.Awaits a → s'.Awaits a))
    (hadd : ∀ a ∈ s'.registered, s'.heap.enqueued a = false →
      ∀ phase, s.op = some (.add a phase) → phase.covers = true →
        s'.Awaits a ∨ ∃ phase', s'.op = some (.add a phase') ∧ phase'.covers = true) :
    ∀ a ∈ s'.registered, s'.heap.enqueued a = false →
      s'.Awaits a ∨ ∃ phase, s'.op = some (.add a phase) ∧ phase.covers = true := by
  intro a ha hflag
  obtain ⟨hreg, hold, hawaits⟩ := hkept a ha hflag
  rcases h.awaited a hreg hold with hawaited | ⟨phase, hop, hcovers⟩
  · exact .inl (hawaits hawaited)
  · exact hadd a ha hflag phase hop hcovers

theorem awaited_of_no_add (h : Covered s) (hop : ∀ a phase, s.op ≠ some (.add a phase))
    (hregistered : ∀ a ∈ s'.registered, a ∈ s.registered)
    (hflag : s'.heap.enqueued = s.heap.enqueued) (hawaits : ∀ a, s.Awaits a → s'.Awaits a) :
    ∀ a ∈ s'.registered, s'.heap.enqueued a = false →
      s'.Awaits a ∨ ∃ phase, s'.op = some (.add a phase) ∧ phase.covers = true := by
  apply h.awaited_of_kept
  · intro a ha hnot
    rw [hflag] at hnot
    exact ⟨hregistered a ha, hnot, hawaits a⟩
  · intro a _ _ phase hadd
    exact absurd hadd (hop a phase)

theorem awaits_of_set_callback {c : CassFuture} {d : DriverFuture}
    (hunset : (s.futures c).callback = none) (hawaits : s.Awaits a) :
    State.Awaits { s with futures := Function.update s.futures c d } a := by
  rcases hawaits with hfiring | ⟨c', hfuture, hset, hdata⟩
  · exact .inl hfiring
  · have hne : c' ≠ c := by
      rintro rfl
      rw [hunset] at hdata
      simp at hdata
    exact .inr ⟨c', hfuture, by simpa [Function.update_of_ne hne] using hset,
      by simpa [Function.update_of_ne hne] using hdata⟩

theorem awaits_of_resolve {c : CassFuture} (hawaits : s.Awaits a) :
    State.Awaits
      { s with
        futures := Function.update s.futures c { s.futures c with isSet := true }
        firing :=
          match (s.futures c).callback with
          | some (.reactorCb reg ident) => (reg, ident) :: s.firing
          | _ => s.firing }
      a := by
  rcases hawaits with hfiring | ⟨c', hfuture, hset, hdata⟩
  · left
    change _ ∈ (match (s.futures c).callback with
      | some (.reactorCb reg ident) => (reg, ident) :: s.firing
      | _ => s.firing)
    split
    · exact List.mem_cons_of_mem _ hfiring
    · exact hfiring
  · by_cases hc : c' = c
    · subst hc
      left
      simp [hdata]
    · exact .inr ⟨c', hfuture,
        by simpa [Function.update_of_ne hc] using hset,
        by simpa [Function.update_of_ne hc] using hdata⟩

theorem awaits_of_fired {reg : Addr} {ident : Nat} (hne : a ≠ reg) (hawaits : s.Awaits a) :
    State.Awaits { s with firing := s.firing.erase (reg, ident) } a := by
  refine hawaits.imp_left fun hfiring => ?_
  exact (List.mem_erase_of_ne (by simp [hne])).mpr hfiring

theorem awaited_of_create (h : Covered s) (hshape : Shape s) {fresh : Addr} {o : Obj}
    {callback : Option Callable} {ticket : Nat} {op : Op}
    (hop : ∀ a phase, s.op ≠ some (.add a phase)) (hdead : s.heap.live fresh = false) :
    ∀ a ∈ s.registered,
      (s.regCreate futureOf fresh o callback ticket).heap.enqueued a = false →
      (s.regCreate futureOf fresh o callback ticket).Awaits a ∨
        ∃ phase, some op = some (.add a phase) ∧ phase.covers = true := by
  intro a ha hflag
  have hne : a ≠ fresh := by
    rintro rfl
    exact hshape.not_mem_owned_of_dead hdead (List.mem_append_left _ ha)
  rw [State.regCreate_enqueued, if_neg hne] at hflag
  rcases h.awaited a ha hflag with hawaits | ⟨phase, hadd, -⟩
  · left
    rw [State.Awaits, State.regCreate_ident, if_neg hne]
    have hfuture : (s.regCreate futureOf fresh o callback ticket).heap.future a =
        s.heap.future a := Function.update_of_ne hne _ _
    rw [hfuture]
    exact hawaits
  · exact absurd hadd (hop a phase)

theorem awaited_move (h : Covered s) (hshape : Shape s) (hmove : Move futureOf s e s') :
    ∀ a ∈ s'.registered, s'.heap.enqueued a = false →
      s'.Awaits a ∨ ∃ phase, s'.op = some (.add a phase) ∧ phase.covers = true := by
  cases hmove with
  | control fd raised hcontrol =>
    exact h.awaited_of_kept (fun a ha hflag => ⟨ha, hflag, id⟩)
      (fun a _ hflag phase hop hcovers =>
        .inr (control_covers hcontrol hop hcovers hflag))
  | describe hfree => exact h.awaited
  | watch hfree hunset =>
    refine h.awaited_of_kept (fun a ha hflag => ⟨ha, hflag, ?_⟩)
      (fun a _ _ phase hop hcovers => .inr ⟨phase, hop, hcovers⟩)
    exact fun hawaits => awaits_of_set_callback hunset hawaits
  | create hop hfree hnotifier hdead | recreate hop hdead =>
    exact h.awaited_of_create hshape (by simp [hop]) hdead
  | @link _ reg hop =>
    intro a ha hflag
    by_cases hreg : a = reg
    · subst hreg
      refine .inr ⟨_, rfl, ?_⟩
      split_ifs <;> rfl
    · have hold := h.awaited a ((List.mem_cons.mp ha).resolve_left hreg) hflag
      refine hold.imp_right ?_
      rintro ⟨phase, hadd, -⟩
      rw [hop] at hadd
      exact absurd (Op.add.inj (Option.some.inj hadd)).1.symm hreg
  | @relink _ reg entries head tail back hop =>
    intro a ha hflag
    have hflag' : Function.update s.heap.enqueued reg true a = false := hflag
    by_cases hreg : a = reg
    · simp [hreg] at hflag'
    · rw [Function.update_of_ne hreg] at hflag'
      have hold := h.awaited a ((List.mem_cons.mp ha).resolve_left hreg) hflag'
      refine hold.imp_right ?_
      rintro ⟨phase, hadd, -⟩
      simp [hop] at hadd
  | @accepted _ reg c hop hfuture hunset =>
    refine h.awaited_of_kept (fun a ha hflag => ⟨ha, hflag, ?_⟩) ?_
    · exact fun hawaits => awaits_of_set_callback hunset hawaits
    · intro a _ _ phase hadd _
      rw [hop] at hadd
      obtain ⟨rfl, rfl⟩ := Op.add.inj (Option.some.inj hadd)
      by_cases hset : (s.futures c).isSet = true
      · exact .inr ⟨.claim true, by simp [hset], rfl⟩
      · exact .inl (.inr ⟨c, hfuture, by simpa using hset, by simp⟩)
  | @rollback _ reg raised hop hreg =>
    refine h.awaited_of_kept (fun a ha hflag =>
      ⟨List.mem_of_mem_erase ha, hflag, id⟩) ?_
    intro a ha _ phase hadd _
    rw [hop] at hadd
    obtain ⟨rfl, -⟩ := Op.add.inj (Option.some.inj hadd)
    exact absurd ha (hshape.not_mem_erase reg)
  | @claim _ reg inner hop hflag =>
    have hne : ∀ a, (s.claim reg).heap.enqueued a = false →
        a ≠ reg ∧ s.heap.enqueued a = false := by
      intro a ha
      rw [State.claim_enqueued] at ha
      split_ifs at ha with hreg
      exact ⟨hreg, ha⟩
    refine h.awaited_of_kept (fun a ha hnot =>
      ⟨ha, (hne a hnot).2, id⟩) ?_
    intro a _ hnot phase hadd _
    rw [hop] at hadd
    obtain ⟨rfl, -⟩ := Op.add.inj (Option.some.inj hadd)
    exact absurd rfl (hne reg hnot).1
  | @pushOwn _ reg inner hop =>
    refine h.awaited_of_kept (fun a ha hflag => ⟨ha, hflag, id⟩) ?_
    intro a _ _ phase hadd hcovers
    rw [hop] at hadd
    obtain ⟨rfl, rfl⟩ := Op.add.inj (Option.some.inj hadd)
    simp [AddPhase.covers] at hcovers
  | empty hop hreg hobj | collect hop hreg hobj | call hop hreg hobj | discard hop hreg =>
    exact h.awaited_of_no_add (by simp [hop])
      (fun _ ha => List.mem_of_mem_erase ha) rfl (fun _ => id)
  | splice hop | callbackEnds exn hop hcallers | requeue hop | deliver hop | bailout hop
  | drainSplice hop =>
    exact h.awaited_of_no_add (by simp [hop]) (fun _ ha => ha) rfl (fun _ => id)
  | resolve hunset =>
    exact h.awaited_of_kept
      (fun a ha hflag =>
        ⟨ha, hflag, awaits_of_resolve⟩)
      (fun a _ _ phase hop hcovers => .inr ⟨phase, hop, hcovers⟩)
  | @fireAgain _ reg ident hmem hflag =>
    refine h.awaited_of_kept (fun a ha hnot => ⟨ha, hnot, ?_⟩)
      (fun a _ _ phase hop hcovers => .inr ⟨phase, hop, hcovers⟩)
    have hne : a ≠ reg := by
      rintro rfl
      exact absurd (hflag.symm.trans hnot) (by simp)
    exact awaits_of_fired hne
  | @fire _ reg ident hmem hflag hlive hident =>
    refine h.awaited_of_kept (fun a ha hnot => ?_)
      (fun a _ _ phase hop hcovers => .inr ⟨phase, hop, hcovers⟩)
    change (s.claim reg).heap.enqueued a = false at hnot
    rw [State.claim_enqueued] at hnot
    split_ifs at hnot with hreg
    exact ⟨ha, hnot, awaits_of_fired hreg⟩
  | push hmem => exact h.awaited

theorem waiting_move (h : Covered s) (hmove : Move futureOf s e s') :
    ∀ todo, s'.op = some (.drainWait todo) → ∀ a ∈ todo, a ∈ s'.registered := by
  cases hmove with
  | control fd raised hcontrol =>
    cases hcontrol with
    | stay => exact h.waiting
    | @already _ reg inner hop hflag =>
      cases inner <;> simp [State.addContinue]
    | drainWait hop hne =>
      intro todo htodo a ha
      obtain rfl : s.registered = todo := by simpa using htodo
      exact ha
    | waited hop hset =>
      intro todo htodo a ha
      obtain rfl := Op.drainWait.inj (Option.some.inj htodo)
      exact h.waiting _ hop a (List.mem_cons_of_mem _ ha)
    | _ => simp
  | @pushOwn _ reg inner hop => cases inner <;> simp [State.addContinue]
  | @requeue _ after head tail walked hop =>
    cases after <;> simp [State.afterRequeue]
  | @callbackEnds _ c callers exn hop hcallers =>
    cases exn with
    | false => simp [State.callbackEnds]
    | true =>
      cases hhead : c.head <;>
        simp [State.callbackEnds, hhead, State.startRequeue]
  | relink hop => simp [State.stepReclaimLink]
  | bailout hop => simp [hop]
  | describe hfree | watch hfree hunset | resolve hunset | fireAgain hmem hflag
  | fire hmem hflag hlive hident | push hmem => exact h.waiting
  | _ => simp

theorem move (h : Covered s) (hshape : Shape s) (hvisited : BatchVisited s e)
    (hmove : Move futureOf s e s') : Covered s' :=
  ⟨h.flagged_move hshape hvisited hmove, h.awaited_move hshape hmove, h.waiting_move hmove⟩

end Covered

end Async
end ScyllaDriver
