import ScyllaDriver.Async.ReactorMoves

/-!
# How the records of the reactor move

One lemma per movement: a record is created, linked, flagged, pushed onto the
ready list, taken out with a batch, freed, handed to a callback, put back.
Each says that `Shape` survives the movement, whatever method makes it.
-/

namespace ScyllaDriver
namespace Async

open Linked

namespace Shape

variable {s : State}

theorem not_mem_owned_of_dead (h : Shape s) {a : Addr} (ha : s.heap.live a = false) :
    a ∉ s.owned := by
  intro hmem
  simp [h.owned_live a hmem] at ha

/-- `reg_create`: a fresh record that only the method knows. -/
theorem regCreate
    (h : Shape s)
    {futureOf : Obj → Option CassFuture}
    {fresh : Addr}
    {o : Obj}
    {callback : Option Callable}
    {ticket : Nat}
    {op : Op}
    (hdead : s.heap.live fresh = false)
    (hcreating : s.opCreating = [])
    (hheld : op.held = s.opHeld)
    (hnew : op.creating = [fresh])
    (hmethod : MethodSound { s.regCreate futureOf fresh o callback ticket with op := some op }) :
    Shape { s.regCreate futureOf fresh o callback ticket with op := some op } := by
  have hfresh := h.not_mem_owned_of_dead hdead
  have hnotPlaced : fresh ∉ s.placed := by
    intro hp
    have := h.mem_registered hp
    grind
  have hplaced :
      State.placed
        { s.regCreate futureOf fresh o callback ticket with op := some op } =
        s.placed := by
    grind
  refine { hmethod, h with
    owned_count := fun a => by have := h.owned_count a; grind
    owned_live := fun a => by have := h.owned_live a; grind
    owned_ident := fun a => by have := h.owned_ident a; grind
    placed_count := hplaced ▸ h.placed_count
    placed_enqueued := fun a => by have := h.placed_enqueued a; grind
    outstanding := ?_ }
  -- a callback for the previous use of the address has an older number
  intro reg ident hout
  have hold := h.outstanding reg ident hout
  refine ⟨Nat.lt_succ_of_lt hold.1, ?_⟩
  by_cases hreg : reg = fresh
  · intro _ hident
    simp only [State.regCreate, hreg, Function.update_self] at hident
    omega
  · intro hlive hident
    rw [State.regCreate_live, if_neg hreg] at hlive
    rw [State.regCreate_ident, if_neg hreg] at hident
    rw [State.regCreate_enqueued, if_neg hreg]
    exact hold.2 hlive hident

/-- The record of a driver callback that is not stale, when its flag is
clear, is registered. -/
theorem registered_of_outstanding
    (h : Shape s)
    {reg : Addr}
    {ident : Nat}
    (hout : s.Outstanding reg ident)
    (hlive : s.heap.live reg = true)
    (hident : s.heap.ident reg = ident)
    (hflag : s.heap.enqueued reg = false) :
    reg ∈ s.registered := by
  rcases (h.outstanding reg ident hout).2 hlive hident with hreg | hset
  · exact hreg
  · simp [hset] at hflag

/-- `add()` links its record into the registered list. -/
theorem regLink
    (h : Shape s)
    {reg : Addr}
    {phase : AddPhase}
    (hop : s.op = some (.add reg .link))
    (hheld : phase.held reg = [])
    (hcreating : phase.creating reg = [])
    (hphase : phase.Sound True False False) :
    Shape { s.regLink reg with op := some (.add reg phase) } := by
  have hmem : reg ∈ s.opCreating := by
    simp [State.opCreating, hop, Op.creating, AddPhase.creating]
  obtain ⟨hfresh, hnotCaller⟩ := h.creating_fresh hmem
  have hnotPlaced : reg ∉ s.placed := fun hp => hfresh (h.mem_registered hp)
  have hlive : s.heap.live reg = true := h.owned_live reg (by simp [State.owned, hmem])
  have hflag : s.heap.enqueued reg = false := by
    simpa [AddPhase.Sound] using h.add_sound reg .link hop
  have hunpublished : ¬ s.Outstanding reg (s.heap.ident reg) := by
    intro hout
    exact hfresh (h.registered_of_outstanding hout hlive rfl hflag)
  have hmethod : MethodSound { s.regLink reg with op := some (.add reg phase) } := by
    apply MethodSound.adding rfl
    refine hphase.mono (fun _ => by simp [State.regLink]) ?_ hunpublished
    intro hf
    simp [State.regLink, hflag] at hf
  refine { hmethod, h with
    owned_count := fun a => by have := h.owned_count a; grind
    owned_live := fun a => by have := h.owned_live a; grind
    owned_ident := fun a => by have := h.owned_ident a; grind
    placed_count := fun a => by have := h.placed_count a; grind
    placed_enqueued := fun a => by have := h.placed_enqueued a; grind
    ready_chain := h.ready_chain.update (by grind) _
    caller_chain := ?_
    outstanding := h.outstanding_kept rfl (fun _ _ => id) (by grind) }
  intro c hc
  apply (h.caller_chain c hc).update
  intro hrest
  have := State.mem_callerRests hc hrest
  grind

end Shape

namespace Shape

variable {s : State}

/-- Setting the flag of a registered record gives it a place: with a driver
thread, or with the running `add()`. -/
theorem claim
    (h : Shape s)
    {reg : Addr}
    {op : Option Op}
    (pushing : List Addr)
    (hreg : reg ∈ s.registered)
    (hflag : s.heap.enqueued reg = false)
    (hplace : ∀ a, pushing.count a + (op.elim [] Op.held).count a =
      s.pushing.count a + s.opHeld.count a + if a = reg then 1 else 0)
    (hcreating : op.elim [] Op.creating = s.opCreating)
    (hmethod : MethodSound { s.claim reg with op := op, pushing := pushing }) :
    Shape { s.claim reg with op := op, pushing := pushing } := by
  have hnotPlaced := h.not_placed_of_not_enqueued hflag
  have howned : State.owned { s.claim reg with op := op, pushing := pushing } = s.owned := by
    grind
  refine { hmethod, h with
    owned_count := howned ▸ h.owned_count
    owned_live := howned ▸ h.owned_live
    owned_ident := howned ▸ h.owned_ident
    placed_count := ?placed_count
    placed_enqueued := ?placed_enqueued
    outstanding := h.outstanding_kept rfl (fun _ _ => id) (by grind) }
  case placed_count =>
    intro a
    have := h.placed_count a
    have := hplace a
    have hpos := List.count_pos_iff.mpr hreg
    have hzero : s.placed.count reg = 0 := List.count_eq_zero.mpr hnotPlaced
    simp only [State.placed, State.claim, State.callerRests, State.opHeld, List.count_append] at *
    split_ifs at * with ha
    · subst ha
      omega
    · omega
  case placed_enqueued =>
    intro a ha
    have hold := h.placed_enqueued a
    have := hplace a
    rw [← List.count_pos_iff] at ha
    rw [← List.count_pos_iff] at hold
    rw [State.claim_enqueued]
    split_ifs with hareg
    · rfl
    · apply hold
      simp only [State.placed, State.claim, State.callerRests, State.opHeld,
        List.count_append, hareg, if_false] at *
      omega

/-- `reg_push_ready` puts the record behind the tail. -/
theorem ready_chain_pushReady (h : Shape s) {reg : Addr} (hreg : s.ready.count reg = 0) :
    Chain (s.pushReady reg).heap.nextReady (s.pushReady reg).readyHead (s.ready ++ [reg]) := by
  have hnotMem : reg ∉ s.ready := List.count_eq_zero.mp hreg
  have hchain := h.ready_chain.update hnotMem none
  rcases List.eq_nil_or_concat s.ready with hnil | ⟨before, last, hready⟩
  · have htail : s.readyTail = none := by
      rw [h.ready_last, hnil]
      rfl
    simp [State.pushReady, htail, hnil]
  · have htail : s.readyTail = some last := by
      rw [h.ready_last, hready]
      simp
    have hne : last ≠ reg := by
      rintro rfl
      exact hnotMem (by simp [hready])
    have hbefore : last ∉ before := by
      have hone := h.placed_split last
      rw [hready, List.concat_eq_append, List.count_append] at hone
      rw [← List.count_pos_iff]
      simp at hone
      omega
    rw [hready, List.concat_eq_append] at hchain ⊢
    have hsingle : Chain (Function.update s.heap.nextReady reg none) (some reg) [reg] := by
      simp
    have hjoin := hchain.join hsingle hbefore (by simpa using hne)
    simpa [State.pushReady, htail] using hjoin

/-- A flagged record goes from its thread to the ready list. -/
theorem pushReady
    (h : Shape s)
    {reg : Addr}
    {op : Option Op}
    (pushing : List Addr)
    (hplace : ∀ a, pushing.count a + (op.elim [] Op.held).count a +
      (if a = reg then 1 else 0) = s.pushing.count a + s.opHeld.count a)
    (hcreating : op.elim [] Op.creating = s.opCreating)
    (hmethod : MethodSound { s with op := op }) :
    Shape { s.pushReady reg with op := op, pushing := pushing } := by
  have hsplit := h.placed_split
  -- nobody but the ready list has a cell the critical section writes to
  have hforeign : ∀ a, s.ready.count a = 0 → a ≠ reg →
      (s.pushReady reg).heap.nextReady a = s.heap.nextReady a := by
    intro a ha hne
    apply s.pushReady_nextReady_of_ne hne
    rw [h.ready_last]
    intro hlast
    have := List.mem_of_getLast? hlast
    rw [← List.count_pos_iff] at this
    omega
  have hplaces : InPlace { s.pushReady reg with op := op, pushing := pushing } := by
    refine h.inPlace (by grind) ?_ rfl rfl rfl
    intro a
    have := hplace a
    simp only [State.placed, State.pushReady, State.callerRests,
      State.opHeld, List.count_append, count_singleton_eq_ite] at *
    omega
  refine { hplaces, hmethod, h with
    ready_chain := ?ready_chain
    ready_last := by simp [State.pushReady]
    caller_chain := ?caller_chain
    op_linked := ?op_linked }
  case ready_chain =>
    apply h.ready_chain_pushReady
    have hpos := hplace reg
    have := hsplit reg
    rw [if_pos rfl] at hpos
    omega
  case caller_chain =>
    intro c (hc : c ∈ s.callers)
    apply (h.caller_chain c hc).congr
    intro a ha
    have hpos := List.count_pos_iff.mpr (State.mem_callerRests hc ha)
    have := hsplit a
    apply hforeign a (by omega)
    rintro rfl
    have := hplace a
    rw [if_pos rfl] at this
    omega
  case op_linked =>
    intro o (ho : op = some o)
    apply (hmethod.op_linked o ho).congr
    intro a ha
    have hheld : 0 < (op.elim [] Op.held).count a := by
      rw [ho]
      exact List.count_pos_iff.mpr ha
    have := hplace a
    have := hsplit a
    apply hforeign a (by omega)
    rintro rfl
    rw [if_pos rfl] at *
    omega

end Shape

namespace Shape

variable {s : State}

/-- A method takes the whole ready list. -/
theorem splice
    (h : Shape s)
    {op : Op}
    (hidle : s.opHeld = [])
    (hidle' : s.opCreating = [])
    (hheld : op.held = s.ready)
    (hcreating : op.creating = [])
    (hlinked : op.Linked s.heap.nextReady)
    (hadd : ∀ reg phase, op ≠ .add reg phase)
    (hdrain : op.isDrain = true → s.callers = []) :
    Shape { s.splice with op := some op } := by
  have hplaces : InPlace { s.splice with op := some op } :=
    h.inPlace (by grind) (fun a => by grind) rfl rfl rfl
  have hmethod : MethodSound { s.splice with op := some op } := .running rfl hlinked hadd hdrain
  exact { hplaces, hmethod, h with
    ready_chain := by simp [State.splice]
    ready_last := by simp [State.splice] }

/-- `reg_release` of a record that is in no list. -/
theorem release
    (h : Shape s)
    {reg : Addr}
    (op : Option Op)
    (hreg : reg ∈ s.registered)
    (hheld : ∀ a, a ≠ reg → (op.elim [] Op.held).count a = s.opHeld.count a)
    (hgone : s.pushing.count reg + s.ready.count reg +
      s.callerRests.count reg + (op.elim [] Op.held).count reg = 0)
    (hcreating : op.elim [] Op.creating = [])
    (hidle : s.opCreating = [])
    (hmethod : MethodSound
      { s.regRelease reg with registered := s.registered.erase reg, op := op }) :
    Shape { s.regRelease reg with registered := s.registered.erase reg, op := op } := by
  have hone := h.owned_count reg
  have hnotMem := h.not_mem_erase reg
  refine { hmethod, h with
    owned_count := fun a => by have := h.owned_count a; grind
    owned_live := fun a => by have := h.owned_live a; grind
    owned_ident := fun a => by have := h.owned_ident a; grind
    placed_count := ?placed_count
    placed_enqueued := ?placed_enqueued
    outstanding := h.outstanding_kept rfl (fun _ _ => id) (by grind) }
  case placed_count =>
    intro a
    have hcount := h.placed_count a
    have := hheld a
    simp only [State.placed, State.regRelease, State.callerRests,
      State.opHeld, List.count_append, List.count_erase] at *
    by_cases ha : a = reg
    · subst ha
      omega
    · have hbeq : (reg == a) = false := by simpa using fun h => ha h.symm
      have := this ha
      simp only [hbeq, Bool.false_eq_true, if_false] at *
      omega
  case placed_enqueued =>
    intro a ha
    apply h.placed_enqueued a
    have := hheld a
    rw [← List.count_pos_iff] at *
    simp only [State.placed, State.regRelease, State.callerRests,
      State.opHeld, List.count_append] at *
    by_cases har : a = reg
    · subst har
      omega
    · have := this har
      omega

/-- `poll()` calls the callback of the record it stands on. -/
theorem dispatch
    (h : Shape s)
    {max taken : Nat}
    {reg : Addr}
    {rest : List Addr}
    {out : List Entry}
    (hop : s.op = some (.consume max taken (some reg) (reg :: rest) out))
    (hrest : Chain s.heap.nextReady (s.heap.nextReady reg) rest) :
    Shape
      { s with
        registered := s.registered.erase reg
        op := none
        callers := ⟨max, taken, reg, s.heap.nextReady reg, rest, out⟩ :: s.callers } := by
  have hplace : reg ∈ s.placed := by grind
  have hreg := h.mem_registered hplace
  have hone := h.owned_count reg
  have hnotMem := h.not_mem_erase reg
  have hflag := h.placed_enqueued reg hplace
  refine { MethodSound.idle rfl, h with
    owned_count := fun a => by have := h.owned_count a; grind
    owned_live := fun a => by have := h.owned_live a; grind
    owned_ident := fun a => by have := h.owned_ident a; grind
    placed_count := fun a => by have := h.placed_count a; grind
    placed_enqueued := fun a => by have := h.placed_enqueued a; grind
    caller_chain := ?_
    outstanding := h.outstanding_kept rfl (fun _ _ => id) (by grind) }
  intro c hc
  rcases List.mem_cons.mp hc with rfl | hc
  · exact hrest
  · exact h.caller_chain c hc

/-- The callback returns or throws. -/
theorem callbackEnds
    (h : Shape s)
    {c : Caller}
    {callers : List Caller}
    (exn : Bool)
    (hop : s.op = none)
    (hcallers : s.callers = c :: callers) :
    Shape (s.callbackEnds c callers exn) := by
  have hchain := h.caller_chain c (by simp [hcallers])
  have hone := h.owned_count c.reg
  have hheld : ∀ op, (s.callbackEnds c callers exn).op = some op →
      op.held = c.rest ∧ op.creating = [] ∧
        op.Linked s.heap.nextReady ∧ op.isDrain = false ∧
        ∀ reg phase, op ≠ .add reg phase := by
    intro op hnew
    cases exn with
    | false =>
      obtain rfl : Op.consume c.max (c.taken + 1) c.head c.rest c.out = op := by
        simpa [State.callbackEnds] using hnew
      exact ⟨rfl, rfl, hchain, rfl, by simp⟩
    | true =>
      cases hhead : c.head with
      | none =>
        obtain rfl : Op.finish true c.out = op := by
          simpa [State.callbackEnds, hhead] using hnew
        have hrest := hchain.head_eq_none_iff.mp hhead
        exact ⟨hrest.symm, rfl, trivial, rfl, by simp⟩
      | some head =>
        obtain rfl : State.startRequeue (.batch true c.out) head c.rest = op := by
          simpa [State.callbackEnds, hhead] using hnew
        rw [hhead] at hchain
        obtain ⟨rest, hrest, htail⟩ := hchain.exists_cons
        simp only [State.startRequeue, hrest, List.tail_cons]
        exact ⟨rfl, rfl, ⟨rfl, htail⟩, rfl, by simp⟩
  obtain ⟨op, hnew⟩ : ∃ op, (s.callbackEnds c callers exn).op = some op := by
    unfold State.callbackEnds
    simp only
    split_ifs
    · cases c.head <;> simp
    · simp
  obtain ⟨hrests, hcreating, hlinked, hdrain, hadd⟩ := hheld op hnew
  have howned : s.owned = s.registered ++ c.reg :: callers.map Caller.reg := by
    simp [State.owned, State.callerRegs, State.opCreating, hcallers, hop]
  have howned' : (s.callbackEnds c callers exn).owned = s.registered ++ callers.map Caller.reg := by
    rw [State.owned, State.opCreating, hnew, Option.elim_some, hcreating, List.append_nil]
    rfl
  have hplaced : ∀ a, (s.callbackEnds c callers exn).placed.count a = s.placed.count a := by
    intro a
    simp only [State.placed, State.callerRests, State.opHeld, hcallers, hop,
      hnew, Option.elim_some, Option.elim_none, hrests, List.flatMap_cons,
      List.count_append, List.count_nil]
    simp only [State.callbackEnds, State.clearObj, State.regRelease]
    omega
  have hlive : ∀ a, a ∈ (s.callbackEnds c callers exn).owned → a ∈ s.owned ∧ a ≠ c.reg := by
    intro a ha
    rw [howned'] at ha
    rw [howned] at hone ⊢
    refine ⟨by simp only [List.mem_append, List.mem_cons] at ha ⊢; tauto, ?_⟩
    rintro rfl
    have := List.count_pos_iff.mpr ha
    simp only [List.count_append, List.count_cons_self] at hone this
    omega
  have hmethod : MethodSound (s.callbackEnds c callers exn) :=
    .running hnew hlinked hadd (by simp [hdrain])
  refine { hmethod, h with
    owned_count := ?owned_count
    owned_live := ?owned_live
    owned_ident := fun a ha => h.owned_ident a (hlive a ha).1
    placed_count := fun a => hplaced a ▸ h.placed_count a
    placed_enqueued := ?placed_enqueued
    caller_chain := fun c' hc' => h.caller_chain c' (hcallers ▸ List.mem_cons_of_mem _ hc')
    outstanding := h.outstanding_kept rfl (fun _ _ => id) ?outstanding }
  case owned_count =>
    intro a
    have hcount := h.owned_count a
    rw [howned, List.count_append, List.count_cons] at hcount
    rw [howned', List.count_append]
    omega
  case owned_live =>
    intro a ha
    obtain ⟨hold, hne⟩ := hlive a ha
    simpa [State.callbackEnds, hne, State.clearObj] using h.owned_live a hold
  case placed_enqueued =>
    intro a ha
    apply h.placed_enqueued a
    rwa [← List.count_pos_iff, hplaced, List.count_pos_iff] at ha
  case outstanding =>
    intro reg hlive
    have hne : reg ≠ c.reg := by
      rintro rfl
      simp [State.callbackEnds] at hlive
    exact ⟨by simpa [State.callbackEnds, hne, State.clearObj] using hlive, rfl, id⟩

/-- The rest of a batch goes back in front of the ready list. -/
theorem requeueLocked
    (h : Shape s)
    {after : After}
    {head tail : Addr}
    {walked : List Addr}
    (hop : s.op = some (.requeue after head tail walked [])) :
    Shape
      { s.requeueLocked head tail (walked ++ [tail]) with
        op := State.afterRequeue after } := by
  have hchain : Chain s.heap.nextReady (some head) (walked ++ [tail]) := h.op_linked _ hop
  have hheld : s.opHeld = walked ++ [tail] := by
    simp [State.opHeld, hop, Op.held]
  have hcreating : s.opCreating = [] := by
    simp [State.opCreating, hop, Op.creating]
  have hafter : (State.afterRequeue after).elim [] Op.held = [] ∧
      (State.afterRequeue after).elim [] Op.creating = [] := by
    cases after <;> simp [State.afterRequeue, Op.held, Op.creating]
  have hone := h.placed_split tail
  rw [hheld, List.count_append, List.count_singleton_self] at hone
  have hforeign : ∀ a, a ≠ tail →
      (s.requeueLocked head tail (walked ++ [tail])).heap.nextReady a = s.heap.nextReady a := by
    intro a ha
    simp [State.requeueLocked, Function.update_of_ne ha]
  have hplaces : InPlace
      { s.requeueLocked head tail (walked ++ [tail]) with op := State.afterRequeue after } := by
    refine h.inPlace (by grind) ?_ rfl rfl rfl
    intro a
    simp only [State.placed, State.requeueLocked, State.callerRests, hheld, List.count_append]
    simp only [State.opHeld, hafter.1, List.count_nil]
    omega
  have hmethod : MethodSound
      { s.requeueLocked head tail (walked ++ [tail]) with op := State.afterRequeue after } := by
    cases after with
    | batch exn out => exact .running rfl trivial (by simp) (by simp [Op.isDrain])
    | reclaimed => exact .idle rfl
  refine { hplaces, hmethod, h with
    ready_chain := ?ready_chain
    ready_last := ?ready_last
    caller_chain := ?caller_chain }
  case ready_chain =>
    have hwalked : tail ∉ walked := by
      rw [← List.count_pos_iff]
      omega
    have hready : tail ∉ s.ready := by
      rw [← List.count_pos_iff]
      omega
    simpa [State.requeueLocked] using hchain.join h.ready_chain hwalked hready
  case ready_last =>
    simp only [State.requeueLocked, h.ready_last]
    cases hlast : s.ready.getLast? with
    | none =>
      have hnil := List.getLast?_eq_none_iff.mp hlast
      simp [hnil]
    | some last =>
      rw [List.getLast?_append, hlast]
      rfl
  case caller_chain =>
    intro c (hc : c ∈ s.callers)
    apply (h.caller_chain c hc).congr
    intro a ha
    apply hforeign
    rintro rfl
    have := List.count_pos_iff.mpr (State.mem_callerRests hc ha)
    omega

theorem back_chain_reclaimLink
    (h : Shape s)
    {reg : Addr}
    {entries : List Entry}
    {head tail : Option Addr}
    {back : List Addr}
    (hop : s.op = some (.reclaimLink reg entries head tail back))
    (hreg : reg ∉ s.placed) :
    ∃ head' : Option Addr,
      (s.stepReclaimLink reg entries head tail back).op =
        some (.reclaim entries head' (some reg) (back ++ [reg])) ∧
      Chain (s.stepReclaimLink reg entries head tail back).heap.nextReady
        head' (back ++ [reg]) := by
  obtain ⟨hchain, htail⟩ : Chain s.heap.nextReady head back ∧ tail = back.getLast? :=
    h.op_linked _ hop
  have hheld : s.opHeld = back := by
    simp [State.opHeld, hop, Op.held]
  have hnotMem : reg ∉ back := by
    intro hmem
    exact hreg (by simp [State.placed, hheld, hmem])
  have hcleared := (hchain.update hnotMem none).update hnotMem none
  rcases List.eq_nil_or_concat back with hnil | ⟨before, last, hback⟩
  · subst hnil
    have htail : tail = none := htail
    subst htail
    refine ⟨some reg, rfl, ?_⟩
    simp [State.stepReclaimLink]
  · rw [List.concat_eq_append] at hback
    have htail : tail = some last := by
      rw [htail, hback]
      simp
    subst htail
    have hne : last ≠ reg := by
      rintro rfl
      exact hnotMem (by simp [hback])
    have hbefore : last ∉ before := by
      have hone := h.placed_split last
      rw [hheld, hback, List.count_append, List.count_singleton_self] at hone
      rw [← List.count_pos_iff]
      omega
    refine ⟨head, rfl, ?_⟩
    rw [hback] at hcleared ⊢
    have hsingle :
        Chain (Function.update (Function.update s.heap.nextReady reg none) reg none)
          (some reg) [reg] := by
      simp
    have hjoin := hcleared.join hsingle hbefore (by simpa using hne)
    simpa [State.stepReclaimLink, State.regLink, State.claim] using hjoin

/-- `reactor_reclaim` registers and flags the record it made. -/
theorem stepReclaimLink
    (h : Shape s)
    {reg : Addr}
    {entries : List Entry}
    {head tail : Option Addr}
    {back : List Addr}
    (hop : s.op = some (.reclaimLink reg entries head tail back)) :
    Shape (s.stepReclaimLink reg entries head tail back) := by
  have hmem : reg ∈ s.opCreating := by
    simp [State.opCreating, hop, Op.creating]
  obtain ⟨hfresh, hnotCaller⟩ := h.creating_fresh hmem
  have hnotPlaced : reg ∉ s.placed := fun hp => hfresh (h.mem_registered hp)
  have hheld : s.opHeld = back := by
    simp [State.opHeld, hop, Op.held]
  have hcreating : s.opCreating = [reg] := by
    simp [State.opCreating, hop, Op.creating]
  obtain ⟨head', hnew, hchain⟩ := h.back_chain_reclaimLink hop hnotPlaced
  have htail : tail = back.getLast? := (h.op_linked _ hop).2
  have hforeign : ∀ a, a ≠ reg → back.count a = 0 →
      (s.stepReclaimLink reg entries head tail back).heap.nextReady a = s.heap.nextReady a := by
    intro a hne hback
    cases tail with
    | none =>
      simp [State.stepReclaimLink, State.regLink, State.claim, Function.update_of_ne hne]
    | some last =>
      have hlast : a ≠ last := by
        rintro rfl
        have := List.count_pos_iff.mpr (List.mem_of_getLast? htail.symm)
        omega
      simp [State.stepReclaimLink, State.regLink, State.claim,
        Function.update_of_ne hne, Function.update_of_ne hlast]
  have hflags : ∀ a,
      (s.stepReclaimLink reg entries head tail back).heap.enqueued a =
        if a = reg then true else s.heap.enqueued a := by
    intro a
    simp [State.stepReclaimLink, State.regLink, State.claim, Function.update_apply]
  have hmethod : MethodSound (s.stepReclaimLink reg entries head tail back) :=
    .running hnew ⟨hchain, by simp⟩ (by simp) (by simp [Op.isDrain])
  refine { hmethod, h with
    owned_count := ?owned_count
    owned_live := ?owned_live
    owned_ident := ?owned_ident
    placed_count := ?placed_count
    placed_enqueued := ?placed_enqueued
    ready_chain := ?ready_chain
    caller_chain := ?caller_chain
    outstanding := h.outstanding_kept rfl (fun _ _ => id) ?outstanding }
  case owned_count =>
    intro a
    have := h.owned_count a
    simp only [State.owned, State.callerRegs, State.opCreating, hnew] at *
    grind [State.stepReclaimLink]
  case owned_live =>
    intro a ha
    apply h.owned_live a
    simp only [State.owned, State.callerRegs, State.opCreating, hnew] at *
    grind [State.stepReclaimLink]
  case owned_ident =>
    intro a ha
    apply h.owned_ident a
    simp only [State.owned, State.callerRegs, State.opCreating, hnew] at *
    grind [State.stepReclaimLink]
  case placed_count =>
    intro a
    have := h.placed_count a
    simp only [State.placed, State.callerRests, State.opHeld, hnew] at *
    grind [State.stepReclaimLink]
  case placed_enqueued =>
    intro a ha
    have := h.placed_enqueued a
    rw [hflags]
    simp only [State.placed, State.callerRests, State.opHeld, hnew] at *
    grind [State.stepReclaimLink]
  case ready_chain =>
    apply h.ready_chain.congr
    intro a ha
    have hpos := List.count_pos_iff.mpr ha
    have hone := h.placed_split a
    rw [hheld] at hone
    refine hforeign a ?_ (by omega)
    rintro rfl
    exact hnotPlaced (by simp [State.placed, ha])
  case caller_chain =>
    intro c (hc : c ∈ s.callers)
    apply (h.caller_chain c hc).congr
    intro a ha
    have hrest := State.mem_callerRests hc ha
    have hpos := List.count_pos_iff.mpr hrest
    have hone := h.placed_split a
    rw [hheld] at hone
    refine hforeign a ?_ (by omega)
    rintro rfl
    exact hnotPlaced (by simp [State.placed, hrest])
  case outstanding =>
    intro reg' hlive
    refine ⟨hlive, rfl, ?_⟩
    rintro (hmem' | hset)
    · exact .inl (List.mem_cons_of_mem _ hmem')
    · right
      rw [hflags, hset]
      simp

/-- `cass_future_set_callback` takes the callback. -/
theorem accepted
    (h : Shape s)
    {reg : Addr}
    {c : CassFuture}
    (hop : s.op = some (.add reg .setCallback)) :
    Shape
      { s with
        futures :=
          Function.update s.futures c
            { s.futures c with
              callback := some (.reactorCb reg (s.heap.ident reg)) }
        op :=
          some (.add reg
            (if (s.futures c).isSet then .claim true
             else .recheck true)) } := by
  obtain ⟨hreg, hflag, hunpublished⟩ :
      reg ∈ s.registered ∧ ¬ s.heap.enqueued reg = true ∧ ¬ s.Outstanding reg (s.heap.ident reg) :=
    h.add_sound reg .setCallback hop
  have hident : s.heap.ident reg < s.nextIdent := h.owned_ident reg (by simp [State.owned, hreg])
  have hop' : Shape
      { s with
        op :=
          some (.add reg
            (if (s.futures c).isSet then .claim true
             else .recheck true)) } := by
    apply h.of_op
    · simp only [State.opHeld, hop, Option.elim_some, Op.held]
      split_ifs <;> rfl
    · simp only [State.opCreating, hop, Option.elim_some, Op.creating]
      split_ifs <;> rfl
    · apply MethodSound.adding rfl
      split_ifs <;> exact hreg
  apply hop'.of_driver _ s.firing
  · intro reg' ident hout
    rcases State.outstanding_of_update hout with hold | ⟨-, hdata⟩
    · exact .inl hold
    · obtain ⟨rfl, rfl⟩ : reg = reg' ∧ s.heap.ident reg = ident := by
        simpa using hdata
      exact .inr ⟨hreg, hident⟩
  · rintro reg' phase ⟨⟩
    split_ifs <;> exact hreg

/-- `Future::internal_set`. -/
theorem resolve (h : Shape s) {c : CassFuture} (hunset : (s.futures c).isSet = false) :
    Shape
      { s with
        futures := Function.update s.futures c { s.futures c with isSet := true }
        firing :=
          match (s.futures c).callback with
          | some (.reactorCb reg ident) => (reg, ident) :: s.firing
          | _ => s.firing } := by
  apply h.of_driver_le
  rintro reg ident (hfiring | ⟨c', hset', hdata⟩)
  · -- the callback was set before the future was resolved
    split at hfiring
    · next reg' ident' hcallback =>
        rcases List.mem_cons.mp hfiring with heq | hold
        · obtain ⟨rfl, rfl⟩ := Prod.mk.inj heq
          exact .inr ⟨c, hunset, hcallback⟩
        · exact .inl hold
    · exact .inl hfiring
  · by_cases hc : c' = c
    · subst hc
      simp at hset'
    · simp only [Function.update_of_ne hc] at hset' hdata
      exact .inr ⟨c', hset', hdata⟩

/-- The end of the request drops the frames of the callbacks. -/
theorem bailout (h : Shape s) (hop : s.op = none) : Shape { s with callers := [] } := by
  have hmethod : MethodSound { s with callers := [] } := .idle hop
  exact { hmethod, h with
    owned_count := fun a => by have := h.owned_count a; grind
    owned_live := fun a => by have := h.owned_live a; grind
    owned_ident := fun a => by have := h.owned_ident a; grind
    placed_count := fun a => by have := h.placed_count a; grind
    placed_enqueued := fun a => by have := h.placed_enqueued a; grind
    caller_chain := by simp }

end Shape

end Async
end ScyllaDriver
