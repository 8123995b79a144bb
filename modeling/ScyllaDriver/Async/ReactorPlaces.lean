import ScyllaDriver.Async.Reactor
import ScyllaDriver.Library.Chain

/-!
# Where the records of the reactor are

Every live record has one place. It is registered, or a `poll()` waits for
its callback (`callers`), or `reg_create` is still filling it. A registered
record whose flag is set is at most once in one of the lists that lead to a
delivery: claimed by a driver thread (`pushing`), on the ready list, in the
unvisited part of the batch of some `poll()`, or in a list that is being put
back.

`Shape` states this by counting: `owned` collects the live records and
`placed` the flagged ones, and no address counts more often in `placed` than
in the registered list. The pointer lists are then disjoint, so a write
through one of them leaves the others alone.

Every step keeps `Shape`, except for a driver callback that works on a
released record.
-/

namespace ScyllaDriver
namespace Async

open Linked

/-- The flagged records `add()` has in hand. -/
@[grind =] def AddPhase.held (reg : Addr) : AddPhase → List Addr
  | .push _ => [reg]
  | _ => []

/-- The record `add()` is still creating. -/
@[grind =] def AddPhase.creating (reg : Addr) : AddPhase → List Addr
  | .link => [reg]
  | _ => []

namespace Op

/-- The flagged records the running method has in hand. -/
@[grind =] def held : Op → List Addr
  | .add reg phase => phase.held reg
  | .consume _ _ _ rest _ => rest
  | .requeue _ _ tail walked ahead => walked ++ tail :: ahead
  | .reclaim _ _ _ back => back
  | .reclaimLink _ _ _ _ back => back
  | .drainConsume _ rest => rest
  | _ => []

/-- The record the running method is still creating. -/
@[grind =] def creating : Op → List Addr
  | .add reg phase => phase.creating reg
  | .reclaimLink reg _ _ _ _ => [reg]
  | _ => []

/-- The pointers of the running method lead through the records it holds. -/
def Linked (next : Addr → Option Addr) : Op → Prop
  | .consume _ _ head rest _ => Chain next head rest
  | .requeue _ head tail walked ahead =>
    Chain next (some head) (walked ++ tail :: ahead)
  | .reclaim _ head tail back => Chain next head back ∧ tail = back.getLast?
  | .reclaimLink _ _ head tail back =>
    Chain next head back ∧ tail = back.getLast?
  | .drainConsume head rest => Chain next head rest
  | _ => True

theorem Linked.congr {next next' : Addr → Option Addr} {op : Op} (h : op.Linked next)
    (hsame : ∀ a ∈ op.held, next' a = next a) : op.Linked next' := by
  cases op with
  | reclaim entries head tail back => exact ⟨Chain.congr h.1 hsame, h.2⟩
  | reclaimLink reg entries head tail back =>
    exact ⟨Chain.congr h.1 hsame, h.2⟩
  | consume max taken head rest out | requeue after head tail walked ahead
  | drainConsume head rest => exact Chain.congr h hsame
  | _ => trivial

/-- The methods `reactor_drain` consists of. -/
def isDrain : Op → Bool
  | .drainLoop => true
  | .drainWait _ => true
  | .drainFd => true
  | .drainSplice => true
  | .drainConsume _ _ => true
  | _ => false

end Op

namespace State

@[grind =] def opHeld (s : State) : List Addr :=
  s.op.elim [] Op.held

@[grind =] def opCreating (s : State) : List Addr :=
  s.op.elim [] Op.creating

@[grind =] def callerRegs (s : State) : List Addr :=
  s.callers.map Caller.reg

@[grind =] def callerRests (s : State) : List Addr :=
  s.callers.flatMap Caller.rest

/-- The live records. -/
@[grind =] def owned (s : State) : List Addr :=
  s.registered ++ (s.callerRegs ++ s.opCreating)

/-- The records on their way to a delivery. -/
@[grind =] def placed (s : State) : List Addr :=
  s.pushing ++ (s.ready ++ (s.callerRests ++ s.opHeld))

/-- A driver callback with this data may still run. -/
def Outstanding (s : State) (reg : Addr) (ident : Nat) : Prop :=
  (reg, ident) ∈ s.firing ∨
    ∃ c, (s.futures c).isSet = false ∧ (s.futures c).callback = some (.reactorCb reg ident)

theorem outstanding_of_update {s : State} {c : CassFuture} {d : DriverFuture} {reg : Addr}
    {ident : Nat}
    (h : State.Outstanding { s with futures := Function.update s.futures c d } reg ident) :
    s.Outstanding reg ident ∨ (d.isSet = false ∧ d.callback = some (.reactorCb reg ident)) := by
  rcases h with hfiring | ⟨c', hset, hcallback⟩
  · exact .inl (.inl hfiring)
  · by_cases hc : c' = c
    · subst hc
      simp only [Function.update_self] at hset hcallback
      exact .inr ⟨hset, hcallback⟩
    · simp only [Function.update_of_ne hc] at hset hcallback
      exact .inl (.inr ⟨c', hset, hcallback⟩)

end State

/-- What the phases of `add()` know about their record: whether it is
registered, flagged, and within reach of a driver callback. Before the driver
has accepted the callback nobody else can flag it. -/
def AddPhase.Sound (registered flagged published : Prop) : AddPhase → Prop
  | .link => ¬ flagged
  | .setCallback => registered ∧ ¬ flagged ∧ ¬ published
  | .recheck false => registered ∧ ¬ flagged ∧ ¬ published
  | _ => registered

theorem AddPhase.Sound.mono {registered flagged published registered' flagged' published' : Prop}
    {phase : AddPhase} (h : phase.Sound registered flagged published)
    (hregistered : registered → registered') (hflagged : flagged' → flagged)
    (hpublished : published' → published) : phase.Sound registered' flagged' published' := by
  cases phase with
  | link => exact fun hf => h (hflagged hf)
  | setCallback =>
    exact ⟨hregistered h.1, fun hf => h.2.1 (hflagged hf), fun hp => h.2.2 (hpublished hp)⟩
  | recheck accepted =>
    cases accepted with
    | false =>
      exact ⟨hregistered h.1, fun hf => h.2.1 (hflagged hf), fun hp => h.2.2 (hpublished hp)⟩
    | true => exact hregistered h
  | claim inner | push inner => exact hregistered h

/-- Every record is in one place, and alive where it is owned. -/
structure InPlace (s : State) : Prop where
  owned_count : ∀ a, s.owned.count a ≤ 1
  owned_live : ∀ a ∈ s.owned, s.heap.live a = true
  owned_ident : ∀ a ∈ s.owned, s.heap.ident a < s.nextIdent
  placed_count : ∀ a, s.placed.count a ≤ s.registered.count a
  placed_enqueued : ∀ a ∈ s.placed, s.heap.enqueued a = true

/-- What the running method relies on. -/
structure MethodSound (s : State) : Prop where
  op_linked : ∀ op, s.op = some op → op.Linked s.heap.nextReady
  add_sound : ∀ reg phase, s.op = some (.add reg phase) →
    phase.Sound (reg ∈ s.registered) (s.heap.enqueued reg = true)
      (s.Outstanding reg (s.heap.ident reg))
  drain_top : ∀ op, s.op = some op → op.isDrain = true → s.callers = []

structure Shape (s : State) : Prop extends InPlace s, MethodSound s where
  ready_chain : Chain s.heap.nextReady s.readyHead s.ready
  ready_last : s.readyTail = s.ready.getLast?
  caller_chain : ∀ c ∈ s.callers, Chain s.heap.nextReady c.head c.rest
  outstanding : ∀ reg ident, s.Outstanding reg ident →
    ident < s.nextIdent ∧
      (s.heap.live reg = true → s.heap.ident reg = ident →
        reg ∈ s.registered ∨ s.heap.enqueued reg = true)

theorem shape_initial : Shape initial := by
  refine ⟨?_, ?_, ?_, ?_, ?_, ?_⟩ <;> try constructor
  all_goals simp [initial, State.owned, State.placed, State.callerRegs,
    State.callerRests, State.opHeld, State.opCreating, State.Outstanding]

attribute [grind =] State.regCreate State.regLink State.regRelease
  State.clearSlot State.clearObj State.claim State.pushReady
  State.requeueLocked State.splice

theorem count_singleton_eq_ite (reg a : Addr) : [reg].count a = if a = reg then 1 else 0 := by
  grind

theorem State.mem_callerRests {s : State} {c : Caller} (hc : c ∈ s.callers) {a : Addr}
    (ha : a ∈ c.rest) : a ∈ s.callerRests :=
  List.mem_flatMap_of_mem hc ha

namespace Shape

variable {s : State}

theorem registered_count_le (h : Shape s) (a : Addr) : s.registered.count a ≤ 1 := by
  have := h.owned_count a
  simp only [State.owned, List.count_append] at this
  omega

theorem not_mem_erase (h : Shape s) (a : Addr) : a ∉ s.registered.erase a := by
  have := h.registered_count_le a
  rw [← List.count_pos_iff, List.count_erase_self]
  omega

theorem mem_registered (h : Shape s) {a : Addr} (ha : a ∈ s.placed) : a ∈ s.registered := by
  have := h.placed_count a
  have hpos := List.count_pos_iff.mpr ha
  exact List.count_pos_iff.mp (by omega)

theorem placed_split (h : Shape s) (a : Addr) :
    s.pushing.count a + s.ready.count a + s.callerRests.count a + s.opHeld.count a ≤ 1 := by
  have hplaced := h.placed_count a
  have hregistered := h.registered_count_le a
  simp only [State.placed, List.count_append] at hplaced
  omega

theorem not_placed_of_not_enqueued (h : Shape s) {a : Addr} (ha : s.heap.enqueued a = false) :
    a ∉ s.placed := by
  intro hplaced
  simp [h.placed_enqueued a hplaced] at ha

theorem creating_fresh (h : Shape s) {a : Addr} (ha : a ∈ s.opCreating) :
    a ∉ s.registered ∧ a ∉ s.callerRegs := by
  have := h.owned_count a
  have hpos := List.count_pos_iff.mpr ha
  simp only [State.owned, List.count_append] at this
  constructor
  · intro hmem
    have := List.count_pos_iff.mpr hmem
    omega
  · intro hmem
    have := List.count_pos_iff.mpr hmem
    omega

theorem caller_not_registered (h : Shape s) {a : Addr} (ha : a ∈ s.callerRegs) :
    a ∉ s.registered := by
  intro hmem
  have := h.owned_count a
  have hpos := List.count_pos_iff.mpr ha
  have hpos' := List.count_pos_iff.mpr hmem
  simp only [State.owned, List.count_append] at this
  omega

end Shape

namespace MethodSound

variable {s : State}

theorem idle (hop : s.op = none) : MethodSound s := by
  constructor <;> simp [hop]

theorem running {op : Op} (hop : s.op = some op) (hlinked : op.Linked s.heap.nextReady)
    (hadd : ∀ reg phase, op ≠ .add reg phase) (hdrain : op.isDrain = true → s.callers = []) :
    MethodSound s := by
  constructor
  case op_linked => simpa [hop] using hlinked
  case add_sound => simp [hop, hadd]
  case drain_top => simpa [hop] using hdrain

theorem adding {reg : Addr} {phase : AddPhase} (hop : s.op = some (.add reg phase))
    (hsound : phase.Sound (reg ∈ s.registered) (s.heap.enqueued reg = true)
      (s.Outstanding reg (s.heap.ident reg))) : MethodSound s := by
  constructor
  case op_linked => simp [hop, Op.Linked]
  case add_sound =>
    intro reg' phase' hop'
    obtain ⟨rfl, rfl⟩ : reg = reg' ∧ phase = phase' := by simpa [hop] using hop'
    exact hsound
  case drain_top => simp [hop, Op.isDrain]

end MethodSound

namespace Shape

variable {s s' : State}

/-- The lists may change hands as long as each record stays in them as often
as it was. -/
theorem inPlace (h : Shape s) (howned : s'.owned = s.owned)
    (hplaced : ∀ a, s'.placed.count a = s.placed.count a)
    (hheap : s'.heap = { s.heap with nextReady := s'.heap.nextReady })
    (hregistered : s'.registered = s.registered) (hident : s'.nextIdent = s.nextIdent) :
    InPlace s' := by
  have hmem : ∀ a, a ∈ s'.placed ↔ a ∈ s.placed := by
    intro a
    rw [← List.count_pos_iff, hplaced, List.count_pos_iff]
  constructor
  case owned_count => simpa only [howned] using h.owned_count
  case owned_live => simpa only [howned, congrArg Heap.live hheap] using h.owned_live
  case owned_ident =>
    simpa only [howned, congrArg Heap.ident hheap, hident] using h.owned_ident
  case placed_count => simpa only [hplaced, hregistered] using h.placed_count
  case placed_enqueued =>
    simpa only [hmem, congrArg Heap.enqueued hheap] using h.placed_enqueued

/-- A callback of the driver keeps finding its record as long as the record
keeps its number and, once registered or flagged, stays one of the two. -/
theorem outstanding_kept (h : Shape s) (hident : s'.nextIdent = s.nextIdent)
    (hout : ∀ reg ident, s'.Outstanding reg ident → s.Outstanding reg ident)
    (hrecord : ∀ reg, s'.heap.live reg = true →
      s.heap.live reg = true ∧ s'.heap.ident reg = s.heap.ident reg ∧
        (reg ∈ s.registered ∨ s.heap.enqueued reg = true →
          reg ∈ s'.registered ∨ s'.heap.enqueued reg = true)) (reg : Addr) (ident : Nat)
    (hreg : s'.Outstanding reg ident) :
    ident < s'.nextIdent ∧
      (s'.heap.live reg = true → s'.heap.ident reg = ident →
        reg ∈ s'.registered ∨ s'.heap.enqueued reg = true) := by
  obtain ⟨hlt, hplace⟩ := h.outstanding reg ident (hout reg ident hreg)
  refine ⟨hident ▸ hlt, ?_⟩
  intro hlive hsame
  obtain ⟨hold, hnumber, hkept⟩ := hrecord reg hlive
  exact hkept (hplace hold (hnumber.symm.trans hsame))

theorem of_op (h : Shape s) (op : Option Op) (hheld : op.elim [] Op.held = s.opHeld)
    (hcreating : op.elim [] Op.creating = s.opCreating)
    (hmethod : MethodSound { s with op := op }) : Shape { s with op := op } := by
  have hplaces : InPlace { s with op := op } := h.inPlace (by grind) (by grind) rfl rfl rfl
  exact { hplaces, hmethod, h with }

theorem of_driver (h : Shape s) (futures : CassFuture → DriverFuture) (firing : List (Addr × Nat))
    (hout : ∀ reg ident,
      State.Outstanding { s with futures := futures, firing := firing } reg ident →
      s.Outstanding reg ident ∨ (reg ∈ s.registered ∧ ident < s.nextIdent))
    (hadd : ∀ reg phase, s.op = some (.add reg phase) →
      phase.Sound (reg ∈ s.registered) (s.heap.enqueued reg = true)
        (State.Outstanding { s with futures := futures, firing := firing }
          reg (s.heap.ident reg))) : Shape { s with futures := futures, firing := firing } := by
  refine { h with add_sound := hadd, outstanding := ?_ }
  intro reg ident hnew
  rcases hout reg ident hnew with hold | ⟨hreg, hident⟩
  · exact h.outstanding reg ident hold
  · exact ⟨hident, fun _ _ => .inl hreg⟩

theorem of_driver_le (h : Shape s) (futures : CassFuture → DriverFuture)
    (firing : List (Addr × Nat))
    (hout : ∀ reg ident,
      State.Outstanding { s with futures := futures, firing := firing }
        reg ident → s.Outstanding reg ident) :
    Shape { s with futures := futures, firing := firing } :=
  h.of_driver futures firing (fun reg ident hnew => .inl (hout reg ident hnew))
    (fun reg phase hop => (h.add_sound reg phase hop).mono id id (hout _ _))

end Shape

end Async
end ScyllaDriver
