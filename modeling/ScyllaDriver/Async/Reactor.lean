import ScyllaDriver.Library.Transition
import Mathlib.Logic.Function.Basic

/-!
# The reactor of `Cassandra\Async\Reactor`

`Async/Reactor.c` hands completed futures to userland. `add()` creates a
registration record and gives it to the driver as callback data; a driver
thread that completes the future pushes the record onto the ready list; and
`poll()` splices that list out, calls the callbacks or collects the futures,
and puts back what it did not visit. User code runs inside the callbacks and
may call `add()` and `poll()` again, throw, or end the request.

The model is an event-driven machine. One event is one step of one thread:

* user code, at the top level or inside a callback, calls a method, returns
  from the callback, throws, or ends the request;
* the main thread runs the next step of the method it is in (`Op`);
* a driver thread resolves a future, enters `reg_enqueue` from the callback,
  or runs the locked part of `reg_enqueue`.

A step is a stretch of code that touches shared memory at most once: an atomic
operation, a critical section, or a call into the driver. `reg_create` is two
steps, since a pointer to recycled memory may be used between its first and
its last store.

Records live in a field-separated heap. Freed memory keeps its bytes, and
`pemalloc` may return any address that is not live.

The fields marked as auxiliary are written and never read by the code: they
number the records and the `add()` calls, and keep the pointer lists as Lean
lists.
-/

namespace ScyllaDriver
namespace Async

/-- Address of a `php_scylladb_reg`. -/
abbrev Addr := Nat

/-- A Future object of one of the classes that
`php_scylladb_future_slots_try` knows. Objects of other classes are refused
before anything is touched. -/
abbrev Obj := Nat

abbrev CassFuture := Nat

abbrev Callable := Nat

/-- The memory of the registration records, one map per field. The reference
count is left out: it is 2 from `reg_create` to `reg_release`, which drops
both at once. -/
structure Heap where
  live : Addr → Bool
  enqueued : Addr → Bool
  futureObj : Addr → Option Obj
  future : Addr → Option CassFuture
  callback : Addr → Option Callable
  nextReady : Addr → Option Addr
  /-- Auxiliary: the number of the `reg_create` call that filled the record. -/
  ident : Addr → Nat
  /-- Auxiliary: the number of the `add()` call the record stands for. -/
  ticket : Addr → Nat

/-- What `cass_future_set_callback` stored: `reactor_cb` with a record, or
`php_scylladb_notify_cb`. -/
inductive CallbackData where
  | reactorCb (reg : Addr) (ident : Nat)
  | notifyCb
deriving DecidableEq

/-- `is_set_` and `callback_` of a driver future. -/
structure DriverFuture where
  isSet : Bool
  callback : Option CallbackData
deriving DecidableEq

/-- One slot of the array `poll()` fills, with the number of its `add()`. -/
structure Entry where
  obj : Obj
  ticket : Nat
deriving DecidableEq

/-- Where `add()` stands, after the first part of `reg_create`. `claim` and
`push` are the two steps of `reg_enqueue`; they are entered from inside
`cass_future_set_callback` when the future is resolved already. -/
inductive AddPhase where
  | link
  | setCallback
  | recheck (accepted : Bool)
  | claim (inner : Bool)
  | push (inner : Bool)
deriving DecidableEq

/-- What follows a `reactor_requeue`. -/
inductive After where
  | batch (exn : Bool) (out : List Entry)
  | reclaimed
deriving DecidableEq

/-- The method the main thread is in. The lists `rest`, `walked`, `ahead` and
`back` are auxiliary: they hold the cells of the pointer list beside them. -/
inductive Op where
  | add (reg : Addr) (phase : AddPhase)
  | pollDrain (max : Nat)
  | pollSplice (max : Nat)
  | consume (max taken : Nat) (head : Option Addr) (rest : List Addr) (out : List Entry)
  | requeue (after : After) (head tail : Addr) (walked ahead : List Addr)
  | finish (exn : Bool) (out : List Entry)
  | reclaim (entries : List Entry) (head tail : Option Addr) (back : List Addr)
  | reclaimLink (reg : Addr) (entries : List Entry) (head tail : Option Addr) (back : List Addr)
  | drainLoop
  | drainWait (todo : List Addr)
  | drainFd
  | drainSplice
  | drainConsume (head : Option Addr) (rest : List Addr)
deriving DecidableEq

/-- A `poll()` that waits for the callback of `reg` to come back. -/
structure Caller where
  max : Nat
  taken : Nat
  reg : Addr
  head : Option Addr
  rest : List Addr
  out : List Entry
deriving DecidableEq

structure State where
  heap : Heap
  readyHead : Option Addr
  readyTail : Option Addr
  registered : List Addr
  pending : UInt32
  /-- Whether the shared descriptor is readable. -/
  fd : Bool
  /-- `reactor_reg` of every Future object. -/
  slots : Obj → Option Addr
  /-- Whether the Future object has a notifier of its own. -/
  notifier : Obj → Bool
  futures : CassFuture → DriverFuture
  /-- Callbacks taken by a driver thread and not yet run. -/
  firing : List (Addr × Nat)
  /-- Records a driver thread has claimed and not yet pushed. -/
  pushing : List Addr
  /-- The method that runs; user code runs when there is none. -/
  op : Option Op
  /-- The `poll()` calls user code was called from, the innermost first. -/
  callers : List Caller
  /-- Auxiliary: the ready list. -/
  ready : List Addr
  /-- Auxiliary: the next record number. -/
  nextIdent : Nat
  /-- Auxiliary: the `add()` calls whose completion was pushed. -/
  completions : List Nat
  /-- Auxiliary: the `add()` calls handed out, by a callback or in an array. -/
  delivered : List Nat
  /-- Auxiliary: the messages of the exceptions the methods raised. -/
  raised : List String

/-- User code is between two top-level calls. -/
def State.TopLevel (s : State) : Prop :=
  s.op = none ∧ s.callers = []

instance (s : State) : Decidable s.TopLevel :=
  inferInstanceAs (Decidable (_ ∧ _))

namespace State

/-- `reg_create` up to the copy of the callback. -/
def regCreate (s : State) (futureOf : Obj → Option CassFuture) (reg : Addr) (o : Obj)
    (callback : Option Callable) (ticket : Nat) : State :=
  { s with
    heap :=
      { s.heap with
        live := Function.update s.heap.live reg true
        enqueued := Function.update s.heap.enqueued reg false
        futureObj := Function.update s.heap.futureObj reg (some o)
        future := Function.update s.heap.future reg (futureOf o)
        callback := Function.update s.heap.callback reg callback
        ident := Function.update s.heap.ident reg s.nextIdent
        ticket := Function.update s.heap.ticket reg ticket }
    slots := Function.update s.slots o (some reg)
    nextIdent := s.nextIdent + 1 }

/-- The rest of `reg_create`. -/
def regLink (s : State) (reg : Addr) : State :=
  { s with
    heap :=
      { s.heap with
        nextReady := Function.update s.heap.nextReady reg none }
    registered := reg :: s.registered
    pending := s.pending + 1 }

/-- `reg_unregister`. A record outside the list has no neighbours, and then
the code empties the list. -/
def regUnregister (s : State) (reg : Addr) : State :=
  { s with
    registered := if reg ∈ s.registered then s.registered.erase reg else []
    pending := s.pending - 1 }

/-- `reg_release`. -/
def regRelease (s : State) (reg : Addr) : State :=
  { s with
    heap := { s.heap with live := Function.update s.heap.live reg false } }

/-- `*reg->reg_slot = nullptr`. -/
def clearSlot (s : State) (reg : Addr) : State :=
  { s with
    slots :=
      match s.heap.futureObj reg with
      | some o => Function.update s.slots o none
      | none => s.slots }

/-- `reg->future_obj = nullptr`. -/
def clearObj (s : State) (reg : Addr) : State :=
  { s with
    heap :=
      { s.heap with
        futureObj := Function.update s.heap.futureObj reg none } }

/-- The winning compare-and-swap of `reg_enqueue`. -/
def claim (s : State) (reg : Addr) : State :=
  { s with
    heap :=
      { s.heap with
        enqueued := Function.update s.heap.enqueued reg true } }

/-- The critical section of `reg_enqueue`. -/
def pushReady (s : State) (reg : Addr) : State :=
  let next := Function.update s.heap.nextReady reg none
  { s with
    heap :=
      { s.heap with
        nextReady :=
          match s.readyTail with
          | some tail => Function.update next tail (some reg)
          | none => next }
    readyHead :=
      match s.readyTail with
      | some _ => s.readyHead
      | none => some reg
    readyTail := some reg
    fd := true
    ready := s.ready ++ [reg]
    completions := s.heap.ticket reg :: s.completions }

/-- The critical section of `reactor_requeue`. -/
def requeueLocked (s : State) (head tail : Addr) (cells : List Addr) : State :=
  { s with
    heap :=
      { s.heap with
        nextReady := Function.update s.heap.nextReady tail s.readyHead }
    readyHead := some head
    readyTail :=
      match s.readyTail with
      | some t => some t
      | none => some tail
    fd := true
    ready := cells ++ s.ready }

/-- `reactor_splice`; the old head is read before. -/
def splice (s : State) : State :=
  { s with readyHead := none, readyTail := none, ready := [] }

end State

namespace State

section Updates

variable (s : State) (reg : Addr) (a : Addr)

@[simp, grind =] theorem regRelease_live :
    (s.regRelease reg).heap.live a = if a = reg then false else s.heap.live a := by
  simp [regRelease, Function.update_apply]

@[simp, grind =] theorem claim_enqueued :
    (s.claim reg).heap.enqueued a = if a = reg then true else s.heap.enqueued a := by
  simp [claim, Function.update_apply]

@[simp, grind =] theorem clearObj_futureObj :
    (s.clearObj reg).heap.futureObj a = if a = reg then none else s.heap.futureObj a := by
  simp [clearObj, Function.update_apply]

theorem pushReady_nextReady_of_ne {s : State} {reg a : Addr} (hreg : a ≠ reg)
    (htail : s.readyTail ≠ some a) : (s.pushReady reg).heap.nextReady a = s.heap.nextReady a := by
  cases ht : s.readyTail with
  | none => simp [pushReady, ht, Function.update_of_ne hreg]
  | some tail =>
    have hne : a ≠ tail := by
      rintro rfl
      exact htail ht
    simp [pushReady, ht, Function.update_of_ne hne, Function.update_of_ne hreg]

variable (futureOf : Obj → Option CassFuture) (o : Obj) (callback : Option Callable) (ticket : Nat)

@[simp, grind =] theorem regCreate_live :
    (s.regCreate futureOf reg o callback ticket).heap.live a =
      if a = reg then true else s.heap.live a := by
  simp [regCreate, Function.update_apply]

@[simp, grind =] theorem regCreate_enqueued :
    (s.regCreate futureOf reg o callback ticket).heap.enqueued a =
      if a = reg then false else s.heap.enqueued a := by
  simp [regCreate, Function.update_apply]

@[simp, grind =] theorem regCreate_ident :
    (s.regCreate futureOf reg o callback ticket).heap.ident a =
      if a = reg then s.nextIdent else s.heap.ident a := by
  simp [regCreate, Function.update_apply]

@[simp, grind =] theorem regCreate_ticket :
    (s.regCreate futureOf reg o callback ticket).heap.ticket a =
      if a = reg then ticket else s.heap.ticket a := by
  simp [regCreate, Function.update_apply]

@[simp, grind =] theorem regCreate_futureObj :
    (s.regCreate futureOf reg o callback ticket).heap.futureObj a =
      if a = reg then some o else s.heap.futureObj a := by
  simp [regCreate, Function.update_apply]

end Updates

end State

/-- `php_scylladb_future_claim_reactor`. -/
def claimReactor (reactorReg : Option Addr) (notifier : Bool) : Except String Unit :=
  if reactorReg.isSome then
    .error "%s is already registered with the reactor"
  else if notifier then
    .error ("%s already exposes a per-future descriptor (getResource / " ++
      "PollHandle::forFuture); use one async model per future")
  else
    .ok ()

/-- `php_scylladb_future_claim_notifier`. -/
def claimNotifier (reactorReg : Option Addr) : Except String Unit :=
  if reactorReg.isSome then
    .error "%s is registered with Cassandra\\Async\\Reactor; use one async model per future"
  else
    .ok ()

/-- The third argument of `reactor_consume`, or the `ValueError` of `poll()`.
The cast `(uint32_t) max` keeps 32 bits, and 0 means no limit. -/
def pollLimit : Option Int → Except String Nat
  | none => .ok 0
  | some max =>
    if max < 1 then
      .error "must be greater than 0, or null for every completion"
    else
      .ok (max % 2 ^ 32).toNat

namespace State

def raise (s : State) (message : String) : State :=
  { s with raised := message :: s.raised }

/-- `Reactor::add` up to the first part of `reg_create`. -/
def callAdd (s : State) (futureOf : Obj → Option CassFuture) (o : Obj)
    (callback : Option Callable) (fresh : Addr) : Option State :=
  match claimReactor (s.slots o) (s.notifier o) with
  | .error message => some (s.raise message)
  | .ok () =>
    if s.heap.live fresh then
      none
    else
      some
        { s.regCreate futureOf fresh o callback s.nextIdent with
          op := some (.add fresh .link) }

/-- `Reactor::poll` up to the drain of the descriptor. -/
def callPoll (s : State) (max : Option Int) : State :=
  match pollLimit max with
  | .error message => s.raise message
  | .ok limit => { s with op := some (.pollDrain limit) }

/-- `php_scylladb_future_ensure_notifier`, for a future without notifier. -/
def ensureNotifier (s : State) (o : Obj) : Option CassFuture → State
  | none =>
    s.raise "Received a nullptr future from the driver (allocation failure)"
  | some c =>
    if (s.futures c).callback = none then
      { s with
        notifier := Function.update s.notifier o true
        futures :=
          Function.update s.futures c { s.futures c with callback := some .notifyCb } }
    else if (s.futures c).isSet then
      { s with notifier := Function.update s.notifier o true }
    else
      s.raise "Failed to register the async completion callback: %s. The future cannot be watched"

/-- The `getResource()` methods and `PollHandle::forFuture`. `resolved` is
the class's own test for a future that needs no callback. -/
def callDescribe (s : State) (futureOf : Obj → Option CassFuture) (o : Obj)
    (resolved : Bool) : State :=
  match claimNotifier (s.slots o) with
  | .error message => s.raise message
  | .ok () =>
    if s.notifier o then
      s
    else if resolved then
      { s with notifier := Function.update s.notifier o true }
    else
      s.ensureNotifier o (futureOf o)

/-- `cass_future_set_callback(slots.future, reactor_cb, reg)`. -/
def addSetCallback (s : State) (reg : Addr) (c : CassFuture) : State :=
  if (s.futures c).callback = none then
    { s with
      futures :=
        Function.update s.futures c
          { s.futures c with
            callback := some (.reactorCb reg (s.heap.ident reg)) }
      op :=
        some (.add reg (if (s.futures c).isSet then .claim true else .recheck true)) }
  else
    { s with op := some (.add reg (.recheck false)) }

/-- The two tests of `cass_future_ready` after the registration. -/
def addRecheck (s : State) (reg : Addr) (accepted : Bool) (isReady : Bool) : State :=
  if accepted = false ∧ isReady = false then
    { (((s.clearSlot reg).regUnregister reg).regRelease reg).raise
        "Failed to register the async completion callback: %s" with
      op := none }
  else if accepted = false ∨ isReady = true then
    { s with op := some (.add reg (.claim false)) }
  else
    { s with op := none }

/-- What `add()` does once `reg_enqueue` is over. -/
def addContinue (reg : Addr) (inner : Bool) : Option Op :=
  if inner then some (.add reg (.recheck true)) else none

def stepAdd (s : State) (reg : Addr) : AddPhase → State
  | .link =>
    { s.regLink reg with
      op :=
        some (.add reg
          (if (s.heap.future reg).isNone then .claim false
           else .setCallback)) }
  | .setCallback =>
    match s.heap.future reg with
    | none => s
    | some c => s.addSetCallback reg c
  | .recheck accepted =>
    match s.heap.future reg with
    | none => s
    | some c => s.addRecheck reg accepted (s.futures c).isSet
  | .claim inner =>
    if s.heap.enqueued reg then
      { s with op := addContinue reg inner }
    else
      { s.claim reg with op := some (.add reg (.push inner)) }
  | .push inner =>
    { s.pushReady reg with op := addContinue reg inner }

/-- Enter `reactor_requeue`. -/
def startRequeue (after : After) (head : Addr) (rest : List Addr) : Op :=
  .requeue after head head [] rest.tail

/-- One round of the loop of `reactor_consume` with an array to fill. -/
def stepConsume (s : State) (max taken : Nat) (head : Option Addr)
    (rest : List Addr) (out : List Entry) : State :=
  match head with
  | none => { s with op := some (.finish false out) }
  | some reg =>
    if max ≠ 0 ∧ max ≤ taken then
      { s with op := some (startRequeue (.batch false out) reg rest) }
    else
      let next := s.heap.nextReady reg
      let s := s.regUnregister reg
      match s.heap.futureObj reg with
      | none =>
        { s.regRelease reg with
          op := some (.consume max (taken + 1) next rest.tail out) }
      | some o =>
        let s := s.clearSlot reg
        if (s.heap.callback reg).isSome then
          { s with
            op := none
            callers := ⟨max, taken, reg, next, rest.tail, out⟩ :: s.callers
            delivered := s.heap.ticket reg :: s.delivered }
        else
          { (s.clearObj reg).regRelease reg with
            op :=
              some (.consume max (taken + 1) next rest.tail (out ++ [⟨o, s.heap.ticket reg⟩])) }

/-- The rest of the round after the callback came back, with or without an
exception. -/
def callbackEnds (s : State) (c : Caller) (callers : List Caller) (exn : Bool) : State :=
  { (s.clearObj c.reg).regRelease c.reg with
    callers := callers
    op :=
      if exn then
        match c.head with
        | none => some (.finish true c.out)
        | some head => some (startRequeue (.batch true c.out) head c.rest)
      else
        some (.consume c.max (c.taken + 1) c.head c.rest c.out) }

/-- What follows the critical section of `reactor_requeue`. -/
def afterRequeue : After → Option Op
  | .batch exn out => some (.finish exn out)
  | .reclaimed => none

/-- One step of the walk to the tail, or the critical section. -/
def stepRequeue (s : State) (after : After) (head tail : Addr) (walked ahead : List Addr) : State :=
  match s.heap.nextReady tail with
  | some next =>
    { s with
      op := some (.requeue after head next (walked ++ [tail]) ahead.tail) }
  | none =>
    { s.requeueLocked head tail (walked ++ tail :: ahead) with
      op := afterRequeue after }

/-- The end of `poll()`: an exception discards the array, so what was
collected is put back. -/
def stepFinish (s : State) (exn : Bool) (out : List Entry) : State :=
  if exn then
    if out.isEmpty then
      { s with op := none }
    else
      { s with op := some (.reclaim out none none []) }
  else
    { s with
      op := none
      delivered := out.map Entry.ticket ++ s.delivered }

/-- The head of the loop of `reactor_reclaim`. -/
def stepReclaim (s : State) (futureOf : Obj → Option CassFuture) (fresh : Addr)
    (entries : List Entry) (head tail : Option Addr) (back : List Addr) : Option State :=
  match entries with
  | [] =>
    match head with
    | none => some { s with op := none }
    | some h => some { s with op := some (startRequeue .reclaimed h back) }
  | entry :: entries =>
    if s.heap.live fresh then
      none
    else
      some
        { s.regCreate futureOf fresh entry.obj none entry.ticket with
          op := some (.reclaimLink fresh entries head tail back) }

/-- The rest of the loop body: no driver thread has the record, so its flag is
set and it is linked by hand. -/
def stepReclaimLink (s : State) (reg : Addr) (entries : List Entry)
    (head tail : Option Addr) (back : List Addr) : State :=
  let s := (s.regLink reg).claim reg
  let next := Function.update s.heap.nextReady reg none
  { s with
    heap :=
      { s.heap with
        nextReady :=
          match tail with
          | some t => Function.update next t (some reg)
          | none => next }
    op :=
      some (.reclaim entries
        (match tail with
         | some _ => head
         | none => some reg)
        (some reg) (back ++ [reg])) }

/-- One round of `reactor_consume` without an array. -/
def stepDrainConsume (s : State) (head : Option Addr) (rest : List Addr) : State :=
  match head with
  | none => { s with op := some .drainLoop }
  | some reg =>
    let next := s.heap.nextReady reg
    { (((s.regUnregister reg).clearSlot reg).clearObj reg).regRelease reg with
      op := some (.drainConsume next rest.tail) }

/-- `cass_future_wait` on the records of the registered list: it blocks until
the future is set. -/
def stepDrainWait (s : State) : List Addr → Option State
  | [] => some { s with op := some .drainFd }
  | reg :: todo =>
    match s.heap.future reg with
    | none => some { s with op := some (.drainWait todo) }
    | some c =>
      if (s.futures c).isSet then
        some { s with op := some (.drainWait todo) }
      else
        none

/-- The next step of the method the main thread is in. -/
def stepMain (s : State) (futureOf : Obj → Option CassFuture) (fresh : Addr) : Op → Option State
  | .add reg phase => some (s.stepAdd reg phase)
  | .pollDrain max =>
    some { s with fd := false, op := some (.pollSplice max) }
  | .pollSplice max =>
    some
      { s.splice with
        op := some (.consume max 0 s.readyHead s.ready []) }
  | .consume max taken head rest out =>
    some (s.stepConsume max taken head rest out)
  | .requeue after head tail walked ahead =>
    some (s.stepRequeue after head tail walked ahead)
  | .finish exn out => some (s.stepFinish exn out)
  | .reclaim entries head tail back =>
    s.stepReclaim futureOf fresh entries head tail back
  | .reclaimLink reg entries head tail back =>
    some (s.stepReclaimLink reg entries head tail back)
  | .drainLoop =>
    if s.registered.isEmpty then
      -- the drain of the descriptor in `php_scylladb_reactor_reset`
      some { s with fd := false, op := none }
    else
      some { s with op := some (.drainWait s.registered) }
  | .drainWait todo => s.stepDrainWait todo
  | .drainFd => some { s with fd := false, op := some .drainSplice }
  | .drainSplice =>
    some
      { s.splice with
        op :=
          if s.readyHead.isSome then
            some (.drainConsume s.readyHead s.ready)
          else
            some .drainLoop }
  | .drainConsume head rest => some (s.stepDrainConsume head rest)

/-- `Future::internal_set`: the callback is read under the future's lock and
run after it is released. -/
def resolve (s : State) (c : CassFuture) : Option State :=
  if (s.futures c).isSet then
    none
  else
    some
      { s with
        futures := Function.update s.futures c { s.futures c with isSet := true }
        firing :=
          match (s.futures c).callback with
          | some (.reactorCb reg ident) => (reg, ident) :: s.firing
          | _ => s.firing }

/-- `reactor_cb` on a driver thread, up to the compare-and-swap. -/
def fire (s : State) (reg : Addr) (ident : Nat) : Option State :=
  if (reg, ident) ∈ s.firing then
    if s.heap.enqueued reg then
      some { s with firing := s.firing.erase (reg, ident) }
    else
      some
        { s.claim reg with
          firing := s.firing.erase (reg, ident)
          pushing := reg :: s.pushing }
  else
    none

/-- The critical section of `reg_enqueue` on a driver thread. -/
def push (s : State) (reg : Addr) : Option State :=
  if reg ∈ s.pushing then
    some { s.pushReady reg with pushing := s.pushing.erase reg }
  else
    none

end State

namespace State

variable {s : State}

theorem regUnregister_eq {reg : Addr} (hreg : reg ∈ s.registered) :
    s.regUnregister reg =
      { s with
        registered := s.registered.erase reg
        pending := s.pending - 1 } := by
  simp [regUnregister, hreg]

section Round

variable {max taken : Nat} {reg : Addr} {rest : List Addr} {out : List Entry}

theorem stepConsume_limit (hlimit : max ≠ 0 ∧ max ≤ taken) :
    s.stepConsume max taken (some reg) rest out =
      { s with op := some (startRequeue (.batch false out) reg rest) } := by
  simp only [stepConsume, if_pos hlimit]

variable (hlimit : ¬ (max ≠ 0 ∧ max ≤ taken)) (hreg : reg ∈ s.registered)
include hlimit hreg

theorem stepConsume_empty (hobj : s.heap.futureObj reg = none) :
    s.stepConsume max taken (some reg) rest out =
      { s.regRelease reg with
        registered := s.registered.erase reg
        pending := s.pending - 1
        op := some (.consume max (taken + 1) (s.heap.nextReady reg) rest.tail out) } := by
  simp only [stepConsume, if_neg hlimit, regUnregister_eq hreg, hobj, regRelease]

theorem stepConsume_call {o : Obj} (hobj : s.heap.futureObj reg = some o)
    (hcallback : (s.heap.callback reg).isSome = true) :
    s.stepConsume max taken (some reg) rest out =
      { s with
        registered := s.registered.erase reg
        pending := s.pending - 1
        slots := Function.update s.slots o none
        op := none
        callers := ⟨max, taken, reg, s.heap.nextReady reg, rest.tail, out⟩ :: s.callers
        delivered := s.heap.ticket reg :: s.delivered } := by
  simp only [stepConsume, if_neg hlimit, regUnregister_eq hreg, hobj, clearSlot, if_pos hcallback]

theorem stepConsume_collect {o : Obj} (hobj : s.heap.futureObj reg = some o)
    (hcallback : ¬ (s.heap.callback reg).isSome = true) :
    s.stepConsume max taken (some reg) rest out =
      { (s.clearObj reg).regRelease reg with
        registered := s.registered.erase reg
        pending := s.pending - 1
        slots := Function.update s.slots o none
        op := some (.consume max (taken + 1) (s.heap.nextReady reg)
          rest.tail (out ++ [⟨o, s.heap.ticket reg⟩])) } := by
  simp only [stepConsume, if_neg hlimit, regUnregister_eq hreg, hobj,
    clearSlot, if_neg hcallback, clearObj, regRelease]

end Round

end State

inductive Event where
  | add (o : Obj) (callback : Option Callable) (fresh : Addr)
  | poll (max : Option Int)
  | pending
  | getResource (o : Obj) (resolved : Bool)
  | forFuture (o : Obj)
  | callbackReturns
  | callbackThrows
  | bailout
  | shutdown
  | main (fresh : Addr)
  | resolve (c : CassFuture)
  | fire (reg : Addr) (ident : Nat)
  | push (reg : Addr)
deriving DecidableEq

/-- An event of user code needs that no method runs. -/
def userStep (s : State) (next : Option State) : Option State :=
  if s.op = none then next else none

theorem userStep_eq_some {s s' : State} {next : Option State} (h : userStep s next = some s') :
    s.op = none ∧ next = some s' := by
  unfold userStep at h
  split_ifs at h with hop
  exact ⟨hop, h⟩

theorem userStep_of_some {s s' next : State} (h : userStep s (some next) = some s') :
    s.op = none ∧ next = s' := by
  obtain ⟨hop, hnext⟩ := userStep_eq_some h
  exact ⟨hop, Option.some.inj hnext⟩

/-- The machine. `none` means that the event cannot happen in the state. -/
def step (futureOf : Obj → Option CassFuture) (s : State) : Event → Option State
  | .add o callback fresh =>
    userStep s (s.callAdd futureOf o callback fresh)
  | .poll max => userStep s (some (s.callPoll max))
  | .pending => userStep s (some s)
  | .getResource o resolved =>
    userStep s (some (s.callDescribe futureOf o resolved))
  | .forFuture o =>
    userStep s (some (s.callDescribe futureOf o (futureOf o).isNone))
  | .callbackReturns =>
    match s.callers with
    | [] => none
    | c :: callers => userStep s (some (s.callbackEnds c callers false))
  | .callbackThrows =>
    match s.callers with
    | [] => none
    | c :: callers => userStep s (some (s.callbackEnds c callers true))
  | .bailout => userStep s (some { s with callers := [] })
  | .shutdown =>
    match s.callers with
    | [] => userStep s (some { s with op := some .drainLoop })
    | _ :: _ => none
  | .main fresh =>
    match s.op with
    | none => none
    | some op => s.stepMain futureOf fresh op
  | .resolve c => s.resolve c
  | .fire reg ident => s.fire reg ident
  | .push reg => s.push reg

theorem callbackStep_eq_some {s s' : State} {exn : Bool}
    (h : (match s.callers with
      | [] => none
      | c :: callers => userStep s (some (s.callbackEnds c callers exn))) = some s') :
    ∃ c callers, s.op = none ∧ s.callers = c :: callers ∧ s.callbackEnds c callers exn = s' := by
  split at h
  · cases h
  · next c callers hcallers =>
      obtain ⟨hop, heq⟩ := userStep_of_some h
      exact ⟨c, callers, hop, hcallers, heq⟩

def initial : State where
  heap := ⟨fun _ => false, fun _ => false, fun _ => none, fun _ => none,
    fun _ => none, fun _ => none, fun _ => 0, fun _ => 0⟩
  readyHead := none
  readyTail := none
  registered := []
  pending := 0
  fd := false
  slots := fun _ => none
  notifier := fun _ => false
  futures := fun _ => ⟨false, none⟩
  firing := []
  pushing := []
  op := none
  callers := []
  ready := []
  nextIdent := 0
  completions := []
  delivered := []
  raised := []

/--
The event is a driver callback whose record was released meanwhile.

`add()` tests `cass_future_ready` and enqueues the record itself; the driver
sets `is_set_` before it runs the callback. So a `poll()` may free the record
between the two, and the callback then works on freed memory.
-/
def Stale (s : State) : Event → Prop
  | .fire reg ident =>
    ¬ (s.heap.live reg = true ∧ s.heap.ident reg = ident)
  | _ => False

instance (s : State) (e : Event) : Decidable (Stale s e) := by
  cases e <;> unfold Stale <;> infer_instance

end Async
end ScyllaDriver
