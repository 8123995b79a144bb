import ScyllaDriver.Library.RefCount
import ScyllaDriver.Library.Transition

/-!
# The notifier of a future

`php_scylladb_future_ensure_notifier` gives a future a descriptor that becomes
readable when the future is resolved. The driver's callback signals it, on a
thread of the driver or inside `cass_future_set_callback`; the call itself signals
it if the future is resolved already. The notifier is shared: the call, the slot
of the `Future` object, the callback until it has run and every poll handle hold a
reference, and the one who drops the last closes the descriptor and frees it.

The state is that of one `Future` object and its driver future. A call that failed
may be made again, so there may be several notifiers; they are numbered in the
order of their creation.
-/

namespace ScyllaDriver
namespace Async
namespace Notify

open Transition RefCount

/-- `php_scylladb_notifier`. The descriptor is readable once it was written to. -/
structure Notifier where
  refs : RefCount := {}
  readable : Bool := false
deriving DecidableEq

namespace Notifier

def addref (n : Notifier) : Notifier :=
  { n with refs := n.refs.addref 32 }

def unrefExtra (n : Notifier) : Notifier :=
  { n with refs := n.refs.drop 32 }

def unref (n : Notifier) : Notifier :=
  { n with refs := n.refs.unref 32 }

/-- `php_scylladb_notifier_poke`. A write that finds the descriptor full changes
nothing: it is readable then. -/
def poke (n : Notifier) : Notifier :=
  { n with readable := true }

@[simp] theorem readable_addref (n : Notifier) : n.addref.readable = n.readable := by
  obtain ⟨refs, readable⟩ := n
  exact (rfl : (addref ⟨refs, readable⟩).readable = readable)

@[simp] theorem readable_unrefExtra (n : Notifier) : n.unrefExtra.readable = n.readable := by
  obtain ⟨refs, readable⟩ := n
  exact (rfl : (unrefExtra ⟨refs, readable⟩).readable = readable)

@[simp] theorem readable_unref (n : Notifier) : n.unref.readable = n.readable := by
  obtain ⟨refs, readable⟩ := n
  exact (rfl : (unref ⟨refs, readable⟩).readable = readable)

end Notifier

/-- How far `php_scylladb_future_ensure_notifier` has come with a new notifier. -/
inductive CallStage where
  /-- before `php_scylladb_notifier_addref` -/
  | created
  /-- before `cass_future_set_callback` -/
  | added
  /-- inside `cass_future_set_callback`, which runs the callback -/
  | calling
  /-- after an error of `cass_future_set_callback` -/
  | refused
  /-- after `php_scylladb_notifier_unref_extra` -/
  | dropped
  /-- before the second `cass_future_ready` -/
  | recheck
  | poking
  | storing
deriving DecidableEq

/-- The references the call has in its hands. -/
@[grind =] def CallStage.refs : CallStage → Nat
  | .added => 2
  | .refused => 2
  | _ => 1

structure Call where
  notifier : Nat
  stage : CallStage
deriving DecidableEq

inductive CallbackStage where
  /-- the future is pending -/
  | waiting
  /-- before `php_scylladb_notifier_poke` -/
  | firing
  /-- before `php_scylladb_notifier_unref` -/
  | poked
  | done
deriving DecidableEq

structure Callback where
  notifier : Nat
  stage : CallbackStage
deriving DecidableEq

structure State where
  /-- the driver future is not null -/
  hasFuture : Bool
  isSet : Bool
  callback : Option Callback
  notifier : Nat → Notifier
  created : Nat
  /-- the `Future` object exists -/
  object : Bool
  slot : Option Nat
  call : Option Call
  /-- the notifiers of the poll handles -/
  handles : List Nat
  raised : List String
  /-- a notifier was used after it had been freed -/
  misused : Bool

namespace State

@[grind =] def touch (s : State) (n : Nat) (f : Notifier → Notifier) : State :=
  { s with
    notifier := Function.update s.notifier n (f (s.notifier n))
    misused := s.misused || decide (0 < (s.notifier n).refs.frees) }

def raise (s : State) (message : String) : State :=
  { s with raised := message :: s.raised }

/-- The call up to the creation of the notifier; `pipe` says whether the system has a
descriptor for it. -/
def callEnsure (s : State) (pipe : Bool) : State :=
  if s.slot.isSome then
    s
  else if ¬ s.hasFuture then
    s.raise "Received a nullptr future from the driver (allocation failure)"
  else if ¬ pipe then
    s.raise "Failed to create async notification pipe: %s"
  else
    { s with
      notifier := Function.update s.notifier s.created {}
      created := s.created + 1
      call := some ⟨s.created, .created⟩ }

/-- `cass_future_set_callback`. It runs the callback at once if the future is set. -/
def setCallback (s : State) (n : Nat) : State :=
  if s.isSet then
    { s with callback := some ⟨n, .firing⟩, call := some ⟨n, .calling⟩ }
  else
    { s with callback := some ⟨n, .waiting⟩, call := some ⟨n, .recheck⟩ }

def callbackRefused : String :=
  "Failed to register the async completion callback: %s. The future cannot be watched"

/-- The next step of the call; `accepted` is what `cass_future_set_callback`
answers. -/
def stepCall (s : State) (accepted : Bool) : Call → Option State
  | ⟨n, .created⟩ =>
    some { s.touch n Notifier.addref with call := some ⟨n, .added⟩ }
  | ⟨n, .added⟩ =>
    if accepted then
      -- a future has one callback
      if s.callback.isSome then none else some (s.setCallback n)
    else
      some { s with call := some ⟨n, .refused⟩ }
  | ⟨n, .calling⟩ =>
    if s.callback = some ⟨n, .done⟩ then
      some { s with call := some ⟨n, .recheck⟩ }
    else
      none
  | ⟨n, .refused⟩ =>
    some { s.touch n Notifier.unrefExtra with call := some ⟨n, .dropped⟩ }
  | ⟨n, .dropped⟩ =>
    if s.isSet then
      some { s with call := some ⟨n, .recheck⟩ }
    else
      some { (s.raise callbackRefused).touch n Notifier.unref with call := none }
  | ⟨n, .recheck⟩ =>
    some { s with call := some ⟨n, if s.isSet then .poking else .storing⟩ }
  | ⟨n, .poking⟩ =>
    some { s.touch n Notifier.poke with call := some ⟨n, .storing⟩ }
  | ⟨n, .storing⟩ =>
    some { s with slot := some n, call := none }

/-- `Future::internal_set`: the callback runs after the future is set. -/
def resolve (s : State) : State :=
  { s with
    isSet := true
    callback := s.callback.map fun c =>
      if c.stage = .waiting then { c with stage := .firing } else c }

/-- The next step of `php_scylladb_notify_cb`. -/
def stepCallback (s : State) : Callback → Option State
  | ⟨n, .firing⟩ => some { s.touch n Notifier.poke with callback := some ⟨n, .poked⟩ }
  | ⟨n, .poked⟩ => some { s.touch n Notifier.unref with callback := some ⟨n, .done⟩ }
  | _ => none

/-- The `Future` object is freed. -/
def release (s : State) : State :=
  match s.slot with
  | none => { s with object := false }
  | some n => { s.touch n Notifier.unref with slot := none, object := false }

/-- `poll_handle_instantiate`. -/
def instantiate (s : State) (n : Nat) : State :=
  { s.touch n Notifier.addref with handles := n :: s.handles }

/-- `poll_handle_cleanup`. -/
def cleanup (s : State) (n : Nat) : State :=
  { s.touch n Notifier.unref with handles := s.handles.erase n }

end State

inductive Event where
  | ensure (pipe : Bool)
  | main (accepted : Bool)
  | resolve
  | callback
  | release
  | newHandle
  | dropHandle (n : Nat)
deriving DecidableEq

/-- Objects of PHP are numbered by an `int`, so there are fewer than this. -/
def maxObjects : Nat :=
  2 ^ 31

/-- The machine. `none` means that the event cannot happen in the state. -/
def step (s : State) : Event → Option State
  | .ensure pipe =>
    if s.object ∧ s.call = none then some (s.callEnsure pipe) else none
  | .main accepted => s.call.bind (s.stepCall accepted)
  | .resolve => if s.isSet then none else some s.resolve
  | .callback => s.callback.bind s.stepCallback
  | .release => if s.object ∧ s.call = none then some s.release else none
  | .newHandle =>
    if s.object ∧ s.call = none ∧ s.handles.length < maxObjects then
      s.slot.map s.instantiate
    else
      none
  | .dropHandle n => if n ∈ s.handles then some (s.cleanup n) else none

/-- A `Future` object that was just created. -/
def initial (hasFuture isSet : Bool) : State where
  hasFuture := hasFuture
  isSet := isSet
  callback := none
  notifier := fun _ => {}
  created := 0
  object := true
  slot := none
  call := none
  handles := []
  raised := []
  misused := false

namespace State

@[grind =] def slotHolds (s : State) (n : Nat) : Nat :=
  if s.slot = some n then 1 else 0

/-- A callback that has not dropped its reference yet. -/
@[grind =] def callbackHolds (s : State) (n : Nat) : Nat :=
  match s.callback with
  | some c => if c.notifier = n ∧ c.stage ≠ .done then 1 else 0
  | none => 0

@[grind =] def callHolds (s : State) (n : Nat) : Nat :=
  match s.call with
  | some c => if c.notifier = n then c.stage.refs else 0
  | none => 0

@[grind =] def holders (s : State) (n : Nat) : Nat :=
  s.slotHolds n + s.callbackHolds n + s.handles.count n + s.callHolds n

/-- The callback has not signalled yet. -/
def AboutToRun (s : State) (n : Nat) : Prop :=
  s.callback = some ⟨n, .waiting⟩ ∨ s.callback = some ⟨n, .firing⟩

/-- The call is not through with the notifier. -/
def Registering (s : State) (n : Nat) : Prop :=
  ∃ stage, s.call = some ⟨n, stage⟩ ∧ stage ≠ .storing

end State

section

variable {s s' : State} {e : Event} {n : Nat}

/-- What a step does to the notifiers and their holders: nothing, a new one, or work
of a holder on one of them. -/
inductive Change (s s' : State) : Prop
  | keeps :
      s'.notifier = s.notifier →
      s'.created = s.created →
      s'.misused = s.misused →
      (∀ m, s'.holders m = s.holders m) →
      Change s s'
  | creates :
      s'.notifier = Function.update s.notifier s.created {} →
      s'.created = s.created + 1 →
      s'.misused = s.misused →
      (∀ m, s'.holders m = s.holders m + if m = s.created then 1 else 0) →
      Change s s'
  | addref {n : Nat} :
      s'.notifier = (s.touch n Notifier.addref).notifier →
      s'.created = s.created →
      s'.misused = (s.touch n Notifier.addref).misused →
      s.holders n ≠ 0 →
      (∀ m, s'.holders m = s.holders m + if m = n then 1 else 0) →
      Change s s'
  | unrefExtra {n : Nat} :
      s'.notifier = (s.touch n Notifier.unrefExtra).notifier →
      s'.created = s.created →
      s'.misused = (s.touch n Notifier.unrefExtra).misused →
      s'.holders n ≠ 0 →
      (∀ m, s.holders m = s'.holders m + if m = n then 1 else 0) →
      Change s s'
  | unref {n : Nat} :
      s'.notifier = (s.touch n Notifier.unref).notifier →
      s'.created = s.created →
      s'.misused = (s.touch n Notifier.unref).misused →
      (∀ m, s.holders m = s'.holders m + if m = n then 1 else 0) →
      Change s s'
  | poke {n : Nat} :
      s'.notifier = (s.touch n Notifier.poke).notifier →
      s'.created = s.created →
      s'.misused = (s.touch n Notifier.poke).misused →
      s.holders n ≠ 0 →
      (∀ m, s'.holders m = s.holders m) →
      Change s s'

theorem holders_resolve (m : Nat) : s.resolve.holders m = s.holders m := by
  unfold State.resolve
  cases hcallback : s.callback with
  | none => grind
  | some c => grind

theorem stepCall_change {accepted : Bool} {c : Call} (hslot : s.slot = none)
    (hcall : s.call = some c) (hstep : s.stepCall accepted c = some s') : Change s s' := by
  obtain ⟨n, stage⟩ := c
  cases stage with
  | created =>
    cases hstep
    exact .addref rfl rfl rfl (by grind) (by grind)
  | added =>
    simp only [State.stepCall] at hstep
    split_ifs at hstep with haccepted hfree
    · cases hstep
      unfold State.setCallback
      split_ifs
      · exact .keeps rfl rfl rfl (by grind)
      · exact .keeps rfl rfl rfl (by grind)
    · cases hstep
      exact .keeps rfl rfl rfl (by grind)
  | calling =>
    simp only [State.stepCall] at hstep
    split_ifs at hstep
    cases hstep
    exact .keeps rfl rfl rfl (by grind)
  | refused =>
    cases hstep
    exact .unrefExtra rfl rfl rfl (by grind) (by grind)
  | dropped =>
    simp only [State.stepCall] at hstep
    split_ifs at hstep
    · cases hstep
      exact .keeps rfl rfl rfl (by grind)
    · cases hstep
      exact .unref rfl rfl rfl (by grind [State.raise])
  | recheck =>
    cases hstep
    refine .keeps rfl rfl rfl ?_
    cases s.isSet <;> grind
  | poking =>
    cases hstep
    exact .poke rfl rfl rfl (by grind) (by grind)
  | storing =>
    -- the slot takes over the reference of the call
    cases hstep
    exact .keeps rfl rfl rfl (by grind)

theorem step_change (hslot : s.call ≠ none → s.slot = none) (hstep : step s e = some s') :
    Change s s' := by
  cases e with
  | ensure pipe =>
    simp only [step] at hstep
    split_ifs at hstep with hidle
    cases hstep
    unfold State.callEnsure
    split_ifs
    · exact .keeps rfl rfl rfl fun _ => rfl
    · exact .creates rfl rfl rfl (by grind)
    · exact .keeps rfl rfl rfl fun _ => rfl
    · exact .keeps rfl rfl rfl fun _ => rfl
  | main accepted =>
    obtain ⟨c, hcall, hnext⟩ := Option.bind_eq_some_iff.mp hstep
    exact stepCall_change (hslot (by simp [hcall])) hcall hnext
  | resolve =>
    simp only [step] at hstep
    split_ifs at hstep
    cases hstep
    exact .keeps rfl rfl rfl holders_resolve
  | callback =>
    obtain ⟨⟨n, stage⟩, hcallback, hnext⟩ := Option.bind_eq_some_iff.mp hstep
    cases stage with
    | firing =>
      cases hnext
      exact .poke rfl rfl rfl (by grind) (by grind)
    | poked =>
      cases hnext
      exact .unref rfl rfl rfl (by grind)
    | waiting => cases hnext
    | done => cases hnext
  | release =>
    simp only [step] at hstep
    split_ifs at hstep with hidle
    cases hstep
    unfold State.release
    cases hs : s.slot with
    | none => exact .keeps rfl rfl rfl (by grind)
    | some n => exact .unref rfl rfl rfl (by grind)
  | newHandle =>
    simp only [step] at hstep
    split_ifs at hstep
    obtain ⟨n, hs, rfl⟩ := Option.map_eq_some_iff.mp hstep
    exact .addref rfl rfl rfl (by grind) (by grind [State.instantiate])
  | dropHandle n =>
    simp only [step] at hstep
    split_ifs at hstep with hmem
    cases hstep
    refine .unref rfl rfl rfl fun m => ?_
    have hcount : s.handles.count m = (s.handles.erase n).count m + if m = n then 1 else 0 := by
      by_cases hm : m = n
      · subst hm
        have hpos := List.count_pos_iff.mpr hmem
        rw [List.count_erase_self, if_pos rfl]
        omega
      · rw [List.count_erase_of_ne hm, if_neg hm, Nat.add_zero]
    have hothers : (s.cleanup n).holders m + s.handles.count m =
        s.holders m + (s.handles.erase n).count m := by
      grind [State.cleanup]
    omega

/-- Every notifier counts its holders, and nobody uses a freed one. -/
structure Counted (s : State) : Prop where
  counts : ∀ n < s.created, Counts (s.notifier n).refs (s.holders n)
  later : ∀ n, s.created ≤ n → s.holders n = 0
  misused : s.misused = false

theorem lt_created_of_holders (h : Counted s) (hn : s.holders n ≠ 0) : n < s.created := by
  by_contra hle
  exact hn (h.later n (Nat.le_of_not_lt hle))

theorem holders_lt (hfew : s.handles.length ≤ maxObjects) : s.holders n < 2 ^ 32 - 1 := by
  have hhandles : s.handles.count n ≤ s.handles.length := List.count_le_length
  have hslot : s.slotHolds n ≤ 1 := by
    unfold State.slotHolds
    split_ifs <;> simp
  have hcallback : s.callbackHolds n ≤ 1 := by
    unfold State.callbackHolds
    split
    · split_ifs <;> simp
    · simp
  have hcall : s.callHolds n ≤ 2 := by
    unfold State.callHolds
    split
    · next c _ =>
        split_ifs
        · cases c.stage <;> decide
        · simp
    · simp
  unfold State.holders
  unfold maxObjects at hfew
  omega

theorem Counted.touch {f : Notifier → Notifier} (h : Counted s)
    (hnotifier : s'.notifier = (s.touch n f).notifier) (hcreated : s'.created = s.created)
    (hmisused : s'.misused = (s.touch n f).misused) (hlive : s.holders n ≠ 0)
    (hothers : ∀ m, m ≠ n → s'.holders m = s.holders m)
    (hcounts : Counts (s.notifier n).refs (s.holders n) →
      Counts (f (s.notifier n)).refs (s'.holders n)) : Counted s' := by
  have hn := lt_created_of_holders h hlive
  refine ⟨fun m hm => ?_, fun m hm => ?_, ?_⟩
  · rw [hcreated] at hm
    rw [hnotifier]
    by_cases hmn : m = n
    · subst hmn
      simpa [State.touch] using hcounts (h.counts m hm)
    · simpa [State.touch, Function.update_of_ne hmn, hothers m hmn] using h.counts m hm
  · rw [hcreated] at hm
    rw [hothers m (by omega), h.later m hm]
  · rw [hmisused, State.touch, h.misused, (h.counts n hn).frees_eq_zero hlive]
    rfl

theorem Counted.change (h : Counted s) (hfew : s.handles.length ≤ maxObjects)
    (hchange : Change s s') : Counted s' := by
  have hfits := fun n => holders_lt (n := n) hfew
  cases hchange with
  | keeps hnotifier hcreated hmisused hholders =>
    refine ⟨fun n hn => ?_, fun n hn => ?_, hmisused.trans h.misused⟩
    · rw [hnotifier, hholders]
      exact h.counts n (hcreated ▸ hn)
    · rw [hholders]
      exact h.later n (hcreated ▸ hn)
  | creates hnotifier hcreated hmisused hholders =>
    refine ⟨fun n hn => ?_, fun n hn => ?_, hmisused.trans h.misused⟩
    · rw [hnotifier, hholders]
      by_cases hnew : n = s.created
      · subst hnew
        rw [Function.update_self, h.later _ (le_refl _), if_pos rfl]
        exact counts_new
      · rw [Function.update_of_ne hnew, if_neg hnew, Nat.add_zero]
        exact h.counts n (by omega)
    · rw [hholders, if_neg (by omega), h.later n (by omega)]
  | @addref n hnotifier hcreated hmisused hlive hholders =>
    refine h.touch hnotifier hcreated hmisused hlive (fun m hm => ?_) fun hcounts => ?_
    · rw [hholders, if_neg hm, Nat.add_zero]
    · rw [hholders, if_pos rfl]
      have := hfits n
      exact hcounts.addref hlive (by omega)
  | @unrefExtra n hnotifier hcreated hmisused hmore hholders =>
    have hn := hholders n
    rw [if_pos rfl] at hn
    have := hfits n
    refine h.touch hnotifier hcreated hmisused (by omega) (fun m hm => ?_) fun hcounts => ?_
    · have hm' := hholders m
      rw [if_neg hm] at hm'
      omega
    · rw [hn] at hcounts
      exact hcounts.drop hmore (by omega)
  | @unref n hnotifier hcreated hmisused hholders =>
    have hn := hholders n
    rw [if_pos rfl] at hn
    have := hfits n
    refine h.touch hnotifier hcreated hmisused (by omega) (fun m hm => ?_) fun hcounts => ?_
    · have hm' := hholders m
      rw [if_neg hm] at hm'
      omega
    · rw [hn] at hcounts
      exact hcounts.unref (by omega)
  | @poke n hnotifier hcreated hmisused hlive hholders =>
    refine h.touch hnotifier hcreated hmisused hlive (fun m _ => hholders m) fun hcounts => ?_
    rw [hholders]
    exact hcounts

/-- Before `cass_future_set_callback` has accepted the callback. -/
@[grind =] def CallStage.unregistered : CallStage → Bool
  | .created => true
  | .added => true
  | .refused => true
  | .dropped => true
  | _ => false

/-- What is known while the call and the callback run. -/
structure Control (s : State) : Prop where
  few : s.handles.length ≤ maxObjects
  slot_eq : s.call ≠ none → s.slot = none
  handles_eq : ∀ c, s.call = some c → s.handles.count c.notifier = 0
  unregistered : ∀ c, s.call = some c → c.stage.unregistered = true → s.callbackHolds c.notifier = 0
  resolved : ∀ c, s.call = some c → c.stage = .calling ∨ c.stage = .poking → s.isSet = true
  pending : ∀ c, s.call = some c → c.stage = .recheck → s.isSet = false →
    s.callback = some ⟨c.notifier, .waiting⟩
  callback : ∀ c, s.callback = some c → c.stage ≠ .waiting → s.isSet = true

/-- The descriptor of a notifier that has passed the call is readable or will be
written to, and that only happens when the future is resolved. -/
structure Signalled (s : State) : Prop where
  readable : ∀ n, (s.notifier n).readable = true → s.isSet = true
  signal : ∀ n, s.holders n ≠ 0 → ¬ s.Registering n →
    (s.notifier n).readable = true ∨ s.AboutToRun n

/-- The parts of the state that the call leaves alone while it goes on. -/
def State.SameSurroundings (s s' : State) : Prop :=
  s'.slot = s.slot ∧ s'.handles = s.handles ∧ s'.isSet = s.isSet ∧ s'.callback = s.callback

theorem Control.advance {stage stage' : CallStage} (h : Control s)
    (hcall : s.call = some ⟨n, stage⟩) (hsame : s.SameSurroundings s')
    (hcall' : s'.call = some ⟨n, stage'⟩)
    (hunregistered : stage'.unregistered = true → stage.unregistered = true)
    (hresolved : stage' = .calling ∨ stage' = .poking → s.isSet = true)
    (hpending : stage' = .recheck → s.isSet = false → s.callback = some ⟨n, .waiting⟩) :
    Control s' := by
  obtain ⟨hslot, hhandles, hset, hcallback⟩ := hsame
  have hholds : s'.callbackHolds n = s.callbackHolds n := by
    rw [State.callbackHolds, State.callbackHolds, hcallback]
  refine ⟨?_, fun _ => ?_, ?_, ?_, ?_, ?_, ?_⟩
  · rw [hhandles]
    exact h.few
  · rw [hslot]
    exact h.slot_eq (by simp [hcall])
  all_goals rw [hcall'] at *
  · rintro _ ⟨⟩
    rw [hhandles]
    exact h.handles_eq ⟨n, stage⟩ hcall
  · rintro _ ⟨⟩ hstage
    rw [hholds]
    exact h.unregistered _ hcall (hunregistered hstage)
  · rintro _ ⟨⟩ hstage
    rw [hset]
    exact hresolved hstage
  · rintro _ ⟨⟩ hstage hunset
    rw [hcallback]
    exact hpending hstage (hset.symm.trans hunset)
  · rw [hcallback, hset]
    exact h.callback

theorem Control.leave (h : Control s) (hcall : s'.call = none) (hhandles : s'.handles = s.handles)
    (hset : s'.isSet = s.isSet) (hcallback : s'.callback = s.callback) : Control s' := by
  refine ⟨?_, fun hrunning => absurd hcall hrunning, ?_, ?_, ?_, ?_, ?_⟩
  · rw [hhandles]
    exact h.few
  · simp [hcall]
  · simp [hcall]
  · simp [hcall]
  · simp [hcall]
  · rw [hcallback, hset]
    exact h.callback

theorem Control.setCallback (h : Control s) (hcall : s.call = some ⟨n, .added⟩) :
    Control (s.setCallback n) := by
  have hslot := h.slot_eq (by simp [hcall])
  have hhandles := h.handles_eq _ hcall
  unfold State.setCallback
  split_ifs with hset
  · refine ⟨h.few, fun _ => hslot, ?_, ?_, fun _ _ _ => hset, ?_, fun _ _ _ => hset⟩
    · rintro _ ⟨⟩
      exact hhandles
    · rintro _ ⟨⟩ hstage
      cases hstage
    · rintro _ ⟨⟩ hstage
      cases hstage
  · refine ⟨h.few, fun _ => hslot, ?_, ?_, ?_, ?_, ?_⟩
    · rintro _ ⟨⟩
      exact hhandles
    · rintro _ ⟨⟩ hstage
      cases hstage
    · rintro _ ⟨⟩ (hstage | hstage) <;> cases hstage
    · rintro _ ⟨⟩ _ _
      rfl
    · rintro _ ⟨⟩ hstage
      exact absurd rfl hstage

theorem Control.stepCall {accepted : Bool} {c : Call} (h : Control s) (hcall : s.call = some c)
    (hstep : s.stepCall accepted c = some s') : Control s' := by
  obtain ⟨n, stage⟩ := c
  have hsame : ∀ call, s.SameSurroundings { s with call := call } := fun _ => ⟨rfl, rfl, rfl, rfl⟩
  have htouched : ∀ f call, s.SameSurroundings { s.touch n f with call := call } :=
    fun _ _ => ⟨rfl, rfl, rfl, rfl⟩
  cases stage with
  | added =>
    simp only [State.stepCall] at hstep
    split_ifs at hstep with haccepted hfree
    · cases hstep
      exact h.setCallback hcall
    · cases hstep
      exact h.advance hcall (hsame _) rfl (fun _ => rfl) (by simp) (by simp)
  | calling =>
    have hset := h.resolved _ hcall (.inl rfl)
    simp only [State.stepCall] at hstep
    split_ifs at hstep with hdone
    cases hstep
    refine h.advance hcall (hsame _) rfl (fun hstage => ?_) (by simp) fun _ hunset => ?_
    · cases hstage
    · simp [hset] at hunset
  | created | refused =>
    cases hstep
    exact h.advance hcall (htouched _ _) rfl (fun _ => rfl) (by simp) (by simp)
  | dropped =>
    simp only [State.stepCall] at hstep
    split_ifs at hstep with hset
    · cases hstep
      refine h.advance hcall (hsame _) rfl (fun _ => rfl) (by simp) fun _ hunset => ?_
      simp [hset] at hunset
    · cases hstep
      exact h.leave rfl rfl rfl rfl
  | recheck =>
    cases hstep
    by_cases hset : s.isSet = true
    · refine h.advance hcall (hsame _) rfl ?_ (fun _ => hset) ?_
      · simp [hset, CallStage.unregistered]
      · simp [hset]
    · refine h.advance hcall (hsame _) rfl ?_ ?_ ?_
      · simp [hset, CallStage.unregistered]
      · simp [hset]
      · simp [hset]
  | poking =>
    cases hstep
    exact h.advance hcall (htouched _ _) rfl (by simp [CallStage.unregistered]) (by simp) (by simp)
  | storing =>
    cases hstep
    exact h.leave rfl rfl rfl rfl

theorem Control.step (h : Control s) (hcounted : Counted s) (hstep : Notify.step s e = some s') :
    Control s' := by
  obtain ⟨hfew, hslot, hhandles, hunregistered, hresolved, hpending, hcallback⟩ := h
  cases e with
  | ensure pipe =>
    simp only [Notify.step] at hstep
    split_ifs at hstep with hidle
    cases hstep
    have hnew := hcounted.later s.created (le_refl _)
    unfold State.callEnsure
    split_ifs with hstored hfuture hpipe
    · exact ⟨hfew, hslot, hhandles, hunregistered, hresolved, hpending, hcallback⟩
    · have hempty : s.slot = none := by simpa using hstored
      constructor <;> grind
    · exact ⟨hfew, hslot, hhandles, hunregistered, hresolved, hpending, hcallback⟩
    · exact ⟨hfew, hslot, hhandles, hunregistered, hresolved, hpending, hcallback⟩
  | main accepted =>
    obtain ⟨c, hcall, hnext⟩ := Option.bind_eq_some_iff.mp hstep
    exact Control.stepCall
      ⟨hfew, hslot, hhandles, hunregistered, hresolved, hpending, hcallback⟩ hcall hnext
  | resolve =>
    simp only [Notify.step] at hstep
    split_ifs at hstep
    cases hstep
    unfold State.resolve
    cases hc : s.callback with
    | none => constructor <;> grind
    | some c => constructor <;> grind
  | callback =>
    obtain ⟨⟨n, stage⟩, hc, hnext⟩ := Option.bind_eq_some_iff.mp hstep
    cases stage with
    | firing =>
      cases hnext
      constructor <;> grind
    | poked =>
      cases hnext
      constructor <;> grind
    | waiting => cases hnext
    | done => cases hnext
  | release =>
    simp only [Notify.step] at hstep
    split_ifs at hstep with hidle
    cases hstep
    unfold State.release
    cases hs : s.slot with
    | none => constructor <;> grind
    | some n => constructor <;> grind
  | newHandle =>
    simp only [Notify.step] at hstep
    split_ifs at hstep with hroom
    obtain ⟨n, hs, rfl⟩ := Option.map_eq_some_iff.mp hstep
    unfold State.instantiate
    constructor <;> grind
  | dropHandle n =>
    simp only [Notify.step] at hstep
    split_ifs at hstep with hmem
    cases hstep
    have hle : (s.handles.erase n).length ≤ s.handles.length := List.erase_sublist.length_le
    have hcount : ∀ m, (s.handles.erase n).count m ≤ s.handles.count m := fun m =>
      List.erase_sublist.count_le m
    unfold State.cleanup
    constructor <;> grind

theorem registering_iff {stage : CallStage} {m : Nat} (hcall : s.call = some ⟨n, stage⟩) :
    s.Registering m ↔ n = m ∧ stage ≠ .storing := by
  simp only [State.Registering, hcall, Option.some.injEq, Call.mk.injEq]
  constructor
  · rintro ⟨stage', ⟨rfl, rfl⟩, hstage⟩
    exact ⟨rfl, hstage⟩
  · rintro ⟨rfl, hstage⟩
    exact ⟨stage, ⟨rfl, rfl⟩, hstage⟩

theorem not_registering (hcall : s.call = none) : ¬ s.Registering n := by
  rintro ⟨stage, hsome, -⟩
  cases hcall.symm.trans hsome

theorem readable_touch {f : Notifier → Notifier} (hf : ∀ c, (f c).readable = c.readable) (m : Nat) :
    ((s.touch n f).notifier m).readable = (s.notifier m).readable := by
  by_cases hm : m = n
  · subst hm
    simp [State.touch, hf]
  · simp [State.touch, Function.update_of_ne hm]

theorem Signalled.frame (h : Signalled s) (hset : s'.isSet = s.isSet)
    (hreadable : ∀ n, (s'.notifier n).readable = (s.notifier n).readable)
    (hrun : ∀ n, s.AboutToRun n → s'.AboutToRun n)
    (hholders : ∀ n, s'.holders n ≠ 0 → ¬ s'.Registering n → s.holders n ≠ 0 ∧ ¬ s.Registering n) :
    Signalled s' where
  readable := by
    intro n hn
    rw [hset]
    exact h.readable n (hreadable n ▸ hn)
  signal := by
    intro n hn hnot
    obtain ⟨hheld, hpassed⟩ := hholders n hn hnot
    rw [hreadable n]
    exact (h.signal n hheld hpassed).imp id (hrun n)

theorem Signalled.poke (h : Signalled s) (hset : s'.isSet = s.isSet) (hresolved : s.isSet = true)
    (hnotifier : s'.notifier = (s.touch n Notifier.poke).notifier)
    (hrun : ∀ m, m ≠ n → s.AboutToRun m → s'.AboutToRun m)
    (hholders : ∀ m, m ≠ n → s'.holders m ≠ 0 → ¬ s'.Registering m →
      s.holders m ≠ 0 ∧ ¬ s.Registering m) :
    Signalled s' where
  readable := fun m _ => hset.trans hresolved
  signal := by
    intro m hm hnot
    rw [hnotifier]
    by_cases hmn : m = n
    · subst hmn
      exact .inl (by simp [State.touch, Notifier.poke])
    · obtain ⟨hheld, hpassed⟩ := hholders m hmn hm hnot
      simp only [State.touch, Function.update_of_ne hmn]
      exact (h.signal m hheld hpassed).imp id (hrun m hmn)

theorem Signalled.stepCall {accepted : Bool} {c : Call} (h : Signalled s) (hcontrol : Control s)
    (hcall : s.call = some c) (hstep : s.stepCall accepted c = some s') : Signalled s' := by
  obtain ⟨n, stage⟩ := c
  have hregistering : ∀ m, s.Registering m ↔ n = m ∧ stage ≠ .storing := fun m =>
    registering_iff hcall
  have hslot := hcontrol.slot_eq (by simp [hcall])
  have hhandles := hcontrol.handles_eq _ hcall
  cases stage with
  | created =>
    cases hstep
    refine h.frame rfl (readable_touch Notifier.readable_addref) (fun _ hrun => hrun)
      fun m hm hnot => ?_
    rw [registering_iff rfl] at hnot
    grind
  | added =>
    simp only [State.stepCall] at hstep
    split_ifs at hstep with haccepted hfree
    · cases hstep
      -- the callback is the first one
      have hnone : s.callback = none := by simpa using hfree
      have hrun : ∀ m, ¬ s.AboutToRun m := by
        rintro m (hrun | hrun)
        · cases hnone.symm.trans hrun
        · cases hnone.symm.trans hrun
      unfold State.setCallback
      split_ifs with hset
      · refine h.frame rfl (fun _ => rfl) (fun m hm => absurd hm (hrun m)) fun m hm hnot => ?_
        rw [registering_iff rfl] at hnot
        grind
      · refine h.frame rfl (fun _ => rfl) (fun m hm => absurd hm (hrun m)) fun m hm hnot => ?_
        rw [registering_iff rfl] at hnot
        grind
    · cases hstep
      refine h.frame rfl (fun _ => rfl) (fun _ hrun => hrun) fun m hm hnot => ?_
      rw [registering_iff rfl] at hnot
      grind
  | calling =>
    simp only [State.stepCall] at hstep
    split_ifs at hstep
    cases hstep
    refine h.frame rfl (fun _ => rfl) (fun _ hrun => hrun) fun m hm hnot => ?_
    rw [registering_iff rfl] at hnot
    grind
  | refused =>
    cases hstep
    have hreadable := readable_touch (s := s) (n := n) Notifier.readable_unrefExtra
    refine h.frame rfl hreadable (fun _ hrun => hrun) fun m hm hnot => ?_
    rw [registering_iff rfl] at hnot
    grind
  | dropped =>
    have hunregistered := hcontrol.unregistered _ hcall rfl
    simp only [State.stepCall] at hstep
    split_ifs at hstep
    · cases hstep
      refine h.frame rfl (fun _ => rfl) (fun _ hrun => hrun) fun m hm hnot => ?_
      rw [registering_iff rfl] at hnot
      grind
    · -- nobody holds the notifier any more
      cases hstep
      have hreadable := readable_touch (s := s.raise State.callbackRefused) (n := n)
        Notifier.readable_unref
      refine h.frame rfl hreadable (fun _ hrun => hrun) fun m hm hnot => ?_
      grind [State.raise]
  | recheck =>
    cases hstep
    cases hset : s.isSet with
    | true =>
      refine h.frame hset.symm (fun _ => rfl) (fun _ hrun => hrun) fun m hm hnot => ?_
      rw [registering_iff rfl] at hnot
      grind
    | false =>
      have hpending := hcontrol.pending _ hcall rfl hset
      refine ⟨fun m hm => absurd (h.readable m hm) (by simp [hset]), fun m hm hnot => ?_⟩
      by_cases hmn : m = n
      · subst hmn
        exact .inr (.inl hpending)
      · refine h.signal m ?_ ?_
        · grind
        · grind
  | poking =>
    cases hstep
    refine h.poke rfl (hcontrol.resolved _ hcall (.inr rfl)) rfl (fun _ _ hrun => hrun)
      fun m hm hheld hnot => ?_
    grind
  | storing =>
    cases hstep
    refine h.frame rfl (fun _ => rfl) (fun _ hrun => hrun) fun m hm hnot => ?_
    grind

theorem Signalled.step (h : Signalled s) (hcontrol : Control s)
    (hstep : Notify.step s e = some s') : Signalled s' := by
  cases e with
  | ensure pipe =>
    simp only [Notify.step] at hstep
    split_ifs at hstep with hidle
    cases hstep
    unfold State.callEnsure
    split_ifs with hstored hfuture hpipe
    · exact h
    · refine ⟨fun m hm => ?_, fun m hm hnot => ?_⟩
      · by_cases hnew : m = s.created
        · subst hnew
          simp at hm
        · have hold : (Function.update s.notifier s.created {} m).readable = true := hm
          rw [Function.update_of_ne hnew] at hold
          exact h.readable m hold
      · rw [registering_iff rfl] at hnot
        have hnew : m ≠ s.created := fun heq => hnot ⟨heq.symm, by simp⟩
        simp only [Function.update_of_ne hnew]
        exact h.signal m (by grind) (not_registering hidle.2)
    · exact ⟨h.readable, h.signal⟩
    · exact ⟨h.readable, h.signal⟩
  | main accepted =>
    obtain ⟨c, hcall, hnext⟩ := Option.bind_eq_some_iff.mp hstep
    exact h.stepCall hcontrol hcall hnext
  | resolve =>
    simp only [Notify.step] at hstep
    split_ifs at hstep with hset
    cases hstep
    refine ⟨fun _ _ => rfl, fun m hm hnot => ?_⟩
    rw [holders_resolve] at hm
    rcases h.signal m hm hnot with hreadable | hrun | hrun
    · exact .inl hreadable
    · exact .inr (.inr (by simp [State.resolve, hrun]))
    · exact .inr (.inr (by simp [State.resolve, hrun]))
  | callback =>
    obtain ⟨⟨n, stage⟩, hc, hnext⟩ := Option.bind_eq_some_iff.mp hstep
    cases stage with
    | firing =>
      cases hnext
      have hset := hcontrol.callback _ hc (by simp)
      refine h.poke rfl hset rfl (fun m hm hrun => ?_) fun m hm hheld hnot => ?_
      · rcases hrun with hrun | hrun
        · cases hc.symm.trans hrun
        · cases hc.symm.trans hrun
          exact absurd rfl hm
      · exact ⟨by grind, hnot⟩
    | poked =>
      cases hnext
      refine h.frame rfl (readable_touch Notifier.readable_unref) (fun m hrun => ?_)
        fun m hm hnot => ?_
      · rcases hrun with hrun | hrun
        · cases hc.symm.trans hrun
        · cases hc.symm.trans hrun
      · exact ⟨by grind, hnot⟩
    | waiting => cases hnext
    | done => cases hnext
  | release =>
    simp only [Notify.step] at hstep
    split_ifs at hstep with hidle
    cases hstep
    unfold State.release
    cases hs : s.slot with
    | none =>
      refine h.frame rfl (fun _ => rfl) (fun _ hrun => hrun) fun m hm hnot => ?_
      exact ⟨by grind, hnot⟩
    | some n =>
      refine h.frame rfl (readable_touch Notifier.readable_unref) (fun _ hrun => hrun)
        fun m hm hnot => ?_
      exact ⟨by grind, hnot⟩
  | newHandle =>
    simp only [Notify.step] at hstep
    split_ifs at hstep
    obtain ⟨n, hs, rfl⟩ := Option.map_eq_some_iff.mp hstep
    refine h.frame rfl (readable_touch Notifier.readable_addref) (fun _ hrun => hrun)
      fun m hm hnot => ?_
    exact ⟨by grind [State.instantiate], hnot⟩
  | dropHandle n =>
    simp only [Notify.step] at hstep
    split_ifs at hstep with hmem
    cases hstep
    have hcount : ∀ m, (s.handles.erase n).count m ≤ s.handles.count m := fun m =>
      List.erase_sublist.count_le m
    refine h.frame rfl (readable_touch Notifier.readable_unref) (fun _ hrun => hrun)
      fun m hm hnot => ?_
    exact ⟨by grind [State.cleanup], hnot⟩

structure Sound (s : State) : Prop where
  counted : Counted s
  control : Control s
  signalled : Signalled s

theorem sound_initial (hasFuture isSet : Bool) : Sound (initial hasFuture isSet) where
  counted := ⟨fun _ hn => absurd hn (Nat.not_lt_zero _), fun _ _ => rfl, rfl⟩
  control := by
    constructor <;> simp [initial]
  signalled := ⟨by simp [initial], fun _ hn => absurd rfl hn⟩

theorem Sound.step (h : Sound s) (hstep : Notify.step s e = some s') : Sound s' where
  counted := h.counted.change h.control.few (step_change h.control.slot_eq hstep)
  control := h.control.step h.counted hstep
  signalled := h.signalled.step h.control hstep

end

/--
The notifier of a future in every interleaving.

Once the call is through with a notifier, its descriptor is readable if the future
is resolved and the callback has run or will not run; it is not readable before
the future is resolved. The reference count is the number of holders; the notifier
is freed when there is none and only then, once, and nobody uses it afterwards.
-/
theorem notifier_signals_and_counts
    {hasFuture isSet : Bool}
    {s : State}
    (hreach : Reachable step (fun _ _ => True) (initial hasFuture isSet) s) :
    (∀ n, s.holders n ≠ 0 → ¬ s.Registering n → s.isSet = true → ¬ s.AboutToRun n →
      (s.notifier n).readable = true) ∧
    (∀ n, (s.notifier n).readable = true → s.isSet = true) ∧
    (∀ n < s.created, (s.notifier n).refs.count = s.holders n ∧
      (s.notifier n).refs.frees = if s.holders n = 0 then 1 else 0) ∧
    s.misused = false := by
  have hsound : Sound s :=
    hreach.invariant (sound_initial hasFuture isSet) fun _ _ _ h _ hstep => h.step hstep
  refine ⟨?_, hsound.signalled.readable, ?_, hsound.counted.misused⟩
  · intro n hheld hpassed _ hran
    exact (hsound.signalled.signal n hheld hpassed).resolve_right hran
  · intro n hn
    exact ⟨(hsound.counted.counts n hn).count_eq, (hsound.counted.counts n hn).frees_eq⟩

/-- The object is released while the future is pending; the callback signals the
handle that is left. -/
theorem notifier_signals_and_counts_released :
    ∃ s, exec step (fun _ _ => True) (initial true false)
        [.ensure true, .main true, .main true, .main true, .main true, .newHandle, .release,
          .resolve, .callback, .callback] = some s ∧
      s.holders 0 = 1 ∧ (s.notifier 0).readable = true ∧ (s.notifier 0).refs.count = 1 ∧
      (s.notifier 0).refs.frees = 0 := by
  refine ⟨_, rfl, by decide, ?_⟩
  obtain ⟨hsignal, -, hcounts, -⟩ := notifier_signals_and_counts (Reachable.of_exec
    (rfl : exec step (fun _ _ => True) (initial true false)
        [.ensure true, .main true, .main true, .main true, .main true, .newHandle, .release,
          .resolve, .callback, .callback] = some _))
  refine ⟨hsignal 0 (by decide) ?_ rfl ?_, (hcounts 0 (by decide)).1, (hcounts 0 (by decide)).2⟩
  · exact not_registering rfl
  · rintro (hrun | hrun)
    · cases hrun
    · cases hrun

end Notify
end Async
end ScyllaDriver
