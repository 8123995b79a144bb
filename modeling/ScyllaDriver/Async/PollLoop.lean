import ScyllaDriver.Library.OrderedTable
import ScyllaDriver.Library.Transition

/-!
# The event loop `Cassandra\Async\Poll`

A loop over an `Io\Poll\Context`. The table of watched futures is keyed by the object
handles of the context's `Watcher` objects; a handle is unique only among the objects that
live. A tick waits once and goes over the reported watchers twice: callbacks first, then
the futures that the caller reads. Callbacks are user code and may call the loop again, so
ticks nest; a frame is a tick that waits or whose callback runs.

The states of the machine are the points at which the extension waits or user code runs.
What the loop computes between two of them is one step.
-/

namespace ScyllaDriver
namespace Async
namespace Poll

/-- A `Watcher` object: its number in the order of creation, and its object handle. -/
structure Watcher where
  id : Nat
  handle : Nat
  deriving DecidableEq, Repr

/-- `php_scylladb_poll_watch`, with the watcher that `watch` got for it. -/
structure Watch where
  future : Nat
  callback : Bool
  watcher : Watcher
  deriving DecidableEq, Repr

/-- An element of the array that `wait` returns, with `none` for one that is no object. -/
abbrev Item := Option Watcher

/-- How a future leaves the loop: as the argument of its callback, in the array that `tick`
returns, or discarded by `run`. -/
inductive Channel
  | callback
  | slot
  | discard
  deriving DecidableEq, Repr

/-- A future that the loop handed out, and the reported watcher that it was found by. -/
structure HandOut where
  watch : Watch
  reported : Watcher
  channel : Channel
  deriving DecidableEq, Repr

/-- Which method called `poll_tick`. -/
inductive Caller
  | tick
  | run
  deriving DecidableEq, Repr

def Caller.channel : Caller → Channel
  | .tick => .slot
  | .run => .discard

inductive Frame
  /-- `poll_wait`. -/
  | waiting (caller : Caller)
  /-- A callback of pass 1, with the elements behind it and before it in the array. -/
  | callback (caller : Caller) (done rest : List Item)
  deriving DecidableEq, Repr

/-- The array that a frame holds a reference to. -/
def Frame.items : Frame → List Item
  | .waiting _ => []
  | .callback _ done rest => done ++ rest

structure State where
  watched : OrderedTable Nat Watch
  /-- Watcher objects that were not destroyed. -/
  living : List Watcher
  /-- Watchers that are added to the context. -/
  attached : List Watcher
  fresh : Nat
  /-- The ticks that are not over, innermost first. -/
  frames : List Frame
  /-- The numbers of the watchers that `watch` returned. -/
  issued : List Nat
  handedOut : List HandOut

def State.initial : State where
  watched := .empty
  living := []
  attached := []
  fresh := 0
  frames := []
  issued := []
  handedOut := []

namespace State

/-- `pending`. -/
def pending (s : State) : Nat :=
  s.watched.entries.length

def user (s : State) : Bool :=
  match s.frames with
  | .waiting _ :: _ => false
  | _ => true

/-- The numbers of the watches whose futures were handed out. -/
def delivered (s : State) : List Nat :=
  s.handedOut.map (·.watch.watcher.id)

/-- An array of a tick that is not over holds the watcher. -/
def Pinned (s : State) (w : Watcher) : Prop :=
  ∃ frame ∈ s.frames, some w ∈ frame.items

instance (s : State) (w : Watcher) : Decidable (s.Pinned w) :=
  inferInstanceAs (Decidable (∃ frame ∈ s.frames, some w ∈ frame.items))

/-- A new object may get any handle that no living one has. -/
def Free (s : State) (handle : Nat) : Prop :=
  handle ∉ s.living.map Watcher.handle

instance (s : State) (handle : Nat) : Decidable (s.Free handle) :=
  inferInstanceAs (Decidable (handle ∉ s.living.map Watcher.handle))

/-- `Context::add` makes a watcher. -/
def attach (s : State) (handle : Nat) : State :=
  let w : Watcher := ⟨s.fresh, handle⟩
  { s with living := w :: s.living, attached := w :: s.attached, fresh := s.fresh + 1 }

/-- `watch`, after `Context::add` returned a watcher. -/
def watch (s : State) (handle future : Nat) (callback : Bool) : State :=
  { s.attach handle with
    watched := s.watched.update handle ⟨future, callback, ⟨s.fresh, handle⟩⟩
    issued := s.fresh :: s.issued }

def push (s : State) (frame : Frame) : State :=
  { s with frames := frame :: s.frames }

/-- `poll_tick` up to its `wait`, if there is something to wait for. -/
def wait (s : State) (caller : Caller) : State :=
  if s.watched.entries = [] then s else s.push (.waiting caller)

def handOut (s : State) (given : List HandOut) : State :=
  { s with handedOut := s.handedOut ++ given }

/-- `poll_take`, which drops the table entry and calls `remove` on the watcher. -/
def take (s : State) (w : Watcher) : State :=
  { s with watched := s.watched.erase w.handle, attached := s.attached.erase w }

end State

section Tick

-- whether `Watcher::remove` accepts a watcher that is not added
variable (lenient : Bool)

/-- `Watcher::remove` does not throw. -/
def State.removes (s : State) (w : Watcher) : Bool :=
  w ∈ s.attached || lenient

/-- Pass 2: the futures the caller reads itself. Returns what was taken, and whether
the pass came to its end. -/
def secondPass (channel : Channel) (s : State) (taken : List HandOut) :
    List Item → State × List HandOut × Bool
  | [] => (s, taken, true)
  | none :: rest => secondPass channel s taken rest
  | some w :: rest =>
    match s.watched.find w.handle with
    | none => secondPass channel s taken rest
    | some watch =>
      if s.removes lenient w then
        secondPass channel (s.take w) (taken ++ [⟨watch, w, channel⟩]) rest
      else
        (s.take w, taken, false)

/-- The end of `poll_tick`. An array that is left by an exception is lost; `run` goes on
until nothing is watched or a tick throws. -/
def finish (caller : Caller) : State × List HandOut × Bool → State
  | (s, taken, ended) =>
    match caller, ended with
    | .tick, true => s.handOut taken
    | .tick, false => s
    | .run, true => (s.handOut taken).wait .run
    | .run, false => s.handOut taken

/-- Pass 1, up to the next callback, and pass 2 if there is none. -/
def firstPass (caller : Caller) (s : State) (done : List Item) : List Item → State
  | [] => finish caller (secondPass lenient caller.channel s [] done)
  | none :: rest => firstPass caller s (done ++ [none]) rest
  | some w :: rest =>
    match s.watched.find w.handle with
    | none => firstPass caller s (done ++ [some w]) rest
    | some watch =>
      if watch.callback then
        if s.removes lenient w then
          ((s.take w).handOut [⟨watch, w, .callback⟩]).push
            (.callback caller (done ++ [some w]) rest)
        else
          s.take w
      else
        firstPass caller s (done ++ [some w]) rest

end Tick

/-- What `poll_wait` comes back with. -/
inductive Waited
  | failed
  | notArray
  | reported (items : List Item)
  deriving DecidableEq, Repr

inductive Event
  /-- `watch`, with the handle of the new watcher. -/
  | watch (handle future : Nat) (callback : Bool)
  /-- The caller adds a watcher through `context`. -/
  | add (handle : Nat)
  /-- The caller removes a watcher. -/
  | detach (w : Watcher)
  /-- The last reference to a watcher goes. -/
  | destroy (w : Watcher)
  | tick
  | run
  | waited (result : Waited)
  /-- The callback of the innermost tick returns, or throws. -/
  | returns
  | throws
  deriving DecidableEq, Repr

def watchers (items : List Item) : List Watcher :=
  items.filterMap id

/-- A wait reports watchers that are added, each at most once. -/
def State.Reports (s : State) (items : List Item) : Prop :=
  (watchers items).Nodup ∧ ∀ w ∈ watchers items, w ∈ s.attached

instance (s : State) (items : List Item) : Decidable (s.Reports items) :=
  inferInstanceAs (Decidable (_ ∧ _))

def afterWait (lenient : Bool) (caller : Caller) (s : State) : Waited → Option State
  | .failed => some s
  | .notArray => some (finish caller (s, [], true))
  | .reported items => if s.Reports items then some (firstPass lenient caller s [] items) else none

def step (lenient : Bool) (s : State) : Event → Option State
  | .watch handle future callback =>
    if s.user ∧ s.Free handle then some (s.watch handle future callback) else none
  | .add handle => if s.user ∧ s.Free handle then some (s.attach handle) else none
  | .detach w =>
    if s.user ∧ w ∈ s.attached then some { s with attached := s.attached.erase w } else none
  | .destroy w =>
    if w ∉ s.attached ∧ ¬ s.Pinned w then some { s with living := s.living.erase w } else none
  | .tick => if s.user then some (s.wait .tick) else none
  | .run => if s.user then some (s.wait .run) else none
  | .waited result =>
    match s.frames with
    | .waiting caller :: frames => afterWait lenient caller { s with frames := frames } result
    | _ => none
  | .returns =>
    match s.frames with
    | .callback caller done rest :: frames =>
      some (firstPass lenient caller { s with frames := frames } done rest)
    | _ => none
  | .throws =>
    match s.frames with
    -- the exception leaves `run` as well
    | .callback _ _ _ :: frames => some { s with frames := frames }
    | _ => none

end Poll
end Async
end ScyllaDriver
