import ScyllaDriver.Library.CString
import ScyllaDriver.Library.DependencyOrder
import ScyllaDriver.Library.Loop

/-!
# The registration of classes

Every class of the extension has a descriptor with its name, the names of the classes it
depends on and a function that registers it. `php_scylladb_class_registry_minit` goes over
the list of descriptors again and again and registers every class whose dependencies are
there, until a whole pass adds nothing.

A dependency is looked up by its exact name among the descriptors, and if none has it, in
Zend's table of classes under the name in lower case. That table holds the classes of other
modules, and what the register functions make joins it: the class of the descriptor, and
from `php_scylladb_register_exceptions` 24 more that have no descriptor.
-/

namespace ScyllaDriver
namespace Registry

open CString Loop

/-- What a register function makes: the class it returns, and all classes that it puts into
`CG(class_table)`, under their names in lower case, the last first. -/
structure Made (Ce : Type) where
  ce : Ce
  added : List (Bytes × Ce)
  deriving DecidableEq

/-- `php_scylladb_class_descriptor_t`, but for what the registration writes to it. The field
`adds` is no part of it: it has the names, in lower case, of the classes that `register_`
puts into Zend's table. -/
structure Descriptor (Ce : Type) where
  name : Bytes
  deps : List Bytes
  adds : List Bytes
  register : List Ce → Option (Made Ce)

/-- A call of a register function: the classes it was given and what it made. It is also
what the registration writes to the descriptor, `registered` and `*ce_out`; names tell the
descriptors apart. -/
structure Call (Ce : Type) where
  name : Bytes
  resolved : List Ce
  made : Made Ce
  deriving DecidableEq

/-- `zend_error_noreturn(E_CORE_ERROR, format, name, …)`; one of the texts has a second name. -/
structure CoreError where
  format : String
  name : Bytes
  dep : Option Bytes
  deriving DecidableEq

def maxDepsPerClass : Nat := 8

/-- `zend_str_tolower_copy`. -/
def zendStrTolower (s : Bytes) : Bytes :=
  s.map fun c => if 65 ≤ c.toNat ∧ c.toNat ≤ 90 then c + 32 else c

variable {Ce : Type}

/-- `registry_find`. -/
def registryFind (head : List (Descriptor Ce)) (name : Bytes) : Option (Descriptor Ce) :=
  head.find? fun d => d.name = name

/-- `d->registered`, after these calls. -/
def registered (calls : List (Call Ce)) (name : Bytes) : Bool :=
  calls.any fun call => call.name = name

/-- `*(d->ce_out)`, after these calls. -/
def ceOut (calls : List (Call Ce)) (name : Bytes) : Option Ce :=
  (calls.find? fun call => call.name = name).map fun call => call.made.ce

/-- `CG(class_table)`: the class registered last under the name, or what was there before. -/
def classTable (internal : Bytes → Option Ce) (calls : List (Call Ce)) (lookup : Bytes) :
    Option Ce :=
  match (calls.reverse.flatMap fun call => call.made.added).find? fun c => c.1 = lookup with
  | some c => some c.2
  | none => internal lookup

inductive Resolution (Ce : Type) where
  | deferred
  | unresolved
  | resolved (ce : Ce)

section Minit

variable (internal : Bytes → Option Ce) (head : List (Descriptor Ce))

/-- `resolve_dep`. -/
def resolveDep (calls : List (Call Ce)) (fqn : Bytes) : Resolution Ce :=
  match registryFind head fqn with
  | some p =>
    match ceOut calls p.name with
    | none => .deferred
    | some ce => .resolved ce
  | none =>
    match classTable internal calls (zendStrTolower fqn) with
    | none => .unresolved
    | some ce => .resolved ce

/-- The loop over `d->deps`, from the `i`-th on; none if the class has to wait. -/
def resolveDeps (calls : List (Call Ce)) (d : Descriptor Ce) :
    Nat → List Bytes → Except CoreError (Option (List Ce))
  | _, [] => .ok (some [])
  | i, fqn :: rest =>
    if i ≥ maxDepsPerClass then
      .error ⟨"scylladb registry: class '%s' has more than %d dependencies — raise " ++
        "MAX_DEPS_PER_CLASS", d.name, none⟩
    else
      match resolveDep internal head calls fqn with
      | .deferred => .ok none
      | .unresolved =>
        .error ⟨"scylladb registry: class '%s' declares dep '%s', which is neither " ++
          "registry-owned nor an internal class. An internal dep has to come " ++
          "from a module whose MINIT runs before this one", d.name, some fqn⟩
      | .resolved ce =>
        match resolveDeps calls d (i + 1) rest with
        | .error e => .error e
        | .ok none => .ok none
        | .ok (some resolved) => .ok (some (ce :: resolved))

/-- The body of the loop over the descriptors. -/
def visit (s : List (Call Ce) × Bool) (d : Descriptor Ce) :
    Except CoreError (List (Call Ce) × Bool) :=
  if registered s.1 d.name then .ok s
  else
    match resolveDeps internal head s.1 d 0 d.deps with
    | .error e => .error e
    | .ok none => .ok s
    | .ok (some resolved) =>
      match d.register resolved with
      | none => .error ⟨"scylladb registry: register_ for '%s' returned nullptr", d.name, none⟩
      | some made => .ok (s.1 ++ [⟨d.name, resolved, made⟩], true)

/-- One pass over the descriptors, with the flag `progress`. -/
def pass (s : List (Call Ce) × Bool) (ds : List (Descriptor Ce)) :
    Except CoreError (List (Call Ce) × Bool) :=
  ds.foldlM (visit internal head) s

/-- The loop after the passes: a class that is not registered. -/
def unregisteredCheck (calls : List (Call Ce)) : Except CoreError (List (Call Ce)) :=
  match head.find? fun d => !registered calls d.name with
  | some d =>
    .error ⟨"scylladb registry: class '%s' could not be registered (cyclic or missing " ++
      "registry-owned dep)", d.name, none⟩
  | none => .ok calls

/-- `while (progress)`. -/
def round (calls : List (Call Ce)) : Round (List (Call Ce)) (Except CoreError (List (Call Ce))) :=
  match pass internal head (calls, false) head with
  | .error e => .stop (.error e)
  | .ok (calls', true) => .next calls'
  | .ok (calls', false) => .stop (unregisteredCheck head calls')

/-- `php_scylladb_class_registry_minit` ends like this, with the calls that it made. -/
def Minit (outcome : Except CoreError (List (Call Ce))) : Prop :=
  Ends (round internal head) [] outcome

end Minit

/-- The names of the classes of a list. -/
def names (ds : List (Descriptor Ce)) : List Bytes :=
  ds.map Descriptor.name

section Purpose

variable (internal : Bytes → Option Ce) (head : List (Descriptor Ce))

/-- One class depends on the other, both having a descriptor. -/
def DependsOn (a b : Bytes) : Prop :=
  ∃ d ∈ head, d.name = a ∧ b ∈ d.deps ∧ b ∈ names head

/-- The dependency has a descriptor or is a class of Zend or of another module. -/
def Known (fqn : Bytes) : Prop :=
  fqn ∈ names head ∨ (internal (zendStrTolower fqn)).isSome

/-- All dependencies are known, and there is no cycle. -/
structure Registrable : Prop where
  known : ∀ d ∈ head, ∀ fqn ∈ d.deps, Known internal head fqn
  acyclic : ∀ a, ¬ Relation.TransGen (DependsOn head) a a

/-- The class that a dependency stands for: the one its descriptor's function made in an
earlier call, or the one known before. -/
def StandsFor (earlier : List (Call Ce)) (fqn : Bytes) (ce : Ce) : Prop :=
  if fqn ∈ names head then ∃ call ∈ earlier, call.name = fqn ∧ call.made.ce = ce
  else internal (zendStrTolower fqn) = some ce

/-- Every function was called once, with the classes of its dependencies. -/
structure AllRegistered (calls : List (Call Ce)) : Prop where
  once : (calls.map Call.name).Perm (names head)
  inOrder : ∀ earlier call later, calls = earlier ++ call :: later →
    ∃ d ∈ head, d.name = call.name ∧ d.register call.resolved = some call.made ∧
      List.Forall₂ (StandsFor internal head earlier) d.deps call.resolved

/-- The class has an unknown dependency, or is on a cycle or depends on one. -/
def Culprit (name : Bytes) : Prop :=
  (∃ d ∈ head, d.name = name ∧ ∃ fqn ∈ d.deps, ¬ Known internal head fqn) ∨
    DependencyOrder.LeadsToCycle (DependsOn head) name

/-- The registration does what it is for. -/
def RegistersRight : Prop :=
  (Registrable internal head →
    ∃ calls, Minit internal head (.ok calls) ∧ AllRegistered internal head calls) ∧
  (¬ Registrable internal head → ∃ e, Minit internal head (.error e) ∧ Culprit internal head e.name)

/-- The register functions make new classes, of the names that are known of them. -/
def MakesClasses : Prop :=
  ∀ d ∈ head, ∀ resolved, ∃ made, d.register resolved = some made ∧
    made.added.map Prod.fst = d.adds ∧ ∀ c ∈ made.added, ∀ key, internal key ≠ some c.2

end Purpose

end Registry
end ScyllaDriver
