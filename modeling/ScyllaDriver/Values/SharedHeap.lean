import ScyllaDriver.Library.CachedFold
import ScyllaDriver.Library.Transition
import ScyllaDriver.Values.FieldObjects

/-!
# The cached hashes of containers that share their members

A container holds its members by reference, so a container that is a member of
others can still be changed by whoever made it. Each container has a dirty flag
and a cached hash. A change sets the flag of the container that is changed, and
of no other one; a hash computation takes the cached hash of every container
whose flag is clear.

The objects of a program are a list here, and a reference is a position in it.
That a container is accepted only where its type fits makes the references
acyclic. A search in a Set or Map hashes its argument and compares it with
members; where that computes hashes it is an event of its own, and what the
search finds is a parameter of the call.
-/

namespace ScyllaDriver
namespace Values

open CString CachedFold

mutual
/-- How deep the values of a type are nested. -/
def CqlType.nesting : CqlType → Nat
  | .scalar _ => 0
  | .custom _ => 0
  | .list value => value.nesting + 1
  | .map key value => max key.nesting value.nesting + 1
  | .set value => value.nesting + 1
  | .udt _ _ types => fieldsNesting types + 1
  | .tuple types => typesNesting types + 1

def typesNesting : List CqlType → Nat
  | [] => 0
  | type :: types => max type.nesting (typesNesting types)

def fieldsNesting : List (Bytes × CqlType) → Nat
  | [] => 0
  | (_, type) :: types => max type.nesting (fieldsNesting types)

end

mutual
theorem nesting_eq_of_typeCompare_eq : ∀ type₁ type₂ : CqlType,
    typeCompare type₁ type₂ = .eq → type₁.nesting = type₂.nesting
  | .list value₁, type₂, h => by
    cases type₂ with
    | list value₂ =>
      rw [CqlType.nesting, CqlType.nesting, nesting_eq_of_typeCompare_eq value₁ value₂ h]
    | _ => cases containerClass_eq_of_typeCompare_eq h
  | .set value₁, type₂, h => by
    cases type₂ with
    | set value₂ =>
      rw [CqlType.nesting, CqlType.nesting, nesting_eq_of_typeCompare_eq value₁ value₂ h]
    | _ => cases containerClass_eq_of_typeCompare_eq h
  | .map key₁ value₁, type₂, h => by
    cases type₂ with
    | map key₂ value₂ =>
      rw [typeCompare, Ordering.then_eq_eq] at h
      rw [CqlType.nesting, CqlType.nesting, nesting_eq_of_typeCompare_eq key₁ key₂ h.1,
        nesting_eq_of_typeCompare_eq value₁ value₂ h.2]
    | _ => cases containerClass_eq_of_typeCompare_eq h
  | .tuple types₁, type₂, h => by
    cases type₂ with
    | tuple types₂ =>
      rw [typeCompare, Ordering.then_eq_eq, Std.LawfulEqOrd.compare_eq_iff_eq] at h
      rw [CqlType.nesting, CqlType.nesting, typesNesting_eq types₁ types₂ h.1 h.2]
    | _ => cases containerClass_eq_of_typeCompare_eq h
  | .udt _ _ types₁, type₂, h => by
    cases type₂ with
    | udt _ _ types₂ =>
      rw [typeCompare, Ordering.then_eq_eq, Ordering.then_eq_eq, Ordering.then_eq_eq,
        Std.LawfulEqOrd.compare_eq_iff_eq] at h
      rw [CqlType.nesting, CqlType.nesting, fieldsNesting_eq types₁ types₂ h.2.2.1 h.2.2.2]
    | _ => cases containerClass_eq_of_typeCompare_eq h
  | .scalar _, type₂, h => by
    cases type₂ with
    | scalar _ => rfl
    | custom _ => rfl
    | _ => cases containerClass_eq_of_typeCompare_eq h
  | .custom _, type₂, h => by
    cases type₂ with
    | scalar _ => rfl
    | custom _ => rfl
    | _ => cases containerClass_eq_of_typeCompare_eq h

theorem typesNesting_eq : ∀ types₁ types₂ : List CqlType,
    types₁.length = types₂.length → typesCompare types₁ types₂ = .eq →
      typesNesting types₁ = typesNesting types₂
  | [], [], _, _ => rfl
  | type₁ :: types₁, type₂ :: types₂, hlength, h => by
    rw [typesCompare, Ordering.then_eq_eq] at h
    rw [typesNesting, typesNesting, nesting_eq_of_typeCompare_eq type₁ type₂ h.1,
      typesNesting_eq types₁ types₂ (Nat.succ.inj hlength) h.2]

theorem fieldsNesting_eq : ∀ types₁ types₂ : List (Bytes × CqlType),
    types₁.length = types₂.length → fieldsCompare types₁ types₂ = .eq →
      fieldsNesting types₁ = fieldsNesting types₂
  | [], [], _, _ => rfl
  | (_, type₁) :: types₁, (_, type₂) :: types₂, hlength, h => by
    rw [fieldsCompare, Ordering.then_eq_eq, Ordering.then_eq_eq] at h
    rw [fieldsNesting, fieldsNesting, nesting_eq_of_typeCompare_eq type₁ type₂ h.2.1,
      fieldsNesting_eq types₁ types₂ (Nat.succ.inj hlength) h.2.2]

end

namespace Sharing

/-- What is held in a container: a value, or a reference to a container. -/
inductive Member where
  | atom (a : Atom)
  | object (n : Nat)
  deriving DecidableEq

def Member.leafOrNode : Member → Atom ⊕ Nat
  | .atom a => .inl a
  | .object n => .inr n

inductive Container where
  | collection (valueType : CqlType) (values : List (Nat × Member)) (nextFree : Nat)
  | set (valueType : CqlType) (entries : List Member)
  | map (keyType valueType : CqlType) (entries : List (Member × Member))
  | tuple (types : List CqlType) (values : OrderedTable Nat Member)
  | userTypeValue (keyspace typeName : Option Bytes) (types : OrderedTable Bytes CqlType)
      (values : OrderedTable Bytes Member)

structure Object where
  container : Container
  dirty : Bool
  hashv : UInt32

/-- The calls that can change a container. `found` is the position of the entry
that the search has found. -/
inductive Use where
  | collectionAdd (first : Member) (rest : List Member)
  | collectionRemove (index : Nat)
  | setAdd (object : Member) (found : Option Nat)
  | setRemove (object : Member) (found : Option Nat)
  | mapSet (key value : Member) (found : Option Nat)
  | mapRemove (key : Member) (found : Option Nat)
  | tupleSet (index : Int) (object : Member)
  | userTypeValueSet (name : Bytes) (object : Member)

namespace Container

def type : Container → CqlType
  | .collection valueType _ _ => .list valueType
  | .set valueType _ => .set valueType
  | .map keyType valueType _ => .map keyType valueType
  | .tuple types _ => .tuple types
  | .userTypeValue keyspace typeName types _ => .udt keyspace typeName types.entries

/-- The members in the order in which the `hash_value` handler of the class
combines them. -/
def members : Container → List Member
  | .collection _ values _ => values.map Prod.snd
  | .set _ entries => entries
  | .map _ _ entries => entries.flatMap fun entry => [entry.1, entry.2]
  | .tuple _ values => values.values
  | .userTypeValue _ _ _ values => values.values

def blank : Container → Container
  | .collection valueType _ _ => .collection valueType [] 0
  | .set valueType _ => .set valueType []
  | .map keyType valueType _ => .map keyType valueType []
  | .tuple types _ => .tuple types .empty
  | .userTypeValue keyspace typeName types _ => .userTypeValue keyspace typeName types .empty

/-- As much of a container as `php_scylladb_validate_object` reads: its class and
its type. -/
def shell (self : Container) : Value :=
  match self with
  | .collection _ _ _ => .collection self.type [] none
  | .set _ _ => .set self.type 32 [] [] none
  | .map _ _ _ => .map self.type 32 [] [] [] none
  | .tuple _ _ => .tuple self.type [] [] none
  | .userTypeValue _ _ _ _ => .userTypeValue self.type [] [] none

end Container

/-- The argument of a call as the checks see it. -/
def argument (objects : List Object) : Member → Option Value
  | .atom a => some (.atom a)
  | .object n => (objects[n]?).map fun object => object.container.shell

/-- A place for values of a type takes the argument. -/
def Takes (objects : List Object) (type : CqlType) (m : Member) : Prop :=
  ∃ value, argument objects m = some value ∧ validateObject value type = .ok ()

instance (objects : List Object) (type : CqlType) (m : Member) : Decidable (Takes objects type m) :=
  match h : argument objects m with
  | none => isFalse fun ⟨_, hsome, _⟩ => nomatch h.symm.trans hsome
  | some value =>
    if hok : validateObject value type = .ok () then isTrue ⟨value, h, hok⟩
    else isFalse fun ⟨_, hsome, hok'⟩ => hok (Option.some.inj (h.symm.trans hsome) ▸ hok')

/-- The same for a container that refuses null. -/
abbrev TakesValue (objects : List Object) (type : CqlType) (m : Member) : Prop :=
  m ≠ .atom .null ∧ Takes objects type m

/-- Members under the next free indexes. -/
def indexed (nextFree : Nat) : List Member → List (Nat × Member)
  | [] => []
  | m :: ms => (nextFree, m) :: indexed (nextFree + 1) ms

/-- What a call makes of a container; `none` if it returns before it sets the
dirty flag. -/
def Container.used (objects : List Object) : Container → Use → Option Container
  | .collection valueType values nextFree, .collectionAdd first rest =>
    if ∀ m ∈ first :: rest, TakesValue objects valueType m then
      some (.collection valueType (values ++ indexed nextFree (first :: rest))
        (nextFree + (first :: rest).length))
    else none
  | .collection valueType values nextFree, .collectionRemove index =>
    if index ∈ values.map Prod.fst then
      some (.collection valueType (values.filter fun entry => entry.1 ≠ index) nextFree)
    else none
  | .set valueType entries, .setAdd object found =>
    if TakesValue objects valueType object ∧ found = none then
      some (.set valueType (entries ++ [object]))
    else none
  | .set valueType entries, .setRemove object (some i) =>
    if Takes objects valueType object then some (.set valueType (entries.eraseIdx i)) else none
  | .map keyType valueType entries, .mapSet key value found =>
    if TakesValue objects keyType key ∧ TakesValue objects valueType value then
      match found with
      | none => some (.map keyType valueType (entries ++ [(key, value)]))
      | some i =>
        some (.map keyType valueType (entries.modify i fun entry => (entry.1, value)))
    else none
  | .map keyType valueType entries, .mapRemove key (some i) =>
    if Takes objects keyType key then some (.map keyType valueType (entries.eraseIdx i))
    else none
  | .tuple types values, .tupleSet index object =>
    if 0 ≤ index ∧ ∃ type ∈ types[index.toNat]?, Takes objects type object then
      some (.tuple types (values.update index.toNat object))
    else none
  | .userTypeValue keyspace typeName types values, .userTypeValueSet name object =>
    if ∃ type ∈ types.find name, Takes objects type object then
      some (.userTypeValue keyspace typeName types (values.update name object))
    else none
  | _, _ => none

def typesOf (objects : List Object) : List CqlType :=
  objects.map fun object => object.container.type

/-- A member that is a container is one of the objects, and less deep than the bound. -/
def Below (types : List CqlType) (bound : Nat) (m : Member) : Prop :=
  ∀ n, m = .object n → ∃ type, types[n]? = some type ∧ type.nesting < bound

section

variable {objects : List Object} {type : CqlType} {m : Member}

theorem nesting_of_validateObject_shell {container : Container}
    (h : validateObject container.shell type = .ok ()) : container.type.nesting = type.nesting := by
  have hvalidate : ∀ ce, validateContainer container.shell type ce = .ok () →
      container.type.nesting = type.nesting := by
    intro ce hok
    refine nesting_eq_of_typeCompare_eq _ _ ?_
    have htype : container.shell.type? = some container.type := by cases container <;> rfl
    rw [validateContainer, htype] at hok
    split at hok
    · split at hok
      · next heq => exact Option.some.inj heq
      · cases hok
    · cases hok
  cases container <;> cases type <;> first | exact hvalidate _ h | cases h

theorem Takes.below (h : Takes objects type m) {bound : Nat} (hbound : type.nesting < bound) :
    Below (typesOf objects) bound m := by
  obtain ⟨value, hargument, hok⟩ := h
  rintro n rfl
  obtain ⟨object, hobject, rfl⟩ := Option.map_eq_some_iff.mp hargument
  refine ⟨object.container.type, ?_, ?_⟩
  · rw [typesOf, List.getElem?_map, hobject, Option.map_some]
  · rw [nesting_of_validateObject_shell hok]
    exact hbound

theorem nesting_le_typesNesting {types : List CqlType} (hmem : type ∈ types) :
    type.nesting ≤ typesNesting types := by
  induction types with
  | nil => cases hmem
  | cons first types ih =>
    rw [typesNesting]
    rcases List.mem_cons.mp hmem with rfl | hmem
    · exact le_max_left _ _
    · exact le_max_of_le_right (ih hmem)

theorem nesting_le_fieldsNesting {types : List (Bytes × CqlType)} {name : Bytes}
    (hmem : (name, type) ∈ types) : type.nesting ≤ fieldsNesting types := by
  induction types with
  | nil => cases hmem
  | cons field types ih =>
    rw [fieldsNesting]
    rcases List.mem_cons.mp hmem with rfl | hmem
    · exact le_max_left _ _
    · exact le_max_of_le_right (ih hmem)

theorem map_snd_indexed {nextFree : Nat} {ms : List Member} :
    (indexed nextFree ms).map Prod.snd = ms := by
  induction ms generalizing nextFree with
  | nil => rfl
  | cons m ms ih => rw [indexed, List.map_cons, ih]

theorem mem_modify {entries : List (Member × Member)} {i : Nat}
    {f : Member × Member → Member × Member} {entry : Member × Member}
    (h : entry ∈ entries.modify i f) : ∃ old ∈ entries, entry = old ∨ entry = f old := by
  obtain ⟨j, hj⟩ := List.mem_iff_getElem?.mp h
  rw [List.getElem?_modify] at hj
  obtain ⟨old, hold, rfl⟩ := Option.map_eq_some_iff.mp hj
  refine ⟨old, List.mem_of_getElem? hold, ?_⟩
  split
  · exact .inr rfl
  · exact .inl rfl

/-- A call keeps the type of the container; its new members were members before,
or are less deep than the container. -/
theorem Container.used_spec {self next : Container} {use : Use}
    (h : self.used objects use = some next) :
    next.type = self.type ∧ ∀ m ∈ next.members,
      m ∈ self.members ∨ Below (typesOf objects) self.type.nesting m := by
  unfold Container.used at h
  split at h
  · next valueType values nextFree first rest =>
      obtain ⟨htakes, ⟨⟩⟩ := Option.ite_none_right_eq_some.mp h
      refine ⟨rfl, fun m hm => ?_⟩
      rw [Container.members, List.map_append, map_snd_indexed, List.mem_append] at hm
      refine hm.imp_right fun hm => (htakes m hm).2.below ?_
      exact Nat.lt_succ_self _
  · next valueType values nextFree index =>
      obtain ⟨-, ⟨⟩⟩ := Option.ite_none_right_eq_some.mp h
      exact ⟨rfl, fun m hm => .inl ((List.filter_sublist.map Prod.snd).subset hm)⟩
  · next valueType entries object found =>
      obtain ⟨⟨htakes, -⟩, ⟨⟩⟩ := Option.ite_none_right_eq_some.mp h
      refine ⟨rfl, fun m hm => ?_⟩
      refine (List.mem_append.mp hm).imp_right fun hm => ?_
      rw [List.mem_singleton.mp hm]
      exact htakes.2.below (Nat.lt_succ_self _)
  · next valueType entries object i =>
      obtain ⟨-, ⟨⟩⟩ := Option.ite_none_right_eq_some.mp h
      exact ⟨rfl, fun m hm => .inl ((List.eraseIdx_sublist _ _).subset hm)⟩
  · next keyType valueType entries key value found =>
      obtain ⟨⟨hkey, hvalue⟩, hnext⟩ := Option.ite_none_right_eq_some.mp h
      have hkey := hkey.2.below (Nat.lt_succ_of_le (le_max_left _ valueType.nesting))
      have hvalue := hvalue.2.below (Nat.lt_succ_of_le (le_max_right keyType.nesting _))
      cases found with
      | none =>
        cases hnext
        refine ⟨rfl, fun m hm => ?_⟩
        rw [Container.members, List.flatMap_append, List.mem_append] at hm
        refine hm.imp_right fun hm => ?_
        rcases List.mem_pair.mp hm with rfl | rfl
        · exact hkey
        · exact hvalue
      | some i =>
        cases hnext
        refine ⟨rfl, fun m hm => ?_⟩
        obtain ⟨entry, hentry, hm⟩ := List.mem_flatMap.mp hm
        obtain ⟨old, hold, rfl | rfl⟩ := mem_modify hentry
        · exact .inl (List.mem_flatMap.mpr ⟨entry, hold, hm⟩)
        · rcases List.mem_pair.mp hm with rfl | rfl
          · exact .inl (List.mem_flatMap.mpr ⟨old, hold, List.mem_cons_self⟩)
          · exact .inr hvalue
  · next keyType valueType entries key i =>
      obtain ⟨-, ⟨⟩⟩ := Option.ite_none_right_eq_some.mp h
      refine ⟨rfl, fun m hm => .inl ?_⟩
      obtain ⟨entry, hentry, hm⟩ := List.mem_flatMap.mp hm
      exact List.mem_flatMap.mpr ⟨entry, (List.eraseIdx_sublist _ _).subset hentry, hm⟩
  · next types values index object =>
      obtain ⟨⟨-, type, htype, htakes⟩, ⟨⟩⟩ := Option.ite_none_right_eq_some.mp h
      refine ⟨rfl, fun m hm => ?_⟩
      rcases OrderedTable.mem_values_update hm with rfl | hm
      · refine .inr (htakes.below (Nat.lt_succ_of_le ?_))
        exact nesting_le_typesNesting (List.mem_of_getElem? htype)
      · exact .inl hm
  · next keyspace typeName types values name object =>
      obtain ⟨⟨type, htype, htakes⟩, ⟨⟩⟩ := Option.ite_none_right_eq_some.mp h
      refine ⟨rfl, fun m hm => ?_⟩
      rcases OrderedTable.mem_values_update hm with rfl | hm
      · refine .inr (htakes.below (Nat.lt_succ_of_le ?_))
        exact nesting_le_fieldsNesting (OrderedTable.mem_of_lookup htype)
      · exact .inl hm
  · cases h

end

/-- Containers, each with members that are less deep. -/
structure Heap where
  objects : List Object
  nested : ∀ object ∈ objects, ∀ m ∈ object.container.members,
    Below (typesOf objects) object.container.type.nesting m

/-- What a program does with its containers: it makes them, calls them, and
computes their hashes. -/
inductive Event where
  | create (container : Container)
  | mutate (n : Nat) (use : Use)
  | hash (n : Nat)

theorem Below.append {types : List CqlType} {bound : Nat} {m : Member} (h : Below types bound m)
    (type : CqlType) : Below (types ++ [type]) bound m := by
  intro n hn
  obtain ⟨own, hown, hlower⟩ := h n hn
  refine ⟨own, ?_, hlower⟩
  rw [List.getElem?_append_left (List.getElem?_eq_some_iff.mp hown).1, hown]

theorem Container.members_blank (container : Container) : container.blank.members = [] := by
  cases container <;> rfl

namespace Heap

def empty : Heap where
  objects := []
  nested := fun _ hmem => (List.not_mem_nil hmem).elim

def create (h : Heap) (container : Container) : Heap where
  objects := h.objects ++ [⟨container.blank, true, 0⟩]
  nested := by
    intro object hobject m hm
    rw [typesOf, List.map_append]
    rcases List.mem_append.mp hobject with hobject | hobject
    · exact (h.nested object hobject m hm).append _
    · rw [List.mem_singleton.mp hobject, Container.members_blank] at hm
      exact (List.not_mem_nil hm).elim

/-- The new contents of a container after a call that sets its dirty flag. -/
def changed (h : Heap) (n : Nat) (use : Use) : Option Container :=
  (h.objects[n]?).bind fun object => object.container.used h.objects use

/-- The objects with new contents for one of them. -/
def withContents (objects : List Object) (n : Nat) (container : Container) : List Object :=
  objects.modify n fun object => { object with container, dirty := true }

theorem typesOf_withContents {objects : List Object} {n : Nat} {container : Container}
    (htype : ∀ object, objects[n]? = some object → container.type = object.container.type) :
    typesOf (withContents objects n container) = typesOf objects := by
  refine List.ext_getElem? fun i => ?_
  rw [typesOf, typesOf, withContents, List.getElem?_map, List.getElem?_map, List.getElem?_modify]
  cases hobject : objects[i]? with
  | none => rfl
  | some object =>
    by_cases hi : n = i
    · subst hi
      simp [htype object hobject]
    · simp [hi]

def mutate (h : Heap) (n : Nat) (use : Use) : Heap :=
  match hchanged : h.changed n use with
  | none => h
  | some container =>
    { objects := withContents h.objects n container
      nested := by
        obtain ⟨self, hself, hused⟩ := Option.bind_eq_some_iff.mp hchanged
        obtain ⟨htype, hmembers⟩ := Container.used_spec hused
        rw [typesOf_withContents fun object hobject => by
          rw [hself] at hobject
          rw [htype, Option.some.inj hobject]]
        intro object hobject m hm
        obtain ⟨i, hi⟩ := List.mem_iff_getElem?.mp hobject
        rw [withContents, List.getElem?_modify] at hi
        obtain ⟨old, hold, rfl⟩ := Option.map_eq_some_iff.mp hi
        by_cases hni : n = i
        · subst hni
          rw [hself] at hold
          cases hold
          simp only [if_true] at hm ⊢
          rw [htype]
          rcases hmembers m hm with hm | hbelow
          · exact h.nested self (List.mem_of_getElem? hself) m hm
          · exact hbelow
        · simp only [if_neg hni] at hm ⊢
          exact h.nested old (List.mem_of_getElem? hold) m hm }

/-- The members of an object, as values and references. -/
def membersOf (objects : List Object) (n : Nat) : List (Atom ⊕ Nat) :=
  ((objects[n]?).map fun object => object.container.members.map Member.leafOrNode).getD []

/-- How deep an object is nested, by its type. -/
def rank (objects : List Object) (n : Nat) : Nat :=
  (((typesOf objects)[n]?).map CqlType.nesting).getD 0

/-- The cached hash of an object whose dirty flag is clear. -/
def cache (objects : List Object) (n : Nat) : Option UInt32 :=
  (objects[n]?).bind fun object => if object.dirty then none else some object.hashv

def withCache (objects : List Object) (cached : Nat → Option UInt32) : List Object :=
  objects.mapIdx fun i object =>
    match cached i with
    | none => object
    | some hashv => { object with dirty := false, hashv }

theorem getElem?_withCache {objects : List Object} {cached : Nat → Option UInt32} {n : Nat}
    {object : Object} (hobject : (withCache objects cached)[n]? = some object) :
    ∃ old, objects[n]? = some old ∧ object.container = old.container ∧
      (object.dirty = false → cached n = some object.hashv ∨
        (cached n = none ∧ old.dirty = false ∧ object.hashv = old.hashv)) := by
  rw [withCache, List.getElem?_mapIdx] at hobject
  obtain ⟨old, hold, rfl⟩ := Option.map_eq_some_iff.mp hobject
  refine ⟨old, hold, ?_⟩
  cases hcached : cached n with
  | none => exact ⟨rfl, fun hclean => .inr ⟨rfl, hclean, rfl⟩⟩
  | some hashv => exact ⟨rfl, fun _ => .inl rfl⟩

theorem map_container_withCache (objects : List Object) (cached : Nat → Option UInt32) :
    (withCache objects cached).map Object.container = objects.map Object.container := by
  refine List.ext_getElem? fun i => ?_
  rw [withCache, List.getElem?_map, List.getElem?_map, List.getElem?_mapIdx]
  cases objects[i]? with
  | none => rfl
  | some object => cases cached i <;> simp

theorem typesOf_withCache (objects : List Object) (cached : Nat → Option UInt32) :
    typesOf (withCache objects cached) = typesOf objects := by
  have hmap : ∀ objects : List Object,
      typesOf objects = (objects.map Object.container).map Container.type := by
    intro objects
    rw [List.map_map]
    rfl
  rw [hmap, map_container_withCache, ← hmap]

section

variable (hashFunc : Bytes → UInt32)

/-- The `hash_value` handlers: a container whose flag is clear gives its cached
hash, another one combines the hashes of its members, caches the result and clears
the flag. -/
def hash (h : Heap) (n : Nat) : Heap where
  objects := withCache h.objects (visit (Atom.hash hashFunc) combineHash 0 (membersOf h.objects)
    (rank h.objects n + 1) n (cache h.objects)).2
  nested := by
    rw [typesOf_withCache]
    intro object hobject m hm
    obtain ⟨i, hi⟩ := List.mem_iff_getElem?.mp hobject
    obtain ⟨old, hold, hsame, -⟩ := getElem?_withCache hi
    rw [hsame] at hm ⊢
    exact h.nested old (List.mem_of_getElem? hold) m hm

def step (h : Heap) : Event → Heap
  | .create container => h.create container
  | .mutate n use => h.mutate n use
  | .hash n => h.hash hashFunc n

/-- The hash of an object from its contents at all depths. -/
def recomputed (objects : List Object) (n : Nat) : UInt32 :=
  total (Atom.hash hashFunc) combineHash 0 (membersOf objects) (rank objects n + 1) n

/-- Every container whose dirty flag is clear has the hash of its contents cached. -/
def CachesRight (h : Heap) : Prop :=
  ∀ n object, h.objects[n]? = some object → object.dirty = false →
    object.hashv = recomputed hashFunc h.objects n

/-- A call gives no other container with a clear flag another hash. -/
def Harmless (h : Heap) : Event → Prop
  | .mutate n use =>
    ∀ container, h.changed n use = some container →
      ∀ d object, h.objects[d]? = some object → d ≠ n → object.dirty = false →
        recomputed hashFunc (withContents h.objects n container) d = recomputed hashFunc h.objects d
  | _ => True

/-- A container is changed only while no other one with a clear flag leads to it. -/
def Unshared (h : Heap) : Event → Prop
  | .mutate n _ =>
    ∀ d object, h.objects[d]? = some object → d ≠ n → object.dirty = false →
      ¬ Reaches (membersOf h.objects) d n
  | _ => True

end

end Heap

end Sharing
end Values
end ScyllaDriver
