import ScyllaDriver.Library.LookAhead
import ScyllaDriver.Values.SetAndMap

/-!
# Iterating over Sets and Maps

The iterator of a Set or Map is a part of the object: the entry it stands on and
the entry it will stand on next. A removal moves the second one on when that
entry is removed, and leaves the first one as it is, so an iterator can stand on
an entry that has been freed. A pass does not read that entry to go on, and
visits every entry that is left at its end.
-/

namespace ScyllaDriver
namespace Values

open CString ChainedTable LookAhead

/-- `php_scylladb_set` with all of its iterator. -/
structure IteratedSet extends SetObject where
  iterCurr : Option Nat
  iterIndex : Nat

/-- `php_scylladb_map` with all of its iterator. -/
structure IteratedMap extends MapObject where
  iterCurr : Option Nat

/-- `entries->hh.next`, or null where there are no entries. -/
def secondAddress {ν : Type} (entries : Table Value ν) : Option Nat :=
  entries.items.head?.bind fun entry => nextAddress entries.items entry.address

inductive SetUse where
  | rewind
  | next
  | current
  | key
  | valid
  | add (object : Value)
  | remove (object : Value)

inductive MapUse where
  | rewind
  | next
  | current
  | key
  | valid
  | set (key value : Value)
  | remove (key : Value)

namespace IteratedSet

/-- `php_scylladb_set_new`. -/
def new (valueType : CqlType) : IteratedSet where
  toSetObject := .new valueType
  iterCurr := none
  iterIndex := 0

/-- `Set::rewind`. -/
def rewind (self : IteratedSet) : IteratedSet :=
  { self with
    iterCurr := self.entries.items.head?.map Handle.address
    iterTemp := secondAddress self.entries
    iterIndex := 0 }

/-- `Set::next`. -/
def next (self : IteratedSet) : IteratedSet :=
  { self with
    iterCurr := self.iterTemp
    iterTemp := self.iterTemp.bind (nextAddress self.entries.items)
    iterIndex := self.iterIndex + 1 }

/-- `Set::valid`. -/
def valid (self : IteratedSet) : Bool :=
  self.iterCurr.isSome

/-- `Set::current`; an error if it reads an entry that has been freed. -/
def current (self : IteratedSet) : Except Unit (Option Value) :=
  match self.iterCurr with
  | none => .ok none
  | some address =>
    match self.entries.deref address with
    | none => .error ()
    | some entry => .ok (some entry.key)

/-- `Set::key`. -/
def key (self : IteratedSet) : Nat :=
  self.iterIndex

def after (hashFunc : Bytes → UInt32) (self : IteratedSet) : SetUse → IteratedSet
  | .rewind => self.rewind
  | .next => self.next
  | .current | .key | .valid => self
  | .add object => { self with toSetObject := (self.toSetObject.add hashFunc object).2 }
  | .remove object => { self with toSetObject := (self.toSetObject.del hashFunc object).2 }

end IteratedSet

namespace IteratedMap

/-- `php_scylladb_map_new`. -/
def new (keyType valueType : CqlType) : IteratedMap where
  toMapObject := .new keyType valueType
  iterCurr := none

/-- `Map::rewind`. -/
def rewind (self : IteratedMap) : IteratedMap :=
  { self with
    iterCurr := self.entries.items.head?.map Handle.address
    iterTemp := secondAddress self.entries }

/-- `Map::next`. -/
def next (self : IteratedMap) : IteratedMap :=
  { self with
    iterCurr := self.iterTemp
    iterTemp := self.iterTemp.bind (nextAddress self.entries.items) }

/-- `Map::valid`. -/
def valid (self : IteratedMap) : Bool :=
  self.iterCurr.isSome

/-- `Map::current`; an error if it reads an entry that has been freed. -/
def current (self : IteratedMap) : Except Unit (Option Value) :=
  match self.iterCurr with
  | none => .ok none
  | some address =>
    match self.entries.deref address with
    | none => .error ()
    | some entry => .ok (some entry.value)

/-- `Map::key`; an error if it reads an entry that has been freed. -/
def key (self : IteratedMap) : Except Unit (Option Value) :=
  match self.iterCurr with
  | none => .ok none
  | some address =>
    match self.entries.deref address with
    | none => .error ()
    | some entry => .ok (some entry.key)

def after (hashFunc : Bytes → UInt32) (self : IteratedMap) : MapUse → IteratedMap
  | .rewind => self.rewind
  | .next => self.next
  | .current | .key | .valid => self
  | .set key value => { self with toMapObject := (self.toMapObject.set hashFunc key value).2 }
  | .remove key => { self with toMapObject := (self.toMapObject.del hashFunc key).2 }

end IteratedMap

/-- The entries by their addresses, and the iterator's references. -/
def cursorOf {ν : Type} (entries : Table Value ν) (iterCurr iterTemp : Option Nat) :
    Cursor Nat where
  members := entries.items.map Handle.address
  curr := iterCurr
  temp := iterTemp

def IteratedSet.cursor (self : IteratedSet) : Cursor Nat :=
  cursorOf self.entries self.iterCurr self.iterTemp

def IteratedMap.cursor (self : IteratedMap) : Cursor Nat :=
  cursorOf self.entries self.iterCurr self.iterTemp

/-- A search for an argument that has passed its check. -/
def foundAt {ν : Type} (hashFunc : Bytes → UInt32) (type : CqlType) (entries : Table Value ν)
    (key : Value) : Option Nat :=
  match validateObject key type with
  | .error _ => none
  | .ok () => (entries.find (valueHash hashFunc) (sameValue hashFunc) key).map Handle.address

/-- `add` takes the value and does not find it. -/
abbrev SetObject.Adds (hashFunc : Bytes → UInt32) (self : SetObject) (object : Value) : Prop :=
  object.kind ≠ .null ∧ validateObject object self.valueType = .ok () ∧
    foundAt hashFunc self.valueType self.entries object = none

/-- `set` takes its arguments and does not find the key. -/
abbrev MapObject.Adds (hashFunc : Bytes → UInt32) (self : MapObject) (key value : Value) : Prop :=
  (key.kind ≠ .null ∧ value.kind ≠ .null) ∧
    (validateObject key self.keyType = .ok () ∧ validateObject value self.valueType = .ok ()) ∧
    foundAt hashFunc self.keyType self.entries key = none

def IteratedSet.change (hashFunc : Bytes → UInt32) (self : IteratedSet) :
    SetUse → Option (Change Nat)
  | .rewind => some .rewind
  | .next => some .next
  | .current | .key | .valid => none
  | .add object =>
    if self.toSetObject.Adds hashFunc object then some (.append self.entries.fresh) else none
  | .remove object => (foundAt hashFunc self.valueType self.entries object).map .remove

def IteratedMap.change (hashFunc : Bytes → UInt32) (self : IteratedMap) :
    MapUse → Option (Change Nat)
  | .rewind => some .rewind
  | .next => some .next
  | .current | .key | .valid => none
  | .set key value =>
    if self.toMapObject.Adds hashFunc key value then some (.append self.entries.fresh) else none
  | .remove key => (foundAt hashFunc self.keyType self.entries key).map .remove

section

variable {hashFunc : Bytes → UInt32} {ν : Type} {t : Table Value ν} {type : CqlType}
  {curr temp : Option Nat} {key : Value} {entry : Handle Value ν}

theorem nextAddress_eq_successor (items : List (Handle Value ν)) (address : Nat) :
    nextAddress items address = successor (items.map Handle.address) address := by
  induction items with
  | nil => rfl
  | cons entry items ih =>
    rw [nextAddress, List.map_cons, successor, ih, List.head?_map]

theorem cursorOf_rewind :
    cursorOf t (t.items.head?.map Handle.address) (secondAddress t) =
      (cursorOf t curr temp).change .rewind := by
  rw [Cursor.change, Cursor.rewind, cursorOf, cursorOf, secondAddress]
  cases hitems : t.items with
  | nil => rfl
  | cons entry items => simp [nextAddress, successor]

theorem cursorOf_next :
    cursorOf t temp (temp.bind (nextAddress t.items)) = (cursorOf t curr temp).change .next := by
  have hsuccessor : nextAddress t.items = successor (t.items.map Handle.address) :=
    funext (nextAddress_eq_successor t.items)
  rw [Cursor.change, Cursor.next, cursorOf, cursorOf, hsuccessor]

theorem cursorOf_add (value : ν) :
    cursorOf (t.add (valueHash hashFunc) key value) curr temp =
      (cursorOf t curr temp).change (.append t.fresh) := by
  simp [Cursor.change, Cursor.append, cursorOf]

theorem cursorOf_delete (hmem : entry ∈ t.items) :
    cursorOf (t.delete entry) curr (skipped t temp entry.address) =
      (cursorOf t curr temp).change (.remove entry.address) := by
  have haddresses : (t.items.filter fun e => e.address ≠ entry.address).map Handle.address =
      (t.items.map Handle.address).filter (· ≠ entry.address) := by
    rw [List.filter_map]
    rfl
  rw [Cursor.change, Cursor.remove, cursorOf, cursorOf, items_delete hmem, haddresses, skipped,
    nextAddress_eq_successor]

theorem cursorOf_setValue (address : Nat) (value : ν) :
    cursorOf (t.setValue address value) curr temp = cursorOf t curr temp := by
  have haddress : ∀ entry : Handle Value ν,
      (if entry.address = address then { entry with value } else entry).address =
        entry.address := by
    intro entry
    split <;> rfl
  simp [cursorOf, Table.setValue, Function.comp_def, haddress]

theorem fresh_not_mem (hvalid : Valid (valueHash hashFunc) t) :
    t.fresh ∉ (cursorOf t curr temp).members := by
  intro hmem
  obtain ⟨entry, hentry, haddress⟩ := List.mem_map.mp hmem
  exact absurd (hvalid.below entry hentry) (haddress ▸ lt_irrefl _)

/-- What a call may do to the entries and to the iterator, and the change of the cursor that
it is. -/
inductive Moves (hashFunc : Bytes → UInt32) (t : Table Value ν) (curr temp : Option Nat) :
    Option (Change Nat) → Table Value ν → Option Nat → Option Nat → Prop
  | idle :
      Moves hashFunc t curr temp none t curr temp
  | setValue (address : Nat) (value : ν) :
      Moves hashFunc t curr temp none (t.setValue address value) curr temp
  | rewind :
      Moves hashFunc t curr temp (some .rewind) t (t.items.head?.map Handle.address)
        (secondAddress t)
  | next :
      Moves hashFunc t curr temp (some .next) t temp (temp.bind (nextAddress t.items))
  | add (key : Value) (value : ν) :
      Moves hashFunc t curr temp (some (.append t.fresh)) (t.add (valueHash hashFunc) key value)
        curr temp
  | delete {entry : Handle Value ν} :
      entry ∈ t.items →
      Moves hashFunc t curr temp (some (.remove entry.address)) (t.delete entry) curr
        (skipped t temp entry.address)

/-- The table stays valid, and the cursor is changed as it should. -/
theorem Moves.changes
    {change : Option (Change Nat)}
    {t' : Table Value ν}
    {curr' temp' : Option Nat}
    (h : Moves hashFunc t curr temp change t' curr' temp')
    (hvalid : Valid (valueHash hashFunc) t) :
    Valid (valueHash hashFunc) t' ∧
      (change = none → cursorOf t' curr' temp' = cursorOf t curr temp) ∧
      ∀ d, change = some d → cursorOf t' curr' temp' = (cursorOf t curr temp).change d ∧
        d.Possible (cursorOf t curr temp) := by
  cases h with
  | idle => exact ⟨hvalid, fun _ => rfl, by simp⟩
  | setValue address value =>
    exact ⟨hvalid.setValue address value, fun _ => cursorOf_setValue address value, by simp⟩
  | rewind =>
    refine ⟨hvalid, by simp, ?_⟩
    rintro _ ⟨⟩
    exact ⟨cursorOf_rewind, trivial⟩
  | next =>
    refine ⟨hvalid, by simp, ?_⟩
    rintro _ ⟨⟩
    exact ⟨cursorOf_next, trivial⟩
  | add key value =>
    refine ⟨hvalid.add key value, by simp, ?_⟩
    rintro _ ⟨⟩
    exact ⟨cursorOf_add value, fresh_not_mem hvalid⟩
  | delete hmem =>
    refine ⟨hvalid.delete hmem, by simp, ?_⟩
    rintro _ ⟨⟩
    exact ⟨cursorOf_delete hmem, trivial⟩

/-- A call on a Set moves its iterator as `change` says. -/
theorem IteratedSet.moves (self : IteratedSet) (use : SetUse) :
    Moves hashFunc self.entries self.iterCurr self.iterTemp (self.change hashFunc use)
      (self.after hashFunc use).entries (self.after hashFunc use).iterCurr
      (self.after hashFunc use).iterTemp := by
  have hidle : Moves hashFunc self.entries self.iterCurr self.iterTemp none self.entries
      self.iterCurr self.iterTemp := .idle
  cases use with
  | rewind => exact .rewind
  | next => exact .next
  | current | key | valid => exact hidle
  | add object =>
    by_cases hnull : object.kind = .null
    · simpa [change, after, SetObject.add, SetObject.Adds, hnull] using hidle
    cases hcheck : validateObject object self.valueType with
    | error e => simpa [change, after, SetObject.add, SetObject.Adds, hnull, hcheck] using hidle
    | ok u =>
      cases hfind : self.entries.find (valueHash hashFunc) (sameValue hashFunc) object with
      | some entry =>
        simpa [change, after, SetObject.add, SetObject.Adds, foundAt, hnull, hcheck, hfind] using
          hidle
      | none =>
        simpa [change, after, SetObject.add, SetObject.Adds, foundAt, hnull, hcheck, hfind] using
          Moves.add object ()
  | remove object =>
    simp only [change, after, SetObject.del, foundAt]
    cases hcheck : validateObject object self.valueType with
    | error e => exact hidle
    | ok u =>
      cases hfind : self.entries.find (valueHash hashFunc) (sameValue hashFunc) object with
      | none => exact hidle
      | some entry => exact .delete (mem_of_find hfind).1

/-- A call on a Map moves its iterator as `change` says. -/
theorem IteratedMap.moves (self : IteratedMap) (use : MapUse) :
    Moves hashFunc self.entries self.iterCurr self.iterTemp (self.change hashFunc use)
      (self.after hashFunc use).entries (self.after hashFunc use).iterCurr
      (self.after hashFunc use).iterTemp := by
  have hidle : Moves hashFunc self.entries self.iterCurr self.iterTemp none self.entries
      self.iterCurr self.iterTemp := .idle
  cases use with
  | rewind => exact .rewind
  | next => exact .next
  | current | key | valid => exact hidle
  | set key value =>
    by_cases hkey : key.kind = .null
    · simpa [change, after, MapObject.set, MapObject.Adds, hkey] using hidle
    by_cases hvalue : value.kind = .null
    · simpa [change, after, MapObject.set, MapObject.Adds, hkey, hvalue] using hidle
    cases hcheck : validateObject key self.keyType with
    | error e =>
      simpa [change, after, MapObject.set, MapObject.Adds, hkey, hvalue, hcheck] using hidle
    | ok u =>
      cases hcheck' : validateObject value self.valueType with
      | error e =>
        simpa [change, after, MapObject.set, MapObject.Adds, hkey, hvalue, hcheck, hcheck'] using
          hidle
      | ok u' =>
        cases hfind : self.entries.find (valueHash hashFunc) (sameValue hashFunc) key with
        | some entry =>
          simpa [change, after, MapObject.set, MapObject.Adds, foundAt, hkey, hvalue, hcheck,
            hcheck', hfind] using Moves.setValue entry.address value
        | none =>
          simpa [change, after, MapObject.set, MapObject.Adds, foundAt, hkey, hvalue, hcheck,
            hcheck', hfind] using Moves.add key value
  | remove key =>
    simp only [change, after, MapObject.del, foundAt]
    cases hcheck : validateObject key self.keyType with
    | error e => exact hidle
    | ok u =>
      cases hfind : self.entries.find (valueHash hashFunc) (sameValue hashFunc) key with
      | none => exact hidle
      | some entry => exact .delete (mem_of_find hfind).1

theorem IteratedSet.follows :
    Follows (IteratedSet.after hashFunc) IteratedSet.cursor (IteratedSet.change hashFunc)
      fun self => Valid (valueHash hashFunc) self.entries where
  kept self use hvalid := ((self.moves use).changes hvalid).1
  idle self use hvalid := ((self.moves use).changes hvalid).2.1
  moves self use d hvalid := ((self.moves use).changes hvalid).2.2 d

theorem IteratedMap.follows :
    Follows (IteratedMap.after hashFunc) IteratedMap.cursor (IteratedMap.change hashFunc)
      fun self => Valid (valueHash hashFunc) self.entries where
  kept self use hvalid := ((self.moves use).changes hvalid).1
  idle self use hvalid := ((self.moves use).changes hvalid).2.1
  moves self use d hvalid := ((self.moves use).changes hvalid).2.2 d

end

def SetUse.isNext : SetUse → Bool
  | .next => true
  | _ => false

def MapUse.isNext : MapUse → Bool
  | .next => true
  | _ => false

/-- The calls of a pass after its `rewind`. -/
def SetUse.InPass : SetUse → Prop
  | .rewind | .add _ => False
  | _ => True

/-- The calls of a pass after its `rewind`. -/
def MapUse.InPass : MapUse → Prop
  | .rewind | .set _ _ => False
  | _ => True

/-- A call does not remove the entry the iterator stands on. -/
def IteratedSet.KeepsCurrent (hashFunc : Bytes → UInt32) (self : IteratedSet) (use : SetUse) :
    Prop :=
  ∀ address, self.change hashFunc use = some (.remove address) → self.iterCurr ≠ some address

/-- A call does not remove the entry the iterator stands on. -/
def IteratedMap.KeepsCurrent (hashFunc : Bytes → UInt32) (self : IteratedMap) (use : MapUse) :
    Prop :=
  ∀ address, self.change hashFunc use = some (.remove address) → self.iterCurr ≠ some address

/-- The calls after a `rewind` end the pass if there are enough `next`s among them,
and at its end each entry of the object has been visited once. -/
def PassesOnce {σ ε : Type} (after : σ → ε → σ) (cursor : σ → Cursor Nat) (isNext : ε → Bool)
    (rewound : σ) (calls : List ε) : Prop :=
  ((cursor rewound).members.length ≤ calls.countP isNext →
      (cursor (calls.foldl after rewound)).curr = none) ∧
    ((cursor (calls.foldl after rewound)).curr = none →
      ∀ address ∈ (cursor (calls.foldl after rewound)).members,
        ((cursor rewound).curr.toList ++ visits after cursor isNext rewound calls).count
          address = 1)

section

variable {hashFunc : Bytes → UInt32}

theorem sound_empty (ν : Type) : (cursorOf (.empty 0 : Table Value ν) none none).Sound :=
  ⟨List.nodup_nil, [], [], ⟨rfl, rfl⟩⟩

theorem anchored_empty (ν : Type) : (cursorOf (.empty 0 : Table Value ν) none none).Anchored :=
  ⟨fun _ hnone => (nomatch hnone), fun _ hnone => (nomatch hnone)⟩

theorem passesOnce_of_follows {σ ε : Type} {after : σ → ε → σ} {cursor : σ → Cursor Nat}
    {change : σ → ε → Option (Change Nat)} {Inv : σ → Prop} {isNext : ε → Bool}
    (hfollows : Follows after cursor change Inv) (hnext : ∀ s e, isNext e ↔ change s e = some .next)
    {s : σ} {calls : List ε} (rewind : ε) (hinv : Inv s) (hsound : (cursor s).Sound)
    (hrewind : change s rewind = some .rewind)
    (hcalls : ∀ e ∈ calls, ∀ s d, change s e = some d → d = .next ∨ ∃ x, d = .remove x) :
    PassesOnce after cursor isNext (after s rewind) calls := by
  have hcursor : cursor (after s rewind) = (cursor s).rewind :=
    (hfollows.moves s rewind _ hinv hrewind).1
  have hbegin : InPass (cursor s).members.length (cursor (after s rewind))
      (cursor (after s rewind)).curr.toList 0 := by
    rw [hcursor]
    exact inPass_rewind hsound.distinct
  have hpass := hfollows.inPass hnext (hfollows.kept s rewind hinv) hbegin hcalls
  refine ⟨fun henough => hpass.ends ?_, fun hend address => hpass.count_eq_one hend⟩
  rw [Nat.zero_add]
  refine le_trans (le_of_eq ?_) henough
  rw [hcursor]
  rfl

theorem SetUse.isNext_iff (self : IteratedSet) (use : SetUse) :
    use.isNext ↔ self.change hashFunc use = some .next := by
  cases use <;> simp [SetUse.isNext, IteratedSet.change]

theorem MapUse.isNext_iff (self : IteratedMap) (use : MapUse) :
    use.isNext ↔ self.change hashFunc use = some .next := by
  cases use <;> simp [MapUse.isNext, IteratedMap.change]

theorem SetUse.InPass.change {use : SetUse} (hpass : use.InPass) (self : IteratedSet)
    (d : Change Nat) (hchange : self.change hashFunc use = some d) :
    d = .next ∨ ∃ address, d = .remove address := by
  cases use with
  | next =>
    cases hchange
    exact .inl rfl
  | remove object =>
    obtain ⟨address, -, rfl⟩ := Option.map_eq_some_iff.mp hchange
    exact .inr ⟨address, rfl⟩
  | rewind | add object => exact hpass.elim
  | current | key | valid => cases hchange

theorem MapUse.InPass.change {use : MapUse} (hpass : use.InPass) (self : IteratedMap)
    (d : Change Nat) (hchange : self.change hashFunc use = some d) :
    d = .next ∨ ∃ address, d = .remove address := by
  cases use with
  | next =>
    cases hchange
    exact .inl rfl
  | remove key =>
    obtain ⟨address, -, rfl⟩ := Option.map_eq_some_iff.mp hchange
    exact .inr ⟨address, rfl⟩
  | rewind | set key value => exact hpass.elim
  | current | key | valid => cases hchange

end

/-- Throughout a run of calls on a Set or a Map the iterator's references are null
or entries of the container if and only if no call removes the entry the iterator
stands on. A pass after any calls, whatever it removes, visits every entry that is
left at its end once. -/
theorem references_live_iff_current_kept
    (hashFunc : Bytes → UInt32) :
    (∀ valueType calls,
      Transition.Throughout (fun self use => some (IteratedSet.after hashFunc self use))
          (fun self => self.cursor.Anchored) (.new valueType) calls ↔
        Transition.EachStep (fun self use => some (IteratedSet.after hashFunc self use))
          (IteratedSet.KeepsCurrent hashFunc) (.new valueType) calls) ∧
    (∀ keyType valueType calls,
      Transition.Throughout (fun self use => some (IteratedMap.after hashFunc self use))
          (fun self => self.cursor.Anchored) (.new keyType valueType) calls ↔
        Transition.EachStep (fun self use => some (IteratedMap.after hashFunc self use))
          (IteratedMap.KeepsCurrent hashFunc) (.new keyType valueType) calls) ∧
    (∀ valueType before calls, (∀ use ∈ calls, use.InPass) →
      PassesOnce (IteratedSet.after hashFunc) IteratedSet.cursor SetUse.isNext
        (List.foldl (IteratedSet.after hashFunc) (.new valueType) before).rewind calls) ∧
    (∀ keyType valueType before calls, (∀ use ∈ calls, use.InPass) →
      PassesOnce (IteratedMap.after hashFunc) IteratedMap.cursor MapUse.isNext
        (List.foldl (IteratedMap.after hashFunc) (.new keyType valueType) before).rewind
        calls) := by
  refine ⟨?_, ?_, ?_, ?_⟩
  · intro valueType calls
    have hsound : (IteratedSet.new valueType).cursor.Sound := sound_empty Unit
    exact IteratedSet.follows.anchored_iff (valid_empty 0) hsound (anchored_empty Unit) calls
  · intro keyType valueType calls
    have hsound : (IteratedMap.new keyType valueType).cursor.Sound := sound_empty Value
    exact IteratedMap.follows.anchored_iff (valid_empty 0) hsound (anchored_empty Value) calls
  · intro valueType before calls hcalls
    have hnew : (IteratedSet.new valueType).cursor.Sound := sound_empty Unit
    obtain ⟨hvalid, hsound⟩ := IteratedSet.follows.invariant (valid_empty 0) hnew before
    exact passesOnce_of_follows IteratedSet.follows SetUse.isNext_iff .rewind hvalid hsound rfl
      fun use huse => (hcalls use huse).change
  · intro keyType valueType before calls hcalls
    have hnew : (IteratedMap.new keyType valueType).cursor.Sound := sound_empty Value
    obtain ⟨hvalid, hsound⟩ := IteratedMap.follows.invariant (valid_empty 0) hnew before
    exact passesOnce_of_follows IteratedMap.follows MapUse.isNext_iff .rewind hvalid hsound rfl
      fun use huse => (hcalls use huse).change

/-- The Set of one number after a loop has removed the number it visits. -/
def emptiedInLoop : IteratedSet :=
  [SetUse.add (.atom (.long 1)), .rewind, .remove (.atom (.long 1))].foldl
    (IteratedSet.after fun _ => 0) (.new (.scalar .int))

/-- The iterator stands on the entry that was freed, and `current` reads it. -/
theorem emptiedInLoop_not_anchored :
    ¬ emptiedInLoop.cursor.Anchored ∧ emptiedInLoop.valid = true ∧
      emptiedInLoop.current = .error () := by
  have hcurr : emptiedInLoop.iterCurr = some 0 := by decide +kernel
  have hitems : emptiedInLoop.entries.items = [] := List.length_eq_zero_iff.mp (by decide +kernel)
  refine ⟨?_, by decide +kernel, ?_⟩
  · rintro ⟨hlive, -⟩
    have hmem : 0 ∈ emptiedInLoop.entries.items.map Handle.address := hlive 0 hcurr
    rw [hitems] at hmem
    exact List.not_mem_nil hmem
  · simp only [IteratedSet.current, hcurr, Table.deref, hitems, List.find?_nil]

end Values
end ScyllaDriver
