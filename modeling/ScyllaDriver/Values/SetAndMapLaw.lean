import ScyllaDriver.Values.SetAndMap

/-!
# Sets and Maps with atomic keys follow their histories

Equal atomic values have equal hashes, so a search in the bucket of a key finds
the equal key wherever there is one. With atomic keys the containers are
therefore the finite sets and maps their histories describe.
-/

namespace ScyllaDriver
namespace Values

open CString ChainedTable MapHistory

/-- The values that hold no other values. -/
def atoms : Set Value :=
  Set.range Value.atom

section

variable {hashFunc : Bytes → UInt32}

theorem sameValue_atom_iff (a b : Atom) :
    sameValue hashFunc (.atom a) (.atom b) ↔
      a.kind = b.kind ∧ a.numbers = b.numbers ∧ a.bytes = b.bytes := by
  rw [sameValue, decide_eq_true_eq]
  constructor
  · intro h
    have hkind : a.kind = b.kind := kind_eq_of_valueCompare_eq h
    rw [valueCompare_atom hkind, Atom.contentsCompare_eq hkind, Ordering.then_eq_eq,
      Std.LawfulEqCmp.compare_eq_iff_eq, Std.LawfulEqCmp.compare_eq_iff_eq] at h
    exact ⟨hkind, h⟩
  · rintro ⟨hkind, hnumbers, hbytes⟩
    rw [valueCompare_atom hkind, Atom.contentsCompare_eq hkind, hnumbers, hbytes,
      Ordering.then_eq_eq, Std.LawfulEqCmp.compare_eq_iff_eq,
      Std.LawfulEqCmp.compare_eq_iff_eq]
    exact ⟨rfl, rfl⟩

theorem sameOn_atoms : SameOn (sameValue hashFunc) atoms where
  refl := by
    rintro _ ⟨a, rfl⟩
    exact (sameValue_atom_iff a a).mpr ⟨rfl, rfl, rfl⟩
  symm := by
    rintro _ ⟨a, rfl⟩ _ ⟨b, rfl⟩ h
    obtain ⟨hkind, hnumbers, hbytes⟩ := (sameValue_atom_iff a b).mp h
    exact (sameValue_atom_iff b a).mpr ⟨hkind.symm, hnumbers.symm, hbytes.symm⟩
  trans := by
    rintro _ ⟨a, rfl⟩ _ ⟨b, rfl⟩ _ ⟨c, rfl⟩ h h'
    obtain ⟨hkind, hnumbers, hbytes⟩ := (sameValue_atom_iff a b).mp h
    obtain ⟨hkind', hnumbers', hbytes'⟩ := (sameValue_atom_iff b c).mp h'
    exact (sameValue_atom_iff a c).mpr
      ⟨hkind.trans hkind', hnumbers.trans hnumbers', hbytes.trans hbytes'⟩

theorem valueHash_eq_of_sameValue {a b : Atom} (h : sameValue hashFunc (.atom a) (.atom b)) :
    valueHash hashFunc (.atom a) = valueHash hashFunc (.atom b) := by
  have heq : valueCompare hashFunc (.atom a) (.atom b) = .eq := of_decide_eq_true h
  have hkind : a.kind = b.kind := kind_eq_of_valueCompare_eq heq
  rw [valueCompare_atom hkind] at heq
  simp only [valueHash]
  exact Atom.hash_eq_of_contentsCompare_eq hashFunc hkind heq

variable {ν : Type}

def pairs (t : Table Value ν) : List (Value × ν) :=
  t.items.map fun h => (h.key, h.value)

/-- The table holds the map of a history; its keys are atomic and of the type. -/
structure Represents (hashFunc : Bytes → UInt32) (type : CqlType) (t : Table Value ν)
    (history : List (Event Value ν)) : Prop where
  valid : Valid (valueHash hashFunc) t
  tracks : Tracks (sameValue hashFunc) atoms (pairs t) history
  taken : ∀ h ∈ t.items, h.key.kind ≠ .null ∧ validateObject h.key type = .ok ()

variable {type : CqlType} {t : Table Value ν} {history : List (Event Value ν)}
variable {h h' : Handle Value ν} {a : Atom}

theorem represents_empty (fresh : Nat) :
    Represents hashFunc type (Table.empty fresh : Table Value ν) [] where
  valid := valid_empty fresh
  tracks := tracks_nil
  taken := fun _ hmem => (List.not_mem_nil hmem).elim

namespace Represents

theorem mem_atoms (hrep : Represents hashFunc type t history) (hmem : h ∈ t.items) :
    h.key ∈ atoms :=
  hrep.tracks.inside (h.key, h.value) (List.mem_map_of_mem hmem)

theorem absent (hrep : Represents hashFunc type t history)
    (hfind : t.find (valueHash hashFunc) (sameValue hashFunc) (.atom a) = none) :
    ∀ h ∈ t.items, ¬ sameValue hashFunc h.key (.atom a) := by
  refine (hrep.valid.find_eq_none_iff ?_).mp hfind
  intro h hmem hsame
  obtain ⟨b, hb⟩ := hrep.mem_atoms hmem
  rw [← hb] at hsame ⊢
  exact valueHash_eq_of_sameValue hsame

theorem absent_pairs (habsent : ∀ h ∈ t.items, ¬ sameValue hashFunc h.key (.atom a)) :
    ∀ p ∈ pairs t, ¬ sameValue hashFunc p.1 (.atom a) := by
  intro p hp
  obtain ⟨h, hmem, rfl⟩ := List.mem_map.mp hp
  exact habsent h hmem

theorem absent_of_refused (hrep : Represents hashFunc type t history) {e : Refusal}
    (hrefused : validateObject (.atom a) type = .error e) :
    ∀ h ∈ t.items, ¬ sameValue hashFunc h.key (.atom a) := by
  intro h hmem hsame
  obtain ⟨b, hb⟩ := hrep.mem_atoms hmem
  have htaken := (hrep.taken h hmem).2
  rw [← hb] at hsame htaken
  rw [validateObject_congr ((sameValue_atom_iff b a).mp hsame).1, hrefused] at htaken
  cases htaken

theorem address_eq_iff (hrep : Represents hashFunc type t history) (hmem : h ∈ t.items)
    (hsame : sameValue hashFunc h.key (.atom a)) (hmem' : h' ∈ t.items) :
    h'.address = h.address ↔ sameValue hashFunc h'.key (.atom a) := by
  constructor
  · intro haddress
    rw [List.inj_on_of_nodup_map hrep.valid.distinct hmem' hmem haddress]
    exact hsame
  · intro hsame'
    have hboth : sameValue hashFunc h'.key h.key :=
      sameOn_atoms.trans _ (hrep.mem_atoms hmem') _ ⟨a, rfl⟩ _ (hrep.mem_atoms hmem) hsame'
        (sameOn_atoms.symm _ (hrep.mem_atoms hmem) _ ⟨a, rfl⟩ hsame)
    have hapart : t.items.Pairwise fun x y => ¬ sameValue hashFunc x.key y.key :=
      List.pairwise_map.mp hrep.tracks.apart
    by_contra hne
    obtain ⟨i, hi, rfl⟩ := List.mem_iff_getElem.mp hmem
    obtain ⟨j, hj, rfl⟩ := List.mem_iff_getElem.mp hmem'
    rcases lt_trichotomy i j with hij | rfl | hij
    · exact List.pairwise_iff_getElem.mp hapart i j hi hj hij
        (sameOn_atoms.symm _ (hrep.mem_atoms hmem') _ (hrep.mem_atoms hmem) hboth)
    · exact hne rfl
    · exact List.pairwise_iff_getElem.mp hapart j i hj hi hij hboth

theorem add (hrep : Represents hashFunc type t history)
    (hfind : t.find (valueHash hashFunc) (sameValue hashFunc) (.atom a) = none) (hnull : a ≠ .null)
    (htaken : validateObject (.atom a) type = .ok ()) (value : ν) :
    Represents hashFunc type (t.add (valueHash hashFunc) (.atom a) value)
      (history ++ [.put (.atom a) value]) where
  valid := hrep.valid.add _ _
  tracks := by
    have hnew := hrep.tracks.put_new sameOn_atoms ⟨a, rfl⟩ (absent_pairs (hrep.absent hfind)) value
    rwa [pairs, items_add, List.map_append]
  taken := by
    intro h hmem
    rw [items_add] at hmem
    rcases List.mem_append.mp hmem with hmem | hmem
    · exact hrep.taken h hmem
    · rw [List.mem_singleton.mp hmem]
      refine ⟨fun hkind => hnull ?_, htaken⟩
      cases a <;> first | rfl | cases hkind

theorem setValue (hrep : Represents hashFunc type t history) (hmem : h ∈ t.items)
    (hsame : sameValue hashFunc h.key (.atom a)) (value : ν) :
    Represents hashFunc type (t.setValue h.address value) (history ++ [.put (.atom a) value]) where
  valid := hrep.valid.setValue _ _
  tracks := by
    have hknown := hrep.tracks.put_known sameOn_atoms ⟨a, rfl⟩ (List.mem_map_of_mem hmem) hsame
      value
    have hpairs : pairs (t.setValue h.address value) =
        (pairs t).map (replaced (sameValue hashFunc) (.atom a) value) := by
      simp only [pairs, Table.setValue, List.map_map]
      refine List.map_congr_left fun h' hmem' => ?_
      have hiff := hrep.address_eq_iff hmem hsame hmem'
      by_cases haddress : h'.address = h.address
      · simp [replaced, haddress, hiff.mp haddress]
      · simp [replaced, haddress, mt hiff.mpr haddress]
    rwa [hpairs]
  taken := by
    intro h' hmem'
    obtain ⟨h₀, hmem₀, rfl⟩ := List.mem_map.mp hmem'
    have hkey : (if h₀.address = h.address then { h₀ with value } else h₀).key = h₀.key := by
      split <;> rfl
    rw [hkey]
    exact hrep.taken h₀ hmem₀

theorem delete (hrep : Represents hashFunc type t history) (hmem : h ∈ t.items)
    (hsame : sameValue hashFunc h.key (.atom a)) :
    Represents hashFunc type (t.delete h) (history ++ [.drop (.atom a)]) where
  valid := hrep.valid.delete hmem
  tracks := by
    have hdrop := hrep.tracks.drop sameOn_atoms (.atom a) ⟨a, rfl⟩
    have hpairs : pairs (t.delete h) =
        (pairs t).filter fun p => !sameValue hashFunc p.1 (.atom a) := by
      rw [pairs, items_delete hmem, pairs, List.filter_map]
      refine congrArg _ (List.filter_congr fun h' hmem' => Bool.eq_iff_iff.mpr ?_)
      simp [hrep.address_eq_iff hmem hsame hmem']
    rwa [hpairs]
  taken := by
    intro h' hmem'
    rw [items_delete hmem] at hmem'
    exact hrep.taken h' (List.mem_filter.mp hmem').1

theorem drop_absent (hrep : Represents hashFunc type t history)
    (habsent : ∀ h ∈ t.items, ¬ sameValue hashFunc h.key (.atom a)) :
    Represents hashFunc type t (history ++ [.drop (.atom a)]) where
  __ := hrep
  tracks := by
    have hdrop := hrep.tracks.drop sameOn_atoms (.atom a) ⟨a, rfl⟩
    rwa [List.filter_eq_self.mpr] at hdrop
    intro p hp
    simpa using absent_pairs habsent p hp

theorem find_value (hrep : Represents hashFunc type t history) (a : Atom) :
    (t.find (valueHash hashFunc) (sameValue hashFunc) (.atom a)).map Handle.value =
      current (sameValue hashFunc) history (.atom a) := by
  cases hfind : t.find (valueHash hashFunc) (sameValue hashFunc) (.atom a) with
  | none =>
    exact (hrep.tracks.current_eq_none ⟨a, rfl⟩ (absent_pairs (hrep.absent hfind))).symm
  | some h =>
    obtain ⟨hmem, hsame⟩ := mem_of_find hfind
    exact (hrep.tracks.current_eq_some sameOn_atoms (List.mem_map_of_mem hmem) ⟨a, rfl⟩ hsame).symm

theorem current_of_refused (hrep : Represents hashFunc type t history) {e : Refusal}
    (hrefused : validateObject (.atom a) type = .error e) :
    current (sameValue hashFunc) history (.atom a) = none :=
  hrep.tracks.current_eq_none ⟨a, rfl⟩ (absent_pairs (hrep.absent_of_refused hrefused))

theorem keys_eq (hrep : Represents hashFunc type t history) :
    t.items.map Handle.key = firstInsertions (sameValue hashFunc) history := by
  rw [← hrep.tracks.keys, pairs, List.map_map]
  rfl

theorem keys_apart (hrep : Represents hashFunc type t history) :
    (t.items.map Handle.key).Pairwise fun v w => ¬ sameValue hashFunc v w :=
  List.pairwise_map.mpr (List.pairwise_map.mp hrep.tracks.apart)

theorem values_eq (hrep : Represents hashFunc type t history) :
    (t.items.map Handle.value).map some =
      (t.items.map Handle.key).map (current (sameValue hashFunc) history) := by
  rw [List.map_map, List.map_map]
  refine List.map_congr_left fun h hmem => ?_
  exact (hrep.tracks.values (h.key, h.value) (List.mem_map_of_mem hmem)).symm

end Represents

theorem kind_atom_eq_null (a : Atom) : (Value.atom a).kind = .null ↔ a = .null := by
  cases a <;> simp [Value.kind, Atom.kind]

theorem setValue_unit (t : Table Value Unit) (address : Nat) : t.setValue address () = t := by
  have hitems : (t.items.map fun h =>
      if h.address = address then { h with value := () } else h) = t.items :=
    (List.map_congr_left fun h _ => ite_self h).trans (List.map_id _)
  rw [Table.setValue, hitems]

/-- A call on a Set does to its table what it does to the set. -/
theorem SetObject.represents_after {valueType : CqlType} (self : SetObject)
    (history : List (Event Value Unit)) (call : SetCall) (htype : self.valueType = valueType)
    (hrep : Represents hashFunc valueType self.entries history) :
    (self.after hashFunc call).valueType = valueType ∧
      Represents hashFunc valueType (self.after hashFunc call).entries
        (history ++ call.events valueType) := by
  subst htype
  cases call with
  | add object =>
    simp only [SetObject.after, SetObject.add, SetCall.events, kind_atom_eq_null]
    by_cases hnull : object = .null
    · simpa [hnull] using hrep
    · cases hvalidate : validateObject (.atom object) self.valueType with
      | error e => simpa [hnull] using hrep
      | ok _ =>
        rw [if_neg hnull, if_pos ⟨hnull, rfl⟩]
        cases hfind : self.entries.find (valueHash hashFunc) (sameValue hashFunc)
            (.atom object) with
        | none => exact ⟨rfl, hrep.add hfind hnull hvalidate ()⟩
        | some entry =>
          obtain ⟨hmem, hsame⟩ := mem_of_find hfind
          have hset := hrep.setValue hmem hsame ()
          rw [setValue_unit] at hset
          exact ⟨rfl, hset⟩
  | remove object =>
    simp only [SetObject.after, SetObject.del, SetCall.events]
    cases hvalidate : validateObject (.atom object) self.valueType with
    | error e => exact ⟨rfl, hrep.drop_absent (hrep.absent_of_refused hvalidate)⟩
    | ok _ =>
      cases hfind : self.entries.find (valueHash hashFunc) (sameValue hashFunc) (.atom object) with
      | none => exact ⟨rfl, hrep.drop_absent (hrep.absent hfind)⟩
      | some entry =>
        obtain ⟨hmem, hsame⟩ := mem_of_find hfind
        exact ⟨rfl, hrep.delete hmem hsame⟩
  | has object => exact ⟨rfl, by simpa [SetObject.after, SetCall.events] using hrep⟩

theorem MapObject.represents_after {keyType valueType : CqlType} (self : MapObject)
    (history : List (Event Value Value)) (call : MapCall)
    (htypes : self.keyType = keyType ∧ self.valueType = valueType)
    (hrep : Represents hashFunc keyType self.entries history) :
    ((self.after hashFunc call).keyType = keyType ∧
        (self.after hashFunc call).valueType = valueType) ∧
      Represents hashFunc keyType (self.after hashFunc call).entries
        (history ++ call.events keyType valueType) := by
  obtain ⟨rfl, rfl⟩ := htypes
  cases call with
  | set key value =>
    simp only [MapObject.after, MapObject.set, MapCall.events, kind_atom_eq_null]
    by_cases hnull : key = .null
    · simpa [hnull] using hrep
    · by_cases hnullValue : value.kind = .null
      · simpa [hnull, hnullValue] using hrep
      · rw [if_neg hnull, if_neg hnullValue]
        cases hvalidate : validateObject (.atom key) self.keyType with
        | error e => simpa using hrep
        | ok _ =>
          cases hvalue : validateObject value self.valueType with
          | error e => simpa using hrep
          | ok _ =>
            rw [if_pos ⟨⟨hnull, rfl⟩, hnullValue, rfl⟩]
            cases hfind : self.entries.find (valueHash hashFunc) (sameValue hashFunc)
                (.atom key) with
            | none => exact ⟨⟨rfl, rfl⟩, hrep.add hfind hnull hvalidate value⟩
            | some entry =>
              obtain ⟨hmem, hsame⟩ := mem_of_find hfind
              exact ⟨⟨rfl, rfl⟩, hrep.setValue hmem hsame value⟩
  | remove key =>
    simp only [MapObject.after, MapObject.del, MapCall.events]
    cases hvalidate : validateObject (.atom key) self.keyType with
    | error e => exact ⟨⟨rfl, rfl⟩, hrep.drop_absent (hrep.absent_of_refused hvalidate)⟩
    | ok _ =>
      cases hfind : self.entries.find (valueHash hashFunc) (sameValue hashFunc) (.atom key) with
      | none => exact ⟨⟨rfl, rfl⟩, hrep.drop_absent (hrep.absent hfind)⟩
      | some entry =>
        obtain ⟨hmem, hsame⟩ := mem_of_find hfind
        exact ⟨⟨rfl, rfl⟩, hrep.delete hmem hsame⟩
  | has key | get key => exact ⟨⟨rfl, rfl⟩, by simpa [MapObject.after, MapCall.events] using hrep⟩

/-- A run follows its history if every call does. -/
theorem represents_run {σ γ ν : Type} {type : CqlType} (entries : σ → Table Value ν)
    (Typed : σ → Prop) {after : σ → γ → σ} {events : γ → List (Event Value ν)}
    (hstep : ∀ self history call, Typed self → Represents hashFunc type (entries self) history →
      Typed (after self call) ∧
        Represents hashFunc type (entries (after self call)) (history ++ events call))
    {self : σ} {history : List (Event Value ν)} (htyped : Typed self)
    (hrep : Represents hashFunc type (entries self) history) (calls : List γ) :
    Typed (calls.foldl after self) ∧
      Represents hashFunc type (entries (calls.foldl after self))
        (history ++ calls.flatMap events) := by
  induction calls generalizing self history with
  | nil => exact ⟨htyped, by simpa using hrep⟩
  | cons call calls ih =>
    obtain ⟨htyped', hrep'⟩ := hstep self history call htyped hrep
    rw [List.flatMap_cons, ← List.append_assoc]
    exact ih htyped' hrep'

theorem Represents.found_iff {ν : Type} {type : CqlType} {t : Table Value ν}
    {history : List (Event Value ν)} (hrep : Represents hashFunc type t history) (a : Atom) :
    (t.find (valueHash hashFunc) (sameValue hashFunc) (.atom a)).isSome =
      (current (sameValue hashFunc) history (.atom a)).isSome := by
  rw [← hrep.find_value a, Option.isSome_map]

theorem ne_eq_of_not_sameValue {v w : Value} (h : ¬ sameValue hashFunc v w) :
    valueCompare hashFunc v w ≠ .eq :=
  fun heq => h (decide_eq_true heq)

theorem SetObject.is_of_represents {self : SetObject} {history : List (Event Value Unit)}
    (hrep : Represents hashFunc self.valueType self.entries history) :
    self.Is hashFunc history where
  apart := hrep.keys_apart.imp ne_eq_of_not_sameValue
  has := by
    intro a
    rw [SetObject.has]
    cases hvalidate : validateObject (.atom a) self.valueType with
    | error e => simp [hrep.current_of_refused hvalidate]
    | ok _ => simp [hrep.found_iff a]
  count := hrep.valid.counted.trans (List.length_map _).symm
  values := hrep.keys_eq

theorem MapObject.is_of_represents {self : MapObject} {history : List (Event Value Value)}
    (hrep : Represents hashFunc self.keyType self.entries history) :
    self.Is hashFunc history where
  apart := hrep.keys_apart.imp ne_eq_of_not_sameValue
  has := by
    intro a
    rw [MapObject.has]
    cases hvalidate : validateObject (.atom a) self.keyType with
    | error e => simp [hrep.current_of_refused hvalidate]
    | ok _ => simp [hrep.found_iff a]
  get := by
    intro a value
    rw [MapObject.get]
    cases hvalidate : validateObject (.atom a) self.keyType with
    | error e => simp [hrep.current_of_refused hvalidate]
    | ok _ => simp [hrep.find_value a]
  count := hrep.valid.counted.trans (List.length_map _).symm
  keys := hrep.keys_eq
  values := hrep.values_eq

end

/-- After any calls with atomic members or keys a Set is the set, and a Map the
finite map, that the calls describe. -/
theorem containers_follow_history
    (hashFunc : Bytes → UInt32)
    (keyType valueType : CqlType) :
    (∀ calls : List SetCall,
      (setAfter hashFunc valueType calls).Is hashFunc
        (calls.flatMap (SetCall.events valueType))) ∧
    (∀ calls : List MapCall,
      (mapAfter hashFunc keyType valueType calls).Is hashFunc
        (calls.flatMap (MapCall.events keyType valueType))) := by
  constructor
  · intro calls
    have hnew : Represents hashFunc valueType (SetObject.new valueType).entries [] :=
      represents_empty 0
    obtain ⟨htype, hrun⟩ := represents_run SetObject.entries
      (fun self => self.valueType = valueType) SetObject.represents_after rfl hnew calls
    exact SetObject.is_of_represents (htype.symm ▸ hrun)
  · intro calls
    have hnew : Represents hashFunc keyType (MapObject.new keyType valueType).entries [] :=
      represents_empty 0
    obtain ⟨⟨htype, -⟩, hrun⟩ := represents_run MapObject.entries
      (fun self => self.keyType = keyType ∧ self.valueType = valueType)
      MapObject.represents_after ⟨rfl, rfl⟩ hnew calls
    exact MapObject.is_of_represents (htype.symm ▸ hrun)

/-- Two patterns that are not numbers are one member, the two zeros are two. -/
example :
    (setAfter (fun _ => 0) (.scalar .double)
      [.add (.double 0x7ff8000000000000), .add (.double 0xfff8000000000001), .add (.double 0),
        .add (.double 0x8000000000000000)]).count = 3 := by
  decide +kernel

end Values
end ScyllaDriver
