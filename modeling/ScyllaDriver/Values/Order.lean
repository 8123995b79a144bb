import ScyllaDriver.Values.Typed

/-!
# When the comparison orders the values of a type

The comparison of two Sets answers 1, "greater", whenever a member of the
first is missing from the second. Of two Sets of one size with different
members each is then greater than the other, so the comparison is no order on
the values of any type in which a Set can have two different members; Maps
behave the same way in their keys.

What is left is an order, with one exception. A container may carry any type
that compares equal to the declared one, and a Tuple is compared by its fields
in the order in which they were set, so containers of different types meet.
Then their types decide, and the order of types is not transitive: text equals
varchar, while timestamp and uuid lie between. A user type whose keyspace or
name is not set equals any other with the same fields.

`Meets type` describes the families of types whose values meet when two values
of a type are compared. The comparison orders the values of the type if every
such family is free of both defects (`order_valuesOf`).
-/

namespace ScyllaDriver
namespace Values

open CString Comparator

/-- The values of some type of a family, with hashes up to date. -/
def valuesOf (hashFunc : Bytes → UInt32) (family : Set CqlType) : Set Value :=
  {value | ∃ type ∈ family, HasType hashFunc type value ∧ Fresh hashFunc value}

/-- The types that containers may carry where a type of the family is declared. -/
def carried (family : Set CqlType) : Set CqlType :=
  {own | ∃ type ∈ family, typeCompare own type = .eq}

/-- The types of the values in a container of a type. A map with an entry has a
key, which no custom type has; the members of a Set are compared as keys. -/
inductive Holds : CqlType → CqlType → Prop
  | list {valueType : CqlType} : Holds (.list valueType) valueType
  | map {keyType valueType : CqlType} (hkey : keyType.isCustom = false) :
      Holds (.map keyType valueType) valueType
  | tuple {types : List CqlType} {type : CqlType} (h : type ∈ types) : Holds (.tuple types) type
  | udt {keyspace typeName : Option Bytes} {types : List (Bytes × CqlType)} {name : Bytes}
      {type : CqlType} (h : types.lookup name = some type) :
      Holds (.udt keyspace typeName types) type

/-- The types of the values in the containers that agree with one of them in
their type. -/
def heldTypes (family : Set CqlType) (own : CqlType) : Set CqlType :=
  {type | ∃ other ∈ carried family, typeCompare own other = .eq ∧ Holds other type}

/-- The families of types whose values meet in a comparison of two values of
the given type: the type itself, and below a family the types of the values in
containers that agree in their type. -/
inductive Meets (type : CqlType) : Set CqlType → Prop
  | base : Meets type {type}
  | held {family : Set CqlType} {own : CqlType} :
      Meets type family → own ∈ carried family → Meets type (heldTypes family own)

/-- A family without the two defects: its containers of one class are ordered
by their types, and no Set or Map has two different keys. -/
structure Orderly (family : Set CqlType) : Prop where
  types : ∀ ce, TotalPreorderOn typeCompare
    {own | own ∈ carried family ∧ own.containerClass = some ce}
  sets : ∀ valueType, .set valueType ∈ carried family → valueType.Solitary
  maps : ∀ keyType valueType, .map keyType valueType ∈ carried family →
    keyType.Solitary ∨ valueType.isCustom = true

section

variable {hashFunc : Bytes → UInt32} {family : Set CqlType}

variable {ce : ValueClass} {value : Value} {s : Set Value}

theorem set_of_mem_valuesOf (h : value ∈ valuesOf hashFunc family)
    (hkind : value.kind = .object .set) :
    ∃ valueType numBuckets values hashv, .set valueType ∈ carried family ∧
      value = .set (.set valueType) numBuckets (valueHashes hashFunc values) values hashv ∧
      ∀ v ∈ values, HasType hashFunc valueType v ∧ Fresh hashFunc v ∧ v ≠ .atom .null := by
  obtain ⟨type, hmem, htyped, hfresh⟩ := h
  obtain ⟨carried, numBuckets, hashes, values, hashv, rfl⟩ := Value.eq_set_of_kind hkind
  cases htyped with
  | set carries typed nonnull apart =>
    refine ⟨_, numBuckets, values, hashv, ⟨type, hmem, carries⟩, by rw [hfresh.1], ?_⟩
    exact fun v hv => ⟨typed v hv, allFresh_iff.mp hfresh.2.2 v hv, nonnull v hv⟩

theorem map_of_mem_valuesOf (h : value ∈ valuesOf hashFunc family)
    (hkind : value.kind = .object .map) :
    ∃ keyType valueType numBuckets keys values hashv, .map keyType valueType ∈ carried family ∧
      value = .map (.map keyType valueType) numBuckets (valueHashes hashFunc keys) keys
        values hashv ∧
      keys.length = values.length ∧
      keys.Pairwise (Apart hashFunc numBuckets) ∧
      (∀ v ∈ keys, HasType hashFunc keyType v ∧ Fresh hashFunc v ∧ v ≠ .atom .null) ∧
      (∀ v ∈ values, HasType hashFunc valueType v ∧ Fresh hashFunc v ∧ v ≠ .atom .null) := by
  obtain ⟨type, hmem, htyped, hfresh⟩ := h
  obtain ⟨carried, numBuckets, hashes, keys, values, hashv, rfl⟩ := Value.eq_map_of_kind hkind
  obtain ⟨⟨hhashes, hparallel⟩, -, hkeys, hvalues⟩ := hfresh
  cases htyped with
  | map carries typedKeys nonnullKeys typed nonnull apart =>
    refine ⟨_, _, numBuckets, keys, values, hashv, ⟨type, hmem, carries⟩, by rw [hhashes],
      hparallel, apart, ?_, ?_⟩
    · exact fun v hv => ⟨typedKeys v hv, allFresh_iff.mp hkeys v hv, nonnullKeys v hv⟩
    · exact fun v hv => ⟨typed v hv, allFresh_iff.mp hvalues v hv, nonnull v hv⟩

theorem exists_mem_zip {α β : Type} {keys : List α} {values : List β}
    (hlength : keys.length = values.length) {v : β} (hv : v ∈ values) :
    ∃ key ∈ keys, (key, v) ∈ keys.zip values := by
  rw [← List.map_snd_zip hlength.ge] at hv
  obtain ⟨⟨key, w⟩, hmem, rfl⟩ := List.mem_map.mp hv
  exact ⟨key, (List.of_mem_zip hmem).1, hmem⟩

theorem order_of_kinds
    (h : ∀ kind, TotalPreorderOn (valueCompare hashFunc) {v | v ∈ s ∧ v.kind = kind}) :
    TotalPreorderOn (valueCompare hashFunc) s := by
  have hkinds : TotalPreorderOn (fun v w : Value => kindCompare v.kind w.kind) s :=
    (kindCompare_order Set.univ).comap Value.kind fun v _ => Set.mem_univ _
  refine (hkinds.andThen fun v _ => (h v.kind).mono fun w hw => ⟨hw.1, ?_⟩).congr
    fun v _ w _ => valueCompare_kind v w
  exact ((kindCompare_eq_iff _ _).mp hw.2).symm

theorem order_of_atoms {kind : Kind} (hatoms : ∀ v : Value, v.kind = kind → ∃ a, v = .atom a) :
    TotalPreorderOn (valueCompare hashFunc) {v | v ∈ s ∧ v.kind = kind} := by
  refine TotalPreorderOn.of_image Value.atom (u := {a | a.kind = kind}) ?_ ?_
  · exact (Atom.contentsCompare_order kind).congr fun a ha b hb =>
      valueCompare_atom (ha.trans hb.symm)
  · rintro v ⟨-, hkind⟩
    obtain ⟨a, rfl⟩ := hatoms v hkind
    exact ⟨a, hkind, rfl⟩

/-- Containers compared by type, number of members and members are ordered, if
their types are, and the members of those that agree in their type. -/
theorem order_of_containers (type : Value → CqlType) (members : Value → List Value)
    (hcompare : ∀ v ∈ s, ∀ w ∈ s, valueCompare hashFunc v w =
      (typeCompare (type v) (type w)).then
        ((compare v.count w.count).then
          (compareLists (valueCompare hashFunc) (members v) (members w))))
    (hlength : ∀ v ∈ s, ∀ w ∈ s, v.count = w.count → (members v).length = (members w).length)
    (htypes : TotalPreorderOn (fun v w => typeCompare (type v) (type w)) s)
    (hmembers : ∀ v ∈ s, TotalPreorderOn (valueCompare hashFunc)
      {x | ∃ w ∈ s, typeCompare (type v) (type w) = .eq ∧ x ∈ members w}) :
    TotalPreorderOn (valueCompare hashFunc) s := by
  refine (htypes.andThen fun v hv => ?_).congr hcompare
  refine (TotalPreorderOn.of_key Value.count _).andThen fun w hw => ?_
  refine ((hmembers v hv).compareLists (members w).length).comap members fun x hx => ?_
  have hcount : w.count = x.count := Std.LawfulEqOrd.compare_eq_iff_eq.mp hx.2
  exact ⟨(hlength w hw.1 x hx.1.1 hcount).symm, fun y hy => ⟨x, hx.1.1, hx.1.2, hy⟩⟩

/-- The type a container carries; of an atom it is of no interest. -/
def Value.carriedType (value : Value) : CqlType :=
  value.type?.getD (.custom [])

/-- The values a container holds, as opposed to the keys. -/
def Value.values : Value → List Value
  | .atom _ => []
  | .collection _ values _ => values
  | .set _ _ _ values _ => values
  | .map _ _ _ _ values _ => values
  | .tuple _ _ values _ => values
  | .userTypeValue _ _ values _ => values

theorem sizeOf_lt_of_mem_values {x : Value} (h : x ∈ value.values) : sizeOf x < sizeOf value := by
  cases value <;>
    first
    | (cases h; done)
    | (have hlt := List.sizeOf_lt_of_mem h
       simp only [Value.values] at hlt
       simp
       omega)

theorem carriedType_mem (h : value ∈ valuesOf hashFunc family)
    (hcontainer : value.type?.isSome) : value.carriedType ∈ carried family := by
  obtain ⟨type, hmem, htyped, -⟩ := h
  cases htyped with
  | null => cases hcontainer
  | scalar => cases hcontainer
  | collection carries | set carries | map carries | tuple carries | userTypeValue carries =>
    exact ⟨type, hmem, carries⟩

/-- The values in a container have types that its own type holds. -/
theorem holds_of_mem_values {x : Value} (h : value ∈ valuesOf hashFunc family)
    (hset : value.kind ≠ .object .set) (hx : x ∈ value.values) :
    ∃ type, Holds value.carriedType type ∧ HasType hashFunc type x ∧ Fresh hashFunc x := by
  obtain ⟨_, -, htyped, hfresh⟩ := h
  cases htyped with
  | null => cases hx
  | scalar => cases hx
  | set => exact absurd rfl hset
  | collection carries typed => exact ⟨_, .list, typed x hx, allFresh_iff.mp hfresh.2 x hx⟩
  | map carries typedKeys nonnullKeys typed nonnull apart =>
    obtain ⟨⟨-, hparallel⟩, -, -, hvalues⟩ := hfresh
    refine ⟨_, .map ?_, typed x hx, allFresh_iff.mp hvalues x hx⟩
    rw [← Bool.not_eq_true]
    intro hcustom
    have hpos : 0 < _ := List.length_pos_of_mem hx
    simp [Value.values, ← hparallel, eq_nil_of_custom hcustom typedKeys nonnullKeys] at hpos
  | tuple carries parallel distinct declared typed =>
    obtain ⟨key, hkey, hzip⟩ := exists_mem_zip parallel hx
    exact ⟨_, .tuple (List.getElem_mem (declared key hkey)),
      typed key x hzip _ (List.getElem?_eq_getElem _), allFresh_iff.mp hfresh.2 x hx⟩
  | userTypeValue carries parallel distinct declared typed =>
    obtain ⟨key, hkey, hzip⟩ := exists_mem_zip parallel hx
    obtain ⟨type, hfield⟩ := Option.isSome_iff_exists.mp (declared key hkey)
    exact ⟨type, .udt hfield, typed key x hzip _ hfield, allFresh_iff.mp hfresh.2 x hx⟩

theorem Orderly.order_types (h : Orderly family) (hs : s ⊆ valuesOf hashFunc family)
    (hclass : ∀ v ∈ s, v.kind = .object ce) (hcontainer : ∀ v ∈ s, v.type?.isSome) :
    TotalPreorderOn (fun v w : Value => typeCompare v.carriedType w.carriedType) s := by
  refine (h.types ce).comap Value.carriedType fun v hv => ⟨carriedType_mem (hs hv) ?_, ?_⟩
  · exact hcontainer v hv
  · obtain ⟨type, -, htyped, -⟩ := hs hv
    have hkind := hclass v hv
    have hcarried := hcontainer v hv
    cases htyped with
    | null => cases hcarried
    | scalar => cases hcarried
    | collection | set | map | tuple | userTypeValue =>
      cases hkind
      rfl

/-- The values in the containers that agree in their type with the given one. -/
def agreeingMembers (s : Set Value) (value : Value) : Set Value :=
  {x | ∃ w ∈ s, typeCompare value.carriedType w.carriedType = .eq ∧ x ∈ w.values}

/-- Collections, Tuples and user type values are compared position by position. -/
def Positional (ce : ValueClass) : Prop :=
  ce = .collection ∨ ce = .tuple ∨ ce = .userTypeValue

theorem Positional.cases (h : Positional ce) (hkind : value.kind = .object ce) :
    value.type?.isSome ∧ value.count = value.values.length := by
  rcases h with rfl | rfl | rfl
  · obtain ⟨type, values, hashv, rfl⟩ := Value.eq_collection_of_kind hkind
    exact ⟨rfl, rfl⟩
  · obtain ⟨type, keys, values, hashv, rfl⟩ := Value.eq_tuple_of_kind hkind
    exact ⟨rfl, rfl⟩
  · obtain ⟨type, keys, values, hashv, rfl⟩ := Value.eq_userTypeValue_of_kind hkind
    exact ⟨rfl, rfl⟩

theorem Positional.valueCompare {ce : ValueClass} {value₁ value₂ : Value} (h : Positional ce)
    (hkind₁ : value₁.kind = .object ce) (hkind₂ : value₂.kind = .object ce) :
    valueCompare hashFunc value₁ value₂ =
      (typeCompare value₁.carriedType value₂.carriedType).then
        ((compare value₁.count value₂.count).then
          (compareLists (valueCompare hashFunc) value₁.values value₂.values)) := by
  rw [← valuesCompare_eq_compareLists]
  rcases h with rfl | rfl | rfl
  · obtain ⟨type₁, values₁, hashv₁, rfl⟩ := Value.eq_collection_of_kind hkind₁
    obtain ⟨type₂, values₂, hashv₂, rfl⟩ := Value.eq_collection_of_kind hkind₂
    exact valueCompare_collection _ _ _ _ _ _
  · obtain ⟨type₁, keys₁, values₁, hashv₁, rfl⟩ := Value.eq_tuple_of_kind hkind₁
    obtain ⟨type₂, keys₂, values₂, hashv₂, rfl⟩ := Value.eq_tuple_of_kind hkind₂
    exact valueCompare_tuple _ _ _ _ _ _ _ _
  · obtain ⟨type₁, keys₁, values₁, hashv₁, rfl⟩ := Value.eq_userTypeValue_of_kind hkind₁
    obtain ⟨type₂, keys₂, values₂, hashv₂, rfl⟩ := Value.eq_userTypeValue_of_kind hkind₂
    exact valueCompare_userTypeValue _ _ _ _ _ _ _ _

theorem Orderly.order_positional (h : Orderly family) (hpositional : Positional ce)
    (hs : s ⊆ valuesOf hashFunc family) (hkind : ∀ v ∈ s, v.kind = .object ce)
    (hmembers : ∀ v ∈ s, v.type?.isSome →
      TotalPreorderOn (valueCompare hashFunc) (agreeingMembers s v)) :
    TotalPreorderOn (valueCompare hashFunc) s := by
  have hcontainer : ∀ v ∈ s, v.type?.isSome := fun v hv => (hpositional.cases (hkind v hv)).1
  refine order_of_containers Value.carriedType Value.values ?_ ?_
    (h.order_types hs hkind hcontainer) fun v hv => hmembers v hv (hcontainer v hv)
  · exact fun v hv w hw => hpositional.valueCompare (hkind v hv) (hkind w hw)
  · intro v hv w hw hcount
    rw [← (hpositional.cases (hkind v hv)).2, ← (hpositional.cases (hkind w hw)).2, hcount]

theorem membersCompare_eq_of_solitary {valueType₁ valueType₂ : CqlType}
    {values₁ values₂ : List Value}
    (numBuckets : UInt32) (htypes : typeCompare valueType₁ valueType₂ = .eq)
    (hsolitary₁ : valueType₁.Solitary) (hsolitary₂ : valueType₂.Solitary)
    (htyped₁ : ∀ v ∈ values₁, HasType hashFunc valueType₁ v ∧ Fresh hashFunc v ∧ v ≠ .atom .null)
    (htyped₂ : ∀ v ∈ values₂, HasType hashFunc valueType₂ v ∧ Fresh hashFunc v ∧ v ≠ .atom .null)
    (hlength : values₁.length = values₂.length) :
    membersCompare hashFunc values₁ numBuckets (valueHashes hashFunc values₂) values₂ = .eq := by
  rw [membersCompare_eq_iff]
  intro v hv
  rw [findEntry_ne_none_iff]
  -- the second set has a member too, and any member will do
  have hpos : 0 < values₂.length := hlength ▸ List.length_pos_of_mem hv
  obtain ⟨w, hw⟩ := List.exists_mem_of_length_pos hpos
  obtain ⟨htyped, hfresh, hnonnull⟩ := htyped₁ v hv
  obtain ⟨htyped', hfresh', hnonnull'⟩ := htyped₂ w hw
  obtain ⟨hhash, hcompare⟩ := solitary_keys_agree (typeCompare_eq_comm.mp htypes) htyped' htyped
    hfresh' hfresh hsolitary₂ hsolitary₁ hnonnull' hnonnull
  exact ⟨w, hw, by rw [hhash], hcompare⟩

theorem Orderly.order_sets (h : Orderly family) (hs : s ⊆ valuesOf hashFunc family)
    (hkind : ∀ v ∈ s, v.kind = .object .set) : TotalPreorderOn (valueCompare hashFunc) s := by
  have hshape := fun v hv => set_of_mem_valuesOf (hs hv) (hkind v hv)
  refine order_of_containers Value.carriedType (fun _ => []) ?_ (fun _ _ _ _ _ => rfl)
    (h.order_types hs hkind ?_) ?_
  · intro v hv w hw
    obtain ⟨valueType₁, numBuckets₁, values₁, hashv₁, hmem₁, rfl, htyped₁⟩ := hshape v hv
    obtain ⟨valueType₂, numBuckets₂, values₂, hashv₂, hmem₂, rfl, htyped₂⟩ := hshape w hw
    rw [valueCompare_set]
    refine then_congr fun htypes => then_congr fun hcount => ?_
    have htypes' : typeCompare valueType₁ valueType₂ = .eq := by
      simpa [typeCompare] using htypes
    exact membersCompare_eq_of_solitary numBuckets₂ htypes' (h.sets _ hmem₁) (h.sets _ hmem₂)
      htyped₁ htyped₂ (Std.LawfulEqOrd.compare_eq_iff_eq.mp hcount)
  · intro v hv
    obtain ⟨valueType, numBuckets, values, hashv, -, rfl, -⟩ := hshape v hv
    rfl
  · intro v hv
    refine (TotalPreorderOn.mono (s := ∅) ⟨by simp, by simp, by simp⟩ ?_)
    rintro x ⟨w, -, -, hx⟩
    cases hx

theorem length_le_one_of_solitary {keyType : CqlType} {numBuckets : UInt32} {keys : List Value}
    (hsolitary : keyType.Solitary) (hapart : keys.Pairwise (Apart hashFunc numBuckets))
    (htyped : ∀ v ∈ keys,
      HasType hashFunc keyType v ∧ Fresh hashFunc v ∧ v ≠ .atom .null) : keys.length ≤ 1 := by
  match keys with
  | [] => exact Nat.zero_le 1
  | [_] => exact Nat.le_refl 1
  | key₁ :: key₂ :: _ =>
    obtain ⟨htyped₁, hfresh₁, hnonnull₁⟩ := htyped key₁ (by simp)
    obtain ⟨htyped₂, hfresh₂, hnonnull₂⟩ := htyped key₂ (by simp)
    obtain ⟨hhash, hcompare⟩ := solitary_keys_agree (typeCompare_self keyType) htyped₁ htyped₂
      hfresh₁ hfresh₂ hsolitary hsolitary hnonnull₁ hnonnull₂
    have happart := (List.pairwise_cons.mp hapart).1 key₂ (by simp)
    exact absurd hcompare (happart (by rw [hhash]))

theorem entriesCompare_single {key₁ key₂ : Value} (value₁ value₂ : Value) (numBuckets : UInt32)
    (hhash : valueHash hashFunc key₂ = valueHash hashFunc key₁)
    (hcompare : valueCompare hashFunc key₂ key₁ = .eq) :
    entriesCompare hashFunc [key₁] [value₁] numBuckets (valueHashes hashFunc [key₂]) [key₂]
        [value₂] =
      valueCompare hashFunc value₁ value₂ := by
  simp only [entriesCompare, findEntry, valueHashes, hhash, hcompare, and_self, if_true,
    Ordering.then_eq]
  rfl

/-- Maps with solitary keys that agree in type and size are compared by the values
of their only entries. -/
theorem entriesCompare_of_solitary {keyType₁ keyType₂ : CqlType}
    {keys₁ values₁ keys₂ values₂ : List Value} (numBuckets : UInt32)
    (htypes : typeCompare keyType₁ keyType₂ = .eq) (hsolitary₁ : keyType₁.Solitary)
    (hsolitary₂ : keyType₂.Solitary)
    (htyped₁ : ∀ v ∈ keys₁, HasType hashFunc keyType₁ v ∧ Fresh hashFunc v ∧ v ≠ .atom .null)
    (htyped₂ : ∀ v ∈ keys₂,
      HasType hashFunc keyType₂ v ∧ Fresh hashFunc v ∧ v ≠ .atom .null) (hle : keys₁.length ≤ 1)
    (hkeys : keys₁.length = keys₂.length) (hparallel₁ : keys₁.length = values₁.length)
    (hparallel₂ : keys₂.length = values₂.length) :
    entriesCompare hashFunc keys₁ values₁ numBuckets (valueHashes hashFunc keys₂) keys₂ values₂ =
      compareLists (valueCompare hashFunc) values₁ values₂ := by
  match keys₁, values₁, keys₂, values₂ with
  | [], [], [], [] => simp [entriesCompare, compareLists]
  | [key₁], [value₁], [key₂], [value₂] =>
    obtain ⟨htyped₁, hfresh₁, hnonnull₁⟩ := htyped₁ key₁ (by simp)
    obtain ⟨htyped₂, hfresh₂, hnonnull₂⟩ := htyped₂ key₂ (by simp)
    obtain ⟨hhash, hcompare⟩ := solitary_keys_agree (typeCompare_eq_comm.mp htypes) htyped₂ htyped₁
      hfresh₂ hfresh₁ hsolitary₂ hsolitary₁ hnonnull₂ hnonnull₁
    rw [entriesCompare_single value₁ value₂ numBuckets hhash hcompare]
    simp [compareLists]
  | _ :: _ :: _, _, _, _ => simp at hle

theorem Orderly.order_maps (h : Orderly family) (hs : s ⊆ valuesOf hashFunc family)
    (hkind : ∀ v ∈ s, v.kind = .object .map)
    (hmembers : ∀ v ∈ s, v.type?.isSome →
      TotalPreorderOn (valueCompare hashFunc) (agreeingMembers s v)) :
    TotalPreorderOn (valueCompare hashFunc) s := by
  have hshape := fun v hv => map_of_mem_valuesOf (hs hv) (hkind v hv)
  have hcontainer : ∀ v ∈ s, v.type?.isSome := by
    intro v hv
    obtain ⟨keyType, valueType, numBuckets, keys, values, hashv, -, rfl, -⟩ := hshape v hv
    rfl
  refine order_of_containers Value.carriedType Value.values ?_ ?_
    (h.order_types hs hkind hcontainer) fun v hv => hmembers v hv (hcontainer v hv)
  · intro v hv w hw
    obtain ⟨keyType₁, valueType₁, numBuckets₁, keys₁, values₁, hashv₁, hmem₁, rfl,
      hparallel₁, hapart₁, hkeys₁, hvalues₁⟩ := hshape v hv
    obtain ⟨keyType₂, valueType₂, numBuckets₂, keys₂, values₂, hashv₂, hmem₂, rfl,
      hparallel₂, hapart₂, hkeys₂, hvalues₂⟩ := hshape w hw
    rw [valueCompare_map]
    refine then_congr fun htypes => then_congr fun hcount => ?_
    have hlength : keys₁.length = keys₂.length := Std.LawfulEqOrd.compare_eq_iff_eq.mp hcount
    obtain ⟨hkeyTypes, hvalueTypes⟩ :
        typeCompare keyType₁ keyType₂ = .eq ∧ typeCompare valueType₁ valueType₂ = .eq := by
      simpa [typeCompare, Ordering.then_eq_eq] using htypes
    by_cases hcustom : valueType₁.isCustom = true
    · -- no entry can have a value of a custom type
      have hvalues : values₁ = [] := eq_nil_of_custom hcustom (fun v hv => (hvalues₁ v hv).1)
        fun v hv => (hvalues₁ v hv).2.2
      have hkeys : keys₁ = [] := List.eq_nil_of_length_eq_zero (by simp [hparallel₁, hvalues])
      simp [hkeys, hvalues, entriesCompare, compareLists, Value.values]
    · have hcustom₂ : ¬ valueType₂.isCustom = true := by
        rwa [← isCustom_eq_of_typeCompare_eq hvalueTypes]
      have hsolitary₁ := (h.maps _ _ hmem₁).resolve_right hcustom
      have hsolitary₂ := (h.maps _ _ hmem₂).resolve_right hcustom₂
      exact entriesCompare_of_solitary numBuckets₂ hkeyTypes hsolitary₁ hsolitary₂ hkeys₁ hkeys₂
        (length_le_one_of_solitary hsolitary₁ hapart₁ hkeys₁) hlength hparallel₁ hparallel₂
  · intro v hv w hw hcount
    obtain ⟨keyType₁, valueType₁, numBuckets₁, keys₁, values₁, hashv₁, -, rfl, hparallel₁, -⟩ :=
      hshape v hv
    obtain ⟨keyType₂, valueType₂, numBuckets₂, keys₂, values₂, hashv₂, -, rfl, hparallel₂, -⟩ :=
      hshape w hw
    exact hparallel₁.symm.trans (hcount.trans hparallel₂)

/-- The values of a family up to a size. -/
def valuesBelow (hashFunc : Bytes → UInt32) (family : Set CqlType) (n : Nat) : Set Value :=
  {value | value ∈ valuesOf hashFunc family ∧ sizeOf value < n}

/-- The values in containers below a size are below the size before it, in the
family that the containers hold. -/
theorem agreeingMembers_subset {n : Nat} (hset : ce ≠ .set) :
    agreeingMembers {v | v ∈ valuesBelow hashFunc family (n + 1) ∧ v.kind = .object ce} value ⊆
      valuesBelow hashFunc (heldTypes family value.carriedType) n := by
  rintro x ⟨w, ⟨⟨hw, hsize⟩, hkind⟩, htypes, hx⟩
  have hset' : w.kind ≠ .object .set := by simpa [hkind] using hset
  obtain ⟨type, hholds, htyped⟩ := holds_of_mem_values hw hset' hx
  have hcontainer : w.type?.isSome := by
    cases w <;> first | rfl | cases hx
  exact ⟨⟨type, ⟨_, carriedType_mem hw hcontainer, htypes, hholds⟩, htyped⟩,
    Nat.lt_of_lt_of_le (sizeOf_lt_of_mem_values hx) (Nat.lt_succ_iff.mp hsize)⟩

/-- The induction is on the size of the values; each class of containers hands
the members of containers that agree in their type to a family below. -/
theorem order_valuesBelow {type : CqlType} (h : ∀ family, Meets type family → Orderly family)
    (n : Nat) {family : Set CqlType} (hmeets : Meets type family) :
    TotalPreorderOn (valueCompare hashFunc) (valuesBelow hashFunc family n) := by
  induction n generalizing family with
  | zero =>
    have hempty : ∀ v, v ∉ valuesBelow hashFunc family 0 := fun v hv =>
      Nat.not_lt_zero _ hv.2
    exact ⟨fun v hv => absurd hv (hempty v), fun v hv => absurd hv (hempty v),
      fun v hv => absurd hv (hempty v)⟩
  | succ n ih =>
    have horderly := h family hmeets
    have hsub : ∀ kind, {v | v ∈ valuesBelow hashFunc family (n + 1) ∧ v.kind = kind} ⊆
        valuesOf hashFunc family := fun kind v hv => hv.1.1
    refine order_of_kinds fun kind => ?_
    cases kind with
    | object ce =>
      have hmembers : ce ≠ .set → ∀ v ∈ {v | v ∈ valuesBelow hashFunc family (n + 1) ∧
          v.kind = .object ce}, v.type?.isSome → TotalPreorderOn (valueCompare hashFunc)
          (agreeingMembers {v | v ∈ valuesBelow hashFunc family (n + 1) ∧ v.kind = .object ce} v) :=
        fun hset v hv hcontainer =>
          (ih (hmeets.held (carriedType_mem hv.1.1 hcontainer))).mono (agreeingMembers_subset hset)
      cases ce with
      | set => exact horderly.order_sets (hsub _) fun v hv => hv.2
      | map => exact horderly.order_maps (hsub _) (fun v hv => hv.2) (hmembers (by decide))
      | collection =>
        exact horderly.order_positional (.inl rfl) (hsub _) (fun v hv => hv.2)
          (hmembers (by decide))
      | tuple =>
        exact horderly.order_positional (.inr (.inl rfl)) (hsub _) (fun v hv => hv.2)
          (hmembers (by decide))
      | userTypeValue =>
        exact horderly.order_positional (.inr (.inr rfl)) (hsub _) (fun v hv => hv.2)
          (hmembers (by decide))
      | _ =>
        refine order_of_atoms fun v hkind => ?_
        cases v <;> first | exact ⟨_, rfl⟩ | cases hkind
    | _ =>
      refine order_of_atoms fun v hkind => ?_
      cases v <;> first | exact ⟨_, rfl⟩ | cases hkind

/-- If every family of types that meet is orderly, the comparison orders the
values of each. -/
theorem order_valuesOf {type : CqlType} (h : ∀ family, Meets type family → Orderly family)
    (hmeets : Meets type family) :
    TotalPreorderOn (valueCompare hashFunc) (valuesOf hashFunc family) := by
  have hbelow : ∀ n, TotalPreorderOn (valueCompare hashFunc)
      (valuesBelow hashFunc family n) := fun n => order_valuesBelow h n hmeets
  constructor
  · intro a ha
    exact (hbelow (sizeOf a + 1)).refl a ⟨ha, by omega⟩
  · intro a ha b hb
    exact (hbelow (sizeOf a + sizeOf b + 1)).swap a ⟨ha, by omega⟩ b ⟨hb, by omega⟩
  · intro a ha b hb c hc
    exact (hbelow (sizeOf a + sizeOf b + sizeOf c + 1)).trans a ⟨ha, by omega⟩ b
      ⟨hb, by omega⟩ c ⟨hc, by omega⟩

end

end Values
end ScyllaDriver
