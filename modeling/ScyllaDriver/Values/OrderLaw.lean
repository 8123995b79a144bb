import ScyllaDriver.Values.Order

/-!
# The comparison orders the values of a type only if its families are orderly

The converse of `order_valuesOf`. If a family is not orderly, empty containers
show that the order of its types is not transitive, or two one-element Sets or
Maps are each greater than the other. A failure among the members of
containers is one among the containers: wrap each member in a container of its
own.
-/

namespace ScyllaDriver
namespace Values

open CString Comparator

section

variable {hashFunc : Bytes → UInt32} {family : Set CqlType}

variable {type : CqlType}

/-- A container that carries a type of the family's is a value of the family. -/
theorem mem_valuesOf
    {value : Value}
    (hmem : type ∈ carried family)
    (htyped : HasType hashFunc type value)
    (hvalue : value.type? = some type)
    (hfresh : Fresh hashFunc value) :
    value ∈ valuesOf hashFunc family := by
  obtain ⟨declared, hdeclared, hown⟩ := hmem
  exact ⟨declared, hdeclared, htyped.of_carried hvalue hown, hfresh⟩

theorem order_types_of_order_values
    (h : TotalPreorderOn (valueCompare hashFunc) (valuesOf hashFunc family))
    (ce : ValueClass) :
    TotalPreorderOn typeCompare {own | own ∈ carried family ∧ own.containerClass = some ce} := by
  refine h.transfer
    (fun type value => type.containerClass = some ce ∧ value = type.emptyValue) ?_ ?_
  · rintro type ⟨hmem, hclass⟩
    exact ⟨type.emptyValue, mem_valuesOf hmem (HasType.emptyValue type)
      (emptyValue_container hclass).2.1 (fresh_emptyValue type), hclass, rfl⟩
  · rintro type₁ _ type₂ _ ⟨hclass₁, rfl⟩ ⟨hclass₂, rfl⟩
    obtain ⟨hkind₁, htype₁, hcount₁⟩ := emptyValue_container hclass₁
    obtain ⟨hkind₂, htype₂, hcount₂⟩ := emptyValue_container hclass₂
    exact (valueCompare_of_count_zero (hkind₁.trans hkind₂.symm) htype₁ htype₂ hcount₁ hcount₂).symm

theorem findEntry_single_of_ne
    {stored key : Value}
    (numBuckets hashv : UInt32)
    (h : valueCompare hashFunc stored key ≠ .eq) :
    findEntry hashFunc numBuckets [hashv] [stored] key = none := by
  simp [findEntry, h]

theorem valueCompare_singleSet (valueType : CqlType) {value₁ value₂ : Value}
    (h : valueCompare hashFunc value₂ value₁ ≠ .eq) :
    valueCompare hashFunc (singleSet hashFunc valueType value₁)
      (singleSet hashFunc valueType value₂) = .gt := by
  simp [singleSet, membersCompare, findEntry_single_of_ne _ _ h]

theorem valueCompare_singleMap (keyType valueType : CqlType) {key₁ key₂ : Value}
    (value₁ value₂ : Value) (h : valueCompare hashFunc key₂ key₁ ≠ .eq) :
    valueCompare hashFunc (singleMap hashFunc keyType valueType key₁ value₁)
      (singleMap hashFunc keyType valueType key₂ value₂) = .gt := by
  simp [singleMap, entriesCompare, findEntry_single_of_ne _ _ h]

variable {valueType : CqlType}

theorem solitary_of_order_values
    (h : TotalPreorderOn (valueCompare hashFunc) (valuesOf hashFunc family))
    (hmem : .set valueType ∈ carried family) :
    valueType.Solitary := by
  by_contra hsolitary
  have htwo : HasTwoValues hashFunc valueType := hasTwoValues_of_not_solitary hsolitary
  obtain ⟨v, w, ⟨htyped₁, hfresh₁, hnonnull₁⟩, ⟨htyped₂, hfresh₂, hnonnull₂⟩, hne, hne'⟩ := htwo
  have hswap := h.swap
    _ (mem_valuesOf hmem (htyped₁.singleSet hnonnull₁) rfl (fresh_singleSet hfresh₁))
    _ (mem_valuesOf hmem (htyped₂.singleSet hnonnull₂) rfl (fresh_singleSet hfresh₂))
  rw [valueCompare_singleSet valueType hne, valueCompare_singleSet valueType hne'] at hswap
  cases hswap

theorem solitary_or_isCustom_of_order_values
    (h : TotalPreorderOn (valueCompare hashFunc) (valuesOf hashFunc family))
    {keyType : CqlType}
    (hmem : .map keyType valueType ∈ carried family) :
    keyType.Solitary ∨ valueType.isCustom = true := by
  by_contra hor
  obtain ⟨hsolitary, hcustom⟩ := not_or.mp hor
  have htwo : HasTwoValues hashFunc keyType := hasTwoValues_of_not_solitary hsolitary
  obtain ⟨v, w, ⟨htyped₁, hfresh₁, hnonnull₁⟩, ⟨htyped₂, hfresh₂, hnonnull₂⟩, hne, hne'⟩ := htwo
  obtain ⟨x, htyped, hfresh, hnonnull⟩ : ∃ x, HasType hashFunc valueType x ∧
      Fresh hashFunc x ∧ x ≠ .atom .null := exists_value (Bool.not_eq_true _ ▸ hcustom)
  have hswap := h.swap
    _ (mem_valuesOf hmem (htyped₁.singleMap hnonnull₁ htyped hnonnull) rfl
      (fresh_singleMap hfresh₁ hfresh))
    _ (mem_valuesOf hmem (htyped₂.singleMap hnonnull₂ htyped hnonnull) rfl
      (fresh_singleMap hfresh₂ hfresh))
  rw [valueCompare_singleMap keyType valueType x x hne,
    valueCompare_singleMap keyType valueType x x hne'] at hswap
  cases hswap

theorem orderly_of_order_values
    (h : TotalPreorderOn (valueCompare hashFunc) (valuesOf hashFunc family)) :
    Orderly family where
  types := order_types_of_order_values h
  sets _ hmem := solitary_of_order_values h hmem
  maps _ _ hmem := solitary_or_isCustom_of_order_values h hmem

/-- Null comes before every other value, so it can be left out. -/
theorem order_of_nonnull {s : Set Value}
    (h : TotalPreorderOn (valueCompare hashFunc) {v | v ∈ s ∧ v ≠ .atom .null}) :
    TotalPreorderOn (valueCompare hashFunc) s := by
  refine order_of_kinds fun kind => ?_
  by_cases hnull : kind = .null
  · subst hnull
    refine order_of_atoms fun v hkind => ?_
    cases v <;> first | exact ⟨_, rfl⟩ | cases hkind
  · refine h.mono ?_
    rintro v ⟨hv, rfl⟩
    refine ⟨hv, ?_⟩
    rintro rfl
    exact hnull rfl

theorem Orderly.typeCompare_eq
    (h : Orderly family)
    {type₁ type₂ : CqlType}
    (hmem : type ∈ carried family)
    (hmem₁ : type₁ ∈ carried family)
    (hmem₂ : type₂ ∈ carried family)
    (hcontainer : type₁.containerClass.isSome)
    (h₁ : typeCompare type type₁ = .eq)
    (h₂ : typeCompare type type₂ = .eq) :
    typeCompare type₁ type₂ = .eq := by
  obtain ⟨ce, hclass₁⟩ := Option.isSome_iff_exists.mp hcontainer
  have hclass := (containerClass_eq_of_typeCompare_eq h₁).trans hclass₁
  have hclass₂ := (containerClass_eq_of_typeCompare_eq h₂).symm.trans hclass
  have hcongr := (h.types ce).congr_left (c := type₂) ⟨hmem, hclass⟩ ⟨hmem₁, hclass₁⟩
    ⟨hmem₂, hclass₂⟩ h₁
  exact hcongr.symm.trans h₂

theorem containerClass_of_lone (hlone : type.isLone = true) (hcustom : type.isCustom = false) :
    ∃ ce, type.containerClass = some ce := by
  cases type with
  | scalar scalarType => cases hlone
  | custom className => cases hcustom
  | _ => exact ⟨_, rfl⟩

/-- Maps that hold a value each under the empty key are compared by the values. -/
theorem valueCompare_singleMap_of_solitary
    {keyType₁ keyType₂ valueType₁ valueType₂ : CqlType}
    (htypes : typeCompare (.map keyType₁ valueType₁) (.map keyType₂ valueType₂) = .eq)
    (hsolitary₁ : keyType₁.Solitary)
    (hsolitary₂ : keyType₂.Solitary)
    (hcustom₁ : keyType₁.isCustom = false)
    (hcustom₂ : keyType₂.isCustom = false)
    (value₁ value₂ : Value) :
    valueCompare hashFunc (singleMap hashFunc keyType₁ valueType₁ keyType₁.emptyValue value₁)
        (singleMap hashFunc keyType₂ valueType₂ keyType₂.emptyValue value₂) =
      valueCompare hashFunc value₁ value₂ := by
  have hkeyTypes : typeCompare keyType₂ keyType₁ = .eq := by
    rw [typeCompare, Ordering.then_eq_eq] at htypes
    exact typeCompare_eq_comm.mp htypes.1
  obtain ⟨ce₁, hclass₁⟩ := containerClass_of_lone hsolitary₁.lone hcustom₁
  obtain ⟨ce₂, hclass₂⟩ := containerClass_of_lone hsolitary₂.lone hcustom₂
  have htyped : ∀ type : CqlType, HasType hashFunc type type.emptyValue := HasType.emptyValue
  obtain ⟨hhash, hcompare⟩ := solitary_keys_agree hkeyTypes (htyped keyType₂) (htyped keyType₁)
    (fresh_emptyValue keyType₂) (fresh_emptyValue keyType₁) hsolitary₂ hsolitary₁
    (ne_null_of_kind (emptyValue_container hclass₂).1)
    (ne_null_of_kind (emptyValue_container hclass₁).1)
  have hentries := entriesCompare_single value₁ value₂ 32 hhash hcompare
  rw [valueHashes, valueHashes] at hentries
  simp [singleMap, htypes, hentries]

/-- A container that holds one value only, in a Map under the empty key. -/
inductive Wraps (hashFunc : Bytes → UInt32) (x : Value) : CqlType → Value → Prop
  | list (valueType : CqlType) : Wraps hashFunc x (.list valueType) (singleCollection valueType x)
  | map {keyType : CqlType} (valueType : CqlType) (hsolitary : keyType.Solitary)
      (hkey : keyType.isCustom = false) :
      Wraps hashFunc x (.map keyType valueType)
        (singleMap hashFunc keyType valueType keyType.emptyValue x)
  | tuple (types : List CqlType) (index : Nat) :
      Wraps hashFunc x (.tuple types) (singleTuple types index x)
  | udt (keyspace typeName : Option Bytes) (types : List (Bytes × CqlType)) (name : Bytes) :
      Wraps hashFunc x (.udt keyspace typeName types)
        (singleUserTypeValue keyspace typeName types name x)

theorem Orderly.exists_wraps (h : Orderly family) {own : CqlType} {x : Value}
    (hmem : own ∈ carried family) (hholds : Holds own type) (htyped : HasType hashFunc type x)
    (hfresh : Fresh hashFunc x) (hnonnull : x ≠ .atom .null) :
    ∃ w ∈ valuesOf hashFunc family, Wraps hashFunc x own w := by
  cases hholds with
  | list =>
    exact ⟨_, mem_valuesOf hmem htyped.singleCollection rfl (fresh_singleCollection hfresh),
      .list _⟩
  | tuple htype =>
    obtain ⟨index, hindex⟩ := List.mem_iff_getElem?.mp htype
    exact ⟨_, mem_valuesOf hmem (htyped.singleTuple hindex) rfl (fresh_singleTuple hfresh),
      .tuple _ index⟩
  | udt hname =>
    exact ⟨_, mem_valuesOf hmem (htyped.singleUserTypeValue hname) rfl
      (fresh_singleUserTypeValue hfresh), .udt _ _ _ _⟩
  | @map keyType _ hkey =>
    have hsolitary : keyType.Solitary := (h.maps _ _ hmem).resolve_right fun hvalue =>
      hnonnull (htyped.eq_null_of_custom hvalue)
    obtain ⟨ce, hclass⟩ := containerClass_of_lone hsolitary.lone hkey
    have hempty := ne_null_of_kind (emptyValue_container hclass).1
    exact ⟨_, mem_valuesOf hmem ((HasType.emptyValue keyType).singleMap hempty htyped hnonnull) rfl
      (fresh_singleMap (fresh_emptyValue keyType) hfresh), .map _ hsolitary hkey⟩

/-- Containers that agree in their type are compared by the one value in each. -/
theorem Wraps.valueCompare_eq {own₁ own₂ : CqlType} {x y v w : Value}
    (h₁ : Wraps hashFunc x own₁ v) (h₂ : Wraps hashFunc y own₂ w)
    (hagree : typeCompare own₁ own₂ = .eq) :
    valueCompare hashFunc v w = valueCompare hashFunc x y := by
  have hclass := containerClass_eq_of_typeCompare_eq hagree
  cases h₁ <;> cases h₂ <;> first | (cases hclass; done) | skip
  case map.map hsolitary₁ hkey₁ _ _ hsolitary₂ hkey₂ =>
    exact valueCompare_singleMap_of_solitary hagree hsolitary₁ hsolitary₂ hkey₁ hkey₂ x y
  all_goals
    simp [singleCollection, singleTuple, singleUserTypeValue, hagree, valuesCompare]

/-- A failure among the values in containers is one among the containers. -/
theorem order_heldTypes
    (h : TotalPreorderOn (valueCompare hashFunc) (valuesOf hashFunc family))
    {own : CqlType}
    (hmem : own ∈ carried family) :
    TotalPreorderOn (valueCompare hashFunc) (valuesOf hashFunc (heldTypes family own)) := by
  have horderly := orderly_of_order_values h
  refine order_of_nonnull (h.transfer (fun x w => ∃ other ∈ carried family,
    typeCompare own other = .eq ∧ Wraps hashFunc x other w) ?_ ?_)
  · rintro x ⟨⟨type, ⟨other, hmem', hagree, hholds⟩, htyped, hfresh⟩, hnonnull⟩
    obtain ⟨w, hw, hwraps⟩ := horderly.exists_wraps hmem' hholds htyped hfresh hnonnull
    exact ⟨w, hw, other, hmem', hagree, hwraps⟩
  · rintro x v y w ⟨own₁, hmem₁, h₁, hwraps₁⟩ ⟨own₂, hmem₂, h₂, hwraps₂⟩
    have hcontainer : own₁.containerClass.isSome := by cases hwraps₁ <;> rfl
    have hagree := horderly.typeCompare_eq hmem hmem₁ hmem₂ hcontainer h₁ h₂
    exact (hwraps₁.valueCompare_eq hwraps₂ hagree).symm

/-- An order on the values of a type is one on the values of every family that
meets in their comparison. -/
theorem order_of_meets (h : TotalPreorderOn (valueCompare hashFunc) (valuesOf hashFunc {type}))
    (hmeets : Meets type family) :
    TotalPreorderOn (valueCompare hashFunc) (valuesOf hashFunc family) := by
  induction hmeets with
  | base => exact h
  | held _ hmem ih => exact order_heldTypes ih hmem

/-- The comparison is a total preorder on the values of a type exactly when
every family of types whose values meet is orderly: no Set or Map below can
have two different keys, and containers that meet are ordered by their types. -/
theorem valueCompare_orders_iff
    (hashFunc : Bytes → UInt32)
    (type : CqlType) :
    TotalPreorderOn (valueCompare hashFunc)
        {value | HasType hashFunc type value ∧ Fresh hashFunc value} ↔
      ∀ family, Meets type family → Orderly family := by
  have hvalues : {value | HasType hashFunc type value ∧ Fresh hashFunc value} =
      valuesOf hashFunc {type} := by
    ext value
    simp [valuesOf]
  rw [hvalues]
  constructor
  · intro h family hmeets
    exact orderly_of_order_values (order_of_meets h hmeets)
  · intro h
    exact order_valuesOf h Meets.base

end

/-- The Sets of ints with the one member 1 and with the one member 2 are each
greater than the other. -/
theorem sets_each_greater :
    ((HasType zendInlineHashFunc (.set (.scalar .int))
          (singleSet zendInlineHashFunc (.scalar .int) (.atom (.long 1))) ∧
        Fresh zendInlineHashFunc
          (singleSet zendInlineHashFunc (.scalar .int) (.atom (.long 1)))) ∧
      (HasType zendInlineHashFunc (.set (.scalar .int))
          (singleSet zendInlineHashFunc (.scalar .int) (.atom (.long 2))) ∧
        Fresh zendInlineHashFunc
          (singleSet zendInlineHashFunc (.scalar .int) (.atom (.long 2))))) ∧
    valueCompare zendInlineHashFunc
        (singleSet zendInlineHashFunc (.scalar .int) (.atom (.long 1)))
        (singleSet zendInlineHashFunc (.scalar .int) (.atom (.long 2))) = .gt ∧
      valueCompare zendInlineHashFunc
        (singleSet zendInlineHashFunc (.scalar .int) (.atom (.long 2)))
        (singleSet zendInlineHashFunc (.scalar .int) (.atom (.long 1))) = .gt := by
  have hint : ∀ n : Int64, HasType zendInlineHashFunc (.scalar .int) (.atom (.long n)) :=
    fun n => .scalar rfl
  have hset : ∀ n : Int64, HasType zendInlineHashFunc (.set (.scalar .int))
        (singleSet zendInlineHashFunc (.scalar .int) (.atom (.long n))) ∧
      Fresh zendInlineHashFunc
        (singleSet zendInlineHashFunc (.scalar .int) (.atom (.long n))) := fun n =>
    ⟨(hint n).singleSet (by simp), fresh_singleSet trivial⟩
  refine ⟨⟨hset 1, hset 2⟩, valueCompare_singleSet _ ?_, valueCompare_singleSet _ ?_⟩
  · rw [valueCompare_atom (show (Atom.long 2).kind = (Atom.long 1).kind from rfl)]
    decide
  · rw [valueCompare_atom (show (Atom.long 1).kind = (Atom.long 2).kind from rfl)]
    decide

end Values
end ScyllaDriver
