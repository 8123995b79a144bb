import ScyllaDriver.Values.Value

/-!
# Equal values and their hashes

The tables of Sets and Maps find a key by its hash, so values that compare
equal should hash alike. Scalars do, and so do Collections, Tuples and user
type values of such members. Sets and Maps do not: the comparison of two Sets
looks the members of one up in the other, in any order, while the hash
combines the members in the order of their insertion.

The law holds for all values that do not compare equal, and for those that do
if their Sets and Maps list equal members in the same order and no container
holds an outdated hash.
-/

namespace ScyllaDriver
namespace Values

open CString

section

variable (hashFunc : Bytes → UInt32)

mutual
/-- Where a Set or Map of one value meets one of the other, their entries are
equal position by position: they were inserted in the same order. -/
def SameOrder : Value → Value → Prop
  | .collection _ values₁ _, .collection _ values₂ _ => SameOrders values₁ values₂
  | .set _ _ _ values₁ _, .set _ _ _ values₂ _ =>
    valuesCompare hashFunc values₁ values₂ = .eq ∧ SameOrders values₁ values₂
  | .map _ _ _ keys₁ values₁ _, .map _ _ _ keys₂ values₂ _ =>
    (valuesCompare hashFunc keys₁ keys₂ = .eq ∧ SameOrders keys₁ keys₂) ∧
      valuesCompare hashFunc values₁ values₂ = .eq ∧ SameOrders values₁ values₂
  | .tuple _ _ values₁ _, .tuple _ _ values₂ _ => SameOrders values₁ values₂
  | .userTypeValue _ _ values₁ _, .userTypeValue _ _ values₂ _ =>
    SameOrders values₁ values₂
  | _, _ => True

/-- The same for two lists of members, position by position. -/
def SameOrders : List Value → List Value → Prop
  | value₁ :: values₁, value₂ :: values₂ =>
    SameOrder value₁ value₂ ∧ SameOrders values₁ values₂
  | _, _ => True

end

end

section

variable {hashFunc : Bytes → UInt32}

/-- The members' hashes agree, if the law holds for each of the first list. -/
theorem valueHashes_eq_of_valuesCompare_eq
    {values₁ values₂ : List Value}
    (hlaw : ∀ value₁ ∈ values₁, ∀ value₂, Fresh hashFunc value₁ →
      Fresh hashFunc value₂ → SameOrder hashFunc value₁ value₂ →
        valueCompare hashFunc value₁ value₂ = .eq →
          valueHash hashFunc value₁ = valueHash hashFunc value₂)
    (hlength : values₁.length = values₂.length)
    (hfresh₁ : AllFresh hashFunc values₁)
    (hfresh₂ : AllFresh hashFunc values₂)
    (horder : SameOrders hashFunc values₁ values₂)
    (hcompare : valuesCompare hashFunc values₁ values₂ = .eq) :
    valueHashes hashFunc values₁ = valueHashes hashFunc values₂ := by
  induction values₁ generalizing values₂ with
  | nil =>
    cases values₂ with
    | nil => rfl
    | cons value₂ values₂ => simp at hlength
  | cons value₁ values₁ ih =>
    cases values₂ with
    | nil => simp at hlength
    | cons value₂ values₂ =>
      rw [valuesCompare, Ordering.then_eq_eq] at hcompare
      have hhead := hlaw value₁ List.mem_cons_self value₂ hfresh₁.1 hfresh₂.1 horder.1 hcompare.1
      have htail := ih (fun v hv => hlaw v (List.mem_cons_of_mem value₁ hv))
        (Nat.succ.inj hlength) hfresh₁.2 hfresh₂.2 horder.2 hcompare.2
      rw [valueHashes, valueHashes, hhead, htail]

/-- Up-to-date caches over equal hashes of members agree. -/
theorem getD_foldl_eq_of_valuesCompare_eq
    {values₁ values₂ : List Value}
    {hashv₁ hashv₂ : Option UInt32}
    (hhashes : valueHashes hashFunc values₁ = valueHashes hashFunc values₂)
    (hcached₁ : ∀ cached ∈ hashv₁, cached = (valueHashes hashFunc values₁).foldl combineHash 0)
    (hcached₂ : ∀ cached ∈ hashv₂, cached = (valueHashes hashFunc values₂).foldl combineHash 0) :
    hashv₁.getD ((valueHashes hashFunc values₁).foldl combineHash 0) =
      hashv₂.getD ((valueHashes hashFunc values₂).foldl combineHash 0) := by
  rw [getD_of_fresh hcached₁, getD_of_fresh hcached₂, hhashes]

/-- Two values that compare equal have one hash, if their Sets and Maps were filled in one
order and no hash in them is out of date. -/
theorem valueHash_eq_of_sameOrder
    (value₁ value₂ : Value)
    (hfresh₁ : Fresh hashFunc value₁)
    (hfresh₂ : Fresh hashFunc value₂)
    (horder : SameOrder hashFunc value₁ value₂)
    (hcompare : valueCompare hashFunc value₁ value₂ = .eq) :
    valueHash hashFunc value₁ = valueHash hashFunc value₂ := by
  induction value₁ using Value.members_induction generalizing value₂ with
  | atom a₁ =>
    have hkind := kind_eq_of_valueCompare_eq hcompare
    cases value₂ with
    | atom a₂ =>
      rw [valueCompare_atom hkind] at hcompare
      exact Atom.hash_eq_of_contentsCompare_eq hashFunc hkind hcompare
    | _ => cases a₁ <;> cases hkind
  | collection type₁ values₁ hashv₁ ih =>
    obtain ⟨type₂, values₂, hashv₂, rfl⟩ :=
      Value.eq_collection_of_kind (kind_eq_of_valueCompare_eq hcompare).symm
    simp only [valueCompare_collection, Ordering.then_eq_eq,
      Std.LawfulEqCmp.compare_eq_iff_eq] at hcompare
    have hhashes := valueHashes_eq_of_valuesCompare_eq ih hcompare.2.1 hfresh₁.2
      hfresh₂.2 horder hcompare.2.2
    exact getD_foldl_eq_of_valuesCompare_eq hhashes hfresh₁.1 hfresh₂.1
  | set type₁ numBuckets₁ hashes₁ values₁ hashv₁ ih =>
    obtain ⟨type₂, numBuckets₂, hashes₂, values₂, hashv₂, rfl⟩ :=
      Value.eq_set_of_kind (kind_eq_of_valueCompare_eq hcompare).symm
    simp only [valueCompare_set, Ordering.then_eq_eq, Std.LawfulEqCmp.compare_eq_iff_eq] at hcompare
    have hhashes := valueHashes_eq_of_valuesCompare_eq ih hcompare.2.1 hfresh₁.2.2
      hfresh₂.2.2 horder.2 horder.1
    exact getD_foldl_eq_of_valuesCompare_eq hhashes hfresh₁.2.1 hfresh₂.2.1
  | map type₁ numBuckets₁ hashes₁ keys₁ values₁ hashv₁ ihkeys ihvalues =>
    obtain ⟨type₂, numBuckets₂, hashes₂, keys₂, values₂, hashv₂, rfl⟩ :=
      Value.eq_map_of_kind (kind_eq_of_valueCompare_eq hcompare).symm
    simp only [valueCompare_map, Ordering.then_eq_eq, Std.LawfulEqCmp.compare_eq_iff_eq] at hcompare
    obtain ⟨⟨-, hparallel₁⟩, hcached₁, hkeys₁, hvalues₁⟩ := hfresh₁
    obtain ⟨⟨-, hparallel₂⟩, hcached₂, hkeys₂, hvalues₂⟩ := hfresh₂
    have hlength : values₁.length = values₂.length := by
      rw [← hparallel₁, ← hparallel₂, hcompare.2.1]
    have hkeys := valueHashes_eq_of_valuesCompare_eq ihkeys hcompare.2.1 hkeys₁ hkeys₂
      horder.1.2 horder.1.1
    have hvalues := valueHashes_eq_of_valuesCompare_eq ihvalues hlength hvalues₁ hvalues₂
      horder.2.2 horder.2.1
    rw [valueHash, valueHash, getD_of_fresh hcached₁, getD_of_fresh hcached₂, hkeys, hvalues]
  | tuple type₁ keys₁ values₁ hashv₁ ih =>
    obtain ⟨type₂, keys₂, values₂, hashv₂, rfl⟩ :=
      Value.eq_tuple_of_kind (kind_eq_of_valueCompare_eq hcompare).symm
    simp only [valueCompare_tuple, Ordering.then_eq_eq,
      Std.LawfulEqCmp.compare_eq_iff_eq] at hcompare
    have hhashes := valueHashes_eq_of_valuesCompare_eq ih hcompare.2.1 hfresh₁.2
      hfresh₂.2 horder hcompare.2.2
    exact getD_foldl_eq_of_valuesCompare_eq hhashes hfresh₁.1 hfresh₂.1
  | userTypeValue type₁ keys₁ values₁ hashv₁ ih =>
    obtain ⟨type₂, keys₂, values₂, hashv₂, rfl⟩ :=
      Value.eq_userTypeValue_of_kind (kind_eq_of_valueCompare_eq hcompare).symm
    simp only [valueCompare_userTypeValue, Ordering.then_eq_eq,
      Std.LawfulEqCmp.compare_eq_iff_eq] at hcompare
    have hhashes := valueHashes_eq_of_valuesCompare_eq ih hcompare.2.1 hfresh₁.2
      hfresh₂.2 horder hcompare.2.2
    exact getD_foldl_eq_of_valuesCompare_eq hhashes hfresh₁.1 hfresh₂.1

/-- The law of hash and comparison for two values. It asks for an order of insertion, and for
hashes up to date, only where the values compare equal. -/
theorem valueHash_eq_of_valueCompare_eq
    (value₁ value₂ : Value)
    (h : valueCompare hashFunc value₁ value₂ = .eq →
      Fresh hashFunc value₁ ∧ Fresh hashFunc value₂ ∧ SameOrder hashFunc value₁ value₂) :
    valueCompare hashFunc value₁ value₂ = .eq →
      valueHash hashFunc value₁ = valueHash hashFunc value₂ := by
  intro hcompare
  obtain ⟨hfresh₁, hfresh₂, horder⟩ := h hcompare
  exact valueHash_eq_of_sameOrder value₁ value₂ hfresh₁ hfresh₂ horder hcompare

end

section

variable {hashFunc : Bytes → UInt32}

/-- A Set of atoms filled in the given order, in a new table. -/
def atomSet (hashFunc : Bytes → UInt32) (type : ScalarType) (atoms : List Atom) : Value :=
  .set (.set (.scalar type)) 32 (valueHashes hashFunc (atoms.map .atom)) (atoms.map .atom) none

theorem fresh_atomSet (type : ScalarType) (atoms : List Atom) :
    Fresh hashFunc (atomSet hashFunc type atoms) := by
  refine ⟨rfl, by simp, allFresh_iff.mpr ?_⟩
  intro v hv
  obtain ⟨a, -, rfl⟩ := List.mem_map.mp hv
  trivial

/-- The order of insertion does not matter to the comparison. -/
theorem valueCompare_atomSet_of_perm
    (type : ScalarType)
    {atoms₁ atoms₂ : List Atom}
    (h : atoms₁.Perm atoms₂) :
    valueCompare hashFunc (atomSet hashFunc type atoms₁) (atomSet hashFunc type atoms₂) = .eq := by
  have hfound : ∀ v ∈ atoms₁.map Value.atom,
      findEntry hashFunc 32 (valueHashes hashFunc (atoms₂.map .atom))
        (atoms₂.map .atom) v ≠ none := by
    intro v hv
    rw [findEntry_ne_none_iff]
    refine ⟨v, (h.map _).mem_iff.mp hv, rfl, ?_⟩
    obtain ⟨a, -, rfl⟩ := List.mem_map.mp hv
    exact valueCompare_atom_self a
  simp [atomSet, h.length_eq, (membersCompare_eq_iff _ _ _ _).mpr hfound]

theorem valueHash_atomSet (type : ScalarType) (atoms : List Atom) :
    valueHash hashFunc (atomSet hashFunc type atoms) =
      (atoms.map (Atom.hash hashFunc)).foldl combineHash 0 := by
  have hhashes : valueHashes hashFunc (atoms.map .atom) = atoms.map (Atom.hash hashFunc) := by
    induction atoms with
    | nil => rfl
    | cons a atoms ih => simp [valueHashes, valueHash, ih]
  simp [atomSet, valueHash, hhashes]

/-- The Sets of 1 and a NaN, with two different NaNs. -/
theorem valueHash_eq_of_valueCompare_eq_nan :
    let set₁ := atomSet (fun _ => 0) .double
      [.double 0x3ff0000000000000, .double 0x7ff8000000000001]
    let set₂ := atomSet (fun _ => 0) .double
      [.double 0x3ff0000000000000, .double 0xfff8000000000000]
    valueCompare (fun _ => 0) set₁ set₂ = .eq ∧
      valueHash (fun _ => 0) set₁ = valueHash (fun _ => 0) set₂ := by
  have hcompare : valueCompare (fun _ => 0)
      (atomSet (fun _ => 0) .double [.double 0x3ff0000000000000, .double 0x7ff8000000000001])
      (atomSet (fun _ => 0) .double
        [.double 0x3ff0000000000000, .double 0xfff8000000000000]) = .eq := by
    decide +kernel
  refine ⟨hcompare, valueHash_eq_of_valueCompare_eq _ _ (fun _ => ?_) hcompare⟩
  refine ⟨fresh_atomSet _ _, fresh_atomSet _ _, ?_, trivial, trivial, trivial⟩
  decide +kernel

-- two orders that happen to mix to one hash
example : [bigintHash 1478, bigintHash 1988].foldl combineHash 0 =
    [bigintHash 1988, bigintHash 1478].foldl combineHash 0 := by
  decide

end

/-- `zend_inline_hash_func`, in 32 bits. -/
def zendInlineHashFunc (s : Bytes) : UInt32 :=
  s.foldl (fun h c => h * 33 + c.toUInt32) 5381

/-- The Sets of 1 and 2 and of 2 and 1 compare equal and have different hashes. -/
theorem set_hash_depends_on_order :
    (Fresh zendInlineHashFunc (atomSet zendInlineHashFunc .int [.long 1, .long 2]) ∧
      Fresh zendInlineHashFunc (atomSet zendInlineHashFunc .int [.long 2, .long 1])) ∧
    valueCompare zendInlineHashFunc (atomSet zendInlineHashFunc .int [.long 1, .long 2])
      (atomSet zendInlineHashFunc .int [.long 2, .long 1]) = .eq ∧
    valueHash zendInlineHashFunc (atomSet zendInlineHashFunc .int [.long 1, .long 2]) ≠
      valueHash zendInlineHashFunc (atomSet zendInlineHashFunc .int [.long 2, .long 1]) := by
  refine ⟨⟨fresh_atomSet _ _, fresh_atomSet _ _⟩,
    valueCompare_atomSet_of_perm .int (List.Perm.swap _ _ []), ?_⟩
  rw [valueHash_atomSet, valueHash_atomSet]
  show [bigintHash 1, bigintHash 2].foldl combineHash 0 ≠
    [bigintHash 2, bigintHash 1].foldl combineHash 0
  decide

end Values
end ScyllaDriver
