import ScyllaDriver.Values.Types

/-!
# Where the comparison of types is an order

`php_scylladb_type_compare` orders types by code and takes `text` and `varchar` for
one type, but the codes of `timestamp` and `uuid` lie between the two: `text` is below
them and `varchar` above. Two custom types agree whatever their classes are.

A vocabulary says which scalar types and which custom classes may occur. Over a
vocabulary that avoids both, the comparison is an order on types of any nesting, and
it finds two types equal exactly if they are the same.
-/

namespace ScyllaDriver
namespace Values

open CString Comparator

/-- The scalar types and the custom classes that may occur. -/
structure Vocabulary where
  scalars : Set ScalarType
  classes : Set Bytes

mutual
/-- The type is made of the vocabulary, and its user types have a keyspace and a
name. -/
def CqlType.Over (V : Vocabulary) : CqlType → Prop
  | .scalar type => type ∈ V.scalars
  | .custom className => className ∈ V.classes
  | .list valueType => valueType.Over V
  | .map keyType valueType => keyType.Over V ∧ valueType.Over V
  | .set valueType => valueType.Over V
  | .udt keyspace typeName types => keyspace.isSome ∧ typeName.isSome ∧ FieldsOver V types
  | .tuple types => TypesOver V types

def TypesOver (V : Vocabulary) : List CqlType → Prop
  | [] => True
  | type :: types => type.Over V ∧ TypesOver V types

def FieldsOver (V : Vocabulary) : List (Bytes × CqlType) → Prop
  | [] => True
  | (_, type) :: types => type.Over V ∧ FieldsOver V types

end

mutual
/-- The type with `varchar` for `text`. -/
def CqlType.unalias : CqlType → CqlType
  | .scalar .text => .scalar .varchar
  | .scalar type => .scalar type
  | .custom className => .custom className
  | .list valueType => .list valueType.unalias
  | .map keyType valueType => .map keyType.unalias valueType.unalias
  | .set valueType => .set valueType.unalias
  | .udt keyspace typeName types => .udt keyspace typeName (unaliasFields types)
  | .tuple types => .tuple (unaliasTypes types)

def unaliasTypes : List CqlType → List CqlType
  | [] => []
  | type :: types => type.unalias :: unaliasTypes types

def unaliasFields : List (Bytes × CqlType) → List (Bytes × CqlType)
  | [] => []
  | (key, type) :: types => (key, type.unalias) :: unaliasFields types

end

/-- The same type, where `text` and `varchar` are aliases. -/
def SameType (type₁ type₂ : CqlType) : Prop :=
  type₁.unalias = type₂.unalias

/-- At most one custom class, and not both names of the string type together with a
type whose code lies between theirs. -/
structure Vocabulary.Clear (V : Vocabulary) : Prop where
  classes_eq : ∀ c ∈ V.classes, ∀ c' ∈ V.classes, c = c'
  scalars : ¬ (.text ∈ V.scalars ∧ .varchar ∈ V.scalars ∧
    (.timestamp ∈ V.scalars ∨ .uuid ∈ V.scalars))

section

variable {V : Vocabulary} {a b c : CqlType}

theorem code_injective_scalar (type : ScalarType) (h : a.code = type.code) : a = .scalar type := by
  cases a with
  | scalar type' =>
    cases type' <;> cases type <;> first | rfl | (exact absurd h (by decide))
  | _ => cases type <;> exact absurd h (by simp [CqlType.code, ScalarType.code])

theorem ScalarType.code_bounds (type : ScalarType) : 0 < type.code ∧ type.code < 0x0020 := by
  cases type <;> decide

/-! The code says how a type is nested. -/

theorem exists_custom (h : a.code = 0x0000) : ∃ className, a = .custom className := by
  cases a with
  | custom className => exact ⟨className, rfl⟩
  | scalar type => exact absurd h type.code_bounds.1.ne'
  | _ => cases h

theorem exists_list (h : a.code = 0x0020) : ∃ valueType, a = .list valueType := by
  cases a with
  | list valueType => exact ⟨valueType, rfl⟩
  | scalar type => exact absurd h type.code_bounds.2.ne
  | _ => cases h

theorem exists_map (h : a.code = 0x0021) : ∃ keyType valueType, a = .map keyType valueType := by
  cases a with
  | map keyType valueType => exact ⟨keyType, valueType, rfl⟩
  | scalar type => exact absurd h (type.code_bounds.2.trans (by decide)).ne
  | _ => cases h

theorem exists_set (h : a.code = 0x0022) : ∃ valueType, a = .set valueType := by
  cases a with
  | set valueType => exact ⟨valueType, rfl⟩
  | scalar type => exact absurd h (type.code_bounds.2.trans (by decide)).ne
  | _ => cases h

theorem exists_udt (h : a.code = 0x0030) :
    ∃ keyspace typeName types, a = .udt keyspace typeName types := by
  cases a with
  | udt keyspace typeName types => exact ⟨keyspace, typeName, types, rfl⟩
  | scalar type => exact absurd h (type.code_bounds.2.trans (by decide)).ne
  | _ => cases h

theorem exists_tuple (h : a.code = 0x0031) : ∃ types, a = .tuple types := by
  cases a with
  | tuple types => exact ⟨types, rfl⟩
  | scalar type => exact absurd h (type.code_bounds.2.trans (by decide)).ne
  | _ => cases h

theorem isStringType_iff : a.isStringType = true ↔ a.code = 0x000A ∨ a.code = 0x000D := by
  constructor
  · intro h
    unfold CqlType.isStringType at h
    split at h
    · exact .inr rfl
    · exact .inl rfl
    · cases h
  · rintro (h | h)
    · rw [code_injective_scalar .text h]
      rfl
    · rw [code_injective_scalar .varchar h]
      rfl

def codeOrder (m n : Nat) : Ordering :=
  if (m = 0x000A ∨ m = 0x000D) ∧ (n = 0x000A ∨ n = 0x000D) then .eq else compare m n

theorem codeCompare_eq_codeOrder : codeCompare a b = codeOrder a.code b.code := by
  unfold codeCompare codeOrder
  simp only [Bool.and_eq_true, isStringType_iff]

theorem typeCompare_of_code_ne (h : a.code ≠ b.code) :
    typeCompare a b = codeOrder a.code b.code := by
  rw [← codeCompare_eq_codeOrder]
  cases a <;> cases b <;> first | exact absurd rfl h | simp only [typeCompare]

theorem Over.scalar_mem (type : ScalarType) (h : a.Over V) (hcode : a.code = type.code) :
    type ∈ V.scalars := by
  rw [code_injective_scalar type hcode] at h
  exact h

theorem codeOrder_eq_iff {m n : Nat} (h : m ≠ n) :
    codeOrder m n = .eq ↔ (m = 0x000A ∨ m = 0x000D) ∧ (n = 0x000A ∨ n = 0x000D) := by
  unfold codeOrder
  split_ifs with hstring
  · simp [hstring]
  · simp [hstring, h]

/-- The codes are ordered if no code between those of the string types occurs with
them. -/
theorem consistent_codes {l m n : Nat}
    (hclear : ∀ k, k = l ∨ k = m ∨ k = n → k = 0x000B ∨ k = 0x000C →
      ¬ ((l = 0x000A ∨ m = 0x000A ∨ n = 0x000A) ∧ (l = 0x000D ∨ m = 0x000D ∨ n = 0x000D))) :
    Consistent (codeOrder l m) (codeOrder m n) (codeOrder l n) := by
  have hl := hclear l (by simp)
  have hm := hclear m (by simp)
  have hn := hclear n (by simp)
  unfold codeOrder
  simp only [Nat.compare_eq_ite_lt]
  split_ifs <;> first | decide | omega

theorem eq_of_string_code (hcode : a.code = b.code) (hstring : b.code = 0x000A ∨ b.code = 0x000D) :
    a = b := by
  rcases hstring with h | h
  · rw [code_injective_scalar .text (hcode.trans h), code_injective_scalar .text h]
  · rw [code_injective_scalar .varchar (hcode.trans h), code_injective_scalar .varchar h]

theorem consistent_of_pair (hcode : a.code = b.code) (hne : b.code ≠ c.code) :
    Consistent (typeCompare a b) (typeCompare b c) (typeCompare a c) := by
  have hne' : a.code ≠ c.code := hcode ▸ hne
  rw [typeCompare_of_code_ne hne, typeCompare_of_code_ne hne', hcode]
  by_cases heq : codeOrder b.code c.code = .eq
  · rw [eq_of_string_code hcode ((codeOrder_eq_iff hne).mp heq).1, typeCompare_self, heq]
    decide
  · generalize typeCompare a b = ab
    generalize codeOrder b.code c.code = bc at heq
    revert ab bc
    decide

/-- Types of different kinds are ordered by their codes. -/
theorem consistent_of_code_ne (hV : V.Clear) (ha : a.Over V) (hb : b.Over V) (hc : c.Over V)
    (hne : ¬ (a.code = b.code ∧ b.code = c.code)) :
    Consistent (typeCompare a b) (typeCompare b c) (typeCompare a c) := by
  by_cases hab : a.code = b.code
  · exact consistent_of_pair hab fun hbc => hne ⟨hab, hbc⟩
  · by_cases hbc : b.code = c.code
    · -- the other cases are the first one in another order
      have h := consistent_of_pair hbc (Ne.symm fun h => hab (h.trans hbc.symm))
      rw [typeCompare_swap a c, typeCompare_swap a b] at h
      exact h.rotate
    · by_cases hac : a.code = c.code
      · have h := consistent_of_pair hac.symm hab
        rw [typeCompare_swap a c, typeCompare_swap b c] at h
        exact h.rotateBack
      · rw [typeCompare_of_code_ne hab, typeCompare_of_code_ne hbc, typeCompare_of_code_ne hac]
        have hmem : ∀ type : ScalarType,
            a.code = type.code ∨ b.code = type.code ∨ c.code = type.code → type ∈ V.scalars := by
          rintro type (h | h | h)
          · exact Over.scalar_mem type ha h
          · exact Over.scalar_mem type hb h
          · exact Over.scalar_mem type hc h
        refine consistent_codes fun k hk hbetween hstrings => hV.scalars ?_
        refine ⟨hmem .text hstrings.1, hmem .varchar hstrings.2, ?_⟩
        rcases hbetween with rfl | rfl
        · exact .inl (hmem .timestamp (hk.imp Eq.symm (Or.imp Eq.symm Eq.symm)))
        · exact .inr (hmem .uuid (hk.imp Eq.symm (Or.imp Eq.symm Eq.symm)))

end

section

variable {V : Vocabulary}

theorem stringCompare_eq_iff {s₁ s₂ : Bytes} : stringCompare s₁ s₂ = .eq ↔ s₁ = s₂ := by
  constructor
  · intro h
    rw [stringCompare, Ordering.then_eq_eq] at h
    exact Std.LawfulEqCmp.eq_of_compare h.2
  · rintro rfl
    exact stringCompare_self s₁

theorem stringCompare_consistent (s₁ s₂ s₃ : Bytes) :
    Consistent (stringCompare s₁ s₂) (stringCompare s₂ s₃) (stringCompare s₁ s₃) :=
  (Consistent.of_ord _ _ _).andThen fun _ _ _ => Consistent.of_ord _ _ _

theorem udtNameCompare_consistent {name₁ name₂ name₃ : Option Bytes} (h₁ : name₁.isSome)
    (h₂ : name₂.isSome) (h₃ : name₃.isSome) :
    Consistent (udtNameCompare name₁ name₂) (udtNameCompare name₂ name₃)
      (udtNameCompare name₁ name₃) := by
  obtain ⟨s₁, rfl⟩ := Option.isSome_iff_exists.mp h₁
  obtain ⟨s₂, rfl⟩ := Option.isSome_iff_exists.mp h₂
  obtain ⟨s₃, rfl⟩ := Option.isSome_iff_exists.mp h₃
  exact stringCompare_consistent s₁ s₂ s₃

mutual
/-- Any three types over a clear vocabulary are ordered. -/
theorem typeCompare_consistent (hV : V.Clear) :
    ∀ a b c : CqlType, a.Over V → b.Over V → c.Over V →
      Consistent (typeCompare a b) (typeCompare b c) (typeCompare a c)
  | .scalar type, b, c, ha, hb, hc => by
    by_cases hcodes : type.code = b.code ∧ b.code = c.code
    · rw [code_injective_scalar type hcodes.1.symm,
        code_injective_scalar type (hcodes.1.trans hcodes.2).symm, typeCompare_self]
      decide
    · exact consistent_of_code_ne hV ha hb hc hcodes
  | .custom className, b, c, ha, hb, hc => by
    by_cases hcodes : 0x0000 = b.code ∧ b.code = c.code
    · obtain ⟨_, rfl⟩ := exists_custom hcodes.1.symm
      obtain ⟨_, rfl⟩ := exists_custom hcodes.2.symm
      simp only [typeCompare]
      exact (by decide : Consistent .eq .eq .eq)
    · exact consistent_of_code_ne hV ha hb hc hcodes
  | .list a, b, c, ha, hb, hc => by
    by_cases hcodes : 0x0020 = b.code ∧ b.code = c.code
    · obtain ⟨b, rfl⟩ := exists_list hcodes.1.symm
      obtain ⟨c, rfl⟩ := exists_list hcodes.2.symm
      simp only [typeCompare]
      exact typeCompare_consistent hV a b c ha hb hc
    · exact consistent_of_code_ne hV ha hb hc hcodes
  | .map k v, b, c, ha, hb, hc => by
    by_cases hcodes : 0x0021 = b.code ∧ b.code = c.code
    · obtain ⟨k₂, v₂, rfl⟩ := exists_map hcodes.1.symm
      obtain ⟨k₃, v₃, rfl⟩ := exists_map hcodes.2.symm
      simp only [typeCompare]
      exact (typeCompare_consistent hV k k₂ k₃ ha.1 hb.1 hc.1).andThen fun _ _ _ =>
        typeCompare_consistent hV v v₂ v₃ ha.2 hb.2 hc.2
    · exact consistent_of_code_ne hV ha hb hc hcodes
  | .set a, b, c, ha, hb, hc => by
    by_cases hcodes : 0x0022 = b.code ∧ b.code = c.code
    · obtain ⟨b, rfl⟩ := exists_set hcodes.1.symm
      obtain ⟨c, rfl⟩ := exists_set hcodes.2.symm
      simp only [typeCompare]
      exact typeCompare_consistent hV a b c ha hb hc
    · exact consistent_of_code_ne hV ha hb hc hcodes
  | .udt keyspace typeName types, b, c, ha, hb, hc => by
    by_cases hcodes : 0x0030 = b.code ∧ b.code = c.code
    · obtain ⟨keyspace₂, typeName₂, types₂, rfl⟩ := exists_udt hcodes.1.symm
      obtain ⟨keyspace₃, typeName₃, types₃, rfl⟩ := exists_udt hcodes.2.symm
      simp only [typeCompare]
      refine (udtNameCompare_consistent ha.1 hb.1 hc.1).andThen fun _ _ _ => ?_
      refine (udtNameCompare_consistent ha.2.1 hb.2.1 hc.2.1).andThen fun _ _ _ => ?_
      refine (Consistent.of_ord _ _ _).andThen fun h₁₂ h₂₃ _ => ?_
      exact fieldsCompare_consistent hV types types₂ types₃ ha.2.2 hb.2.2 hc.2.2
        (Nat.compare_eq_eq.mp h₁₂) (Nat.compare_eq_eq.mp h₂₃)
    · exact consistent_of_code_ne hV ha hb hc hcodes
  | .tuple types, b, c, ha, hb, hc => by
    by_cases hcodes : 0x0031 = b.code ∧ b.code = c.code
    · obtain ⟨types₂, rfl⟩ := exists_tuple hcodes.1.symm
      obtain ⟨types₃, rfl⟩ := exists_tuple hcodes.2.symm
      simp only [typeCompare]
      refine (Consistent.of_ord _ _ _).andThen fun h₁₂ h₂₃ _ => ?_
      exact typesCompare_consistent hV types types₂ types₃ ha hb hc
        (Nat.compare_eq_eq.mp h₁₂) (Nat.compare_eq_eq.mp h₂₃)
    · exact consistent_of_code_ne hV ha hb hc hcodes

theorem typesCompare_consistent (hV : V.Clear) :
    ∀ as bs cs : List CqlType, TypesOver V as → TypesOver V bs → TypesOver V cs →
      as.length = bs.length → bs.length = cs.length →
      Consistent (typesCompare as bs) (typesCompare bs cs) (typesCompare as cs)
  | [], [], [], _, _, _, _, _ => by
    simp only [typesCompare]
    decide
  | a :: as, b :: bs, c :: cs, ha, hb, hc, hab, hbc => by
    simp only [typesCompare]
    exact (typeCompare_consistent hV a b c ha.1 hb.1 hc.1).andThen fun _ _ _ =>
      typesCompare_consistent hV as bs cs ha.2 hb.2 hc.2 (Nat.succ.inj hab) (Nat.succ.inj hbc)

theorem fieldsCompare_consistent (hV : V.Clear) :
    ∀ as bs cs : List (Bytes × CqlType), FieldsOver V as → FieldsOver V bs → FieldsOver V cs →
      as.length = bs.length → bs.length = cs.length →
      Consistent (fieldsCompare as bs) (fieldsCompare bs cs) (fieldsCompare as cs)
  | [], [], [], _, _, _, _, _ => by
    simp only [fieldsCompare]
    decide
  | (key, a) :: as, (key₂, b) :: bs, (key₃, c) :: cs, ha, hb, hc, hab, hbc => by
    simp only [fieldsCompare]
    refine (stringCompare_consistent key key₂ key₃).andThen fun _ _ _ => ?_
    exact (typeCompare_consistent hV a b c ha.1 hb.1 hc.1).andThen fun _ _ _ =>
      fieldsCompare_consistent hV as bs cs ha.2 hb.2 hc.2 (Nat.succ.inj hab) (Nat.succ.inj hbc)

end

theorem udtNameCompare_eq_iff {name₁ name₂ : Option Bytes} (h₁ : name₁.isSome) (h₂ : name₂.isSome) :
    udtNameCompare name₁ name₂ = .eq ↔ name₁ = name₂ := by
  obtain ⟨s₁, rfl⟩ := Option.isSome_iff_exists.mp h₁
  obtain ⟨s₂, rfl⟩ := Option.isSome_iff_exists.mp h₂
  rw [udtNameCompare, stringCompare_eq_iff, Option.some.injEq]

theorem code_unalias {a b : CqlType} (h : SameType a b) : codeOrder a.code b.code = .eq := by
  have hunalias : ∀ a : CqlType, a.unalias.code = if a.code = 0x000A then 0x000D else a.code := by
    intro a
    cases a with
    | scalar type => cases type <;> decide
    | _ => simp [CqlType.unalias, CqlType.code]
  have hcode := congrArg CqlType.code h
  rw [hunalias, hunalias] at hcode
  unfold codeOrder
  split_ifs with hstring
  · rfl
  · rw [Nat.compare_eq_eq]
    split_ifs at hcode <;> omega

theorem typeCompare_eq_iff_of_code_ne {a b : CqlType} (h : a.code ≠ b.code) :
    typeCompare a b = .eq ↔ SameType a b := by
  rw [typeCompare_of_code_ne h]
  constructor
  · intro heq
    have hunalias : ∀ a : CqlType, a.code = 0x000A ∨ a.code = 0x000D →
        a.unalias = .scalar .varchar := by
      rintro a (h | h)
      · rw [code_injective_scalar .text h, CqlType.unalias]
      · rw [code_injective_scalar .varchar h]
        rfl
    obtain ⟨ha, hb⟩ := (codeOrder_eq_iff h).mp heq
    rw [SameType, hunalias a ha, hunalias b hb]
  · exact code_unalias

mutual
/-- Types over a vocabulary with one custom class agree exactly if they are the
same. -/
theorem typeCompare_eq_iff (hclasses : ∀ c ∈ V.classes, ∀ c' ∈ V.classes, c = c') :
    ∀ a b : CqlType, a.Over V → b.Over V → (typeCompare a b = .eq ↔ SameType a b)
  | .scalar type, b, _, _ => by
    by_cases hcode : type.code = b.code
    · rw [code_injective_scalar type hcode.symm, typeCompare_self]
      exact iff_of_true rfl rfl
    · exact typeCompare_eq_iff_of_code_ne hcode
  | .custom className, b, ha, hb => by
    by_cases hcode : 0x0000 = b.code
    · obtain ⟨className', rfl⟩ := exists_custom hcode.symm
      rw [hclasses className ha className' hb, typeCompare_self]
      exact iff_of_true rfl rfl
    · exact typeCompare_eq_iff_of_code_ne hcode
  | .list a, b, ha, hb => by
    by_cases hcode : 0x0020 = b.code
    · obtain ⟨b, rfl⟩ := exists_list hcode.symm
      have ih := typeCompare_eq_iff hclasses a b ha hb
      simp only [SameType, typeCompare, CqlType.unalias, CqlType.list.injEq] at ih ⊢
      exact ih
    · exact typeCompare_eq_iff_of_code_ne hcode
  | .map k v, b, ha, hb => by
    by_cases hcode : 0x0021 = b.code
    · obtain ⟨k₂, v₂, rfl⟩ := exists_map hcode.symm
      have ihKey := typeCompare_eq_iff hclasses k k₂ ha.1 hb.1
      have ihValue := typeCompare_eq_iff hclasses v v₂ ha.2 hb.2
      simp only [SameType, typeCompare, CqlType.unalias, CqlType.map.injEq,
        Ordering.then_eq_eq] at ihKey ihValue ⊢
      rw [ihKey, ihValue]
    · exact typeCompare_eq_iff_of_code_ne hcode
  | .set a, b, ha, hb => by
    by_cases hcode : 0x0022 = b.code
    · obtain ⟨b, rfl⟩ := exists_set hcode.symm
      have ih := typeCompare_eq_iff hclasses a b ha hb
      simp only [SameType, typeCompare, CqlType.unalias, CqlType.set.injEq] at ih ⊢
      exact ih
    · exact typeCompare_eq_iff_of_code_ne hcode
  | .udt keyspace typeName types, b, ha, hb => by
    by_cases hcode : 0x0030 = b.code
    · obtain ⟨keyspace₂, typeName₂, types₂, rfl⟩ := exists_udt hcode.symm
      have ih := fieldsCompare_eq_iff hclasses types types₂ ha.2.2 hb.2.2
      simp only [SameType, typeCompare, CqlType.unalias, CqlType.udt.injEq, Ordering.then_eq_eq,
        udtNameCompare_eq_iff ha.1 hb.1, udtNameCompare_eq_iff ha.2.1 hb.2.1,
        Nat.compare_eq_eq, ih]
    · exact typeCompare_eq_iff_of_code_ne hcode
  | .tuple types, b, ha, hb => by
    by_cases hcode : 0x0031 = b.code
    · obtain ⟨types₂, rfl⟩ := exists_tuple hcode.symm
      have ih := typesCompare_eq_iff hclasses types types₂ ha hb
      simp only [SameType, typeCompare, CqlType.unalias, CqlType.tuple.injEq,
        Ordering.then_eq_eq, Nat.compare_eq_eq, ih]
    · exact typeCompare_eq_iff_of_code_ne hcode

theorem typesCompare_eq_iff (hclasses : ∀ c ∈ V.classes, ∀ c' ∈ V.classes, c = c') :
    ∀ as bs : List CqlType, TypesOver V as → TypesOver V bs →
      (as.length = bs.length ∧ typesCompare as bs = .eq ↔ unaliasTypes as = unaliasTypes bs)
  | [], [], _, _ => by simp [typesCompare]
  | [], _ :: _, _, _ => by simp [unaliasTypes]
  | _ :: _, [], _, _ => by simp [unaliasTypes]
  | a :: as, b :: bs, ha, hb => by
    have ihHead := typeCompare_eq_iff hclasses a b ha.1 hb.1
    have ihTail := typesCompare_eq_iff hclasses as bs ha.2 hb.2
    rw [SameType] at ihHead
    simp only [typesCompare, unaliasTypes, List.cons.injEq, List.length_cons,
      Nat.add_right_cancel_iff, Ordering.then_eq_eq, ihHead, ← ihTail]
    tauto

theorem fieldsCompare_eq_iff (hclasses : ∀ c ∈ V.classes, ∀ c' ∈ V.classes, c = c') :
    ∀ as bs : List (Bytes × CqlType), FieldsOver V as → FieldsOver V bs →
      (as.length = bs.length ∧ fieldsCompare as bs = .eq ↔ unaliasFields as = unaliasFields bs)
  | [], [], _, _ => by simp [fieldsCompare]
  | [], (_, _) :: _, _, _ => by simp [unaliasFields]
  | (_, _) :: _, [], _, _ => by simp [unaliasFields]
  | (key, a) :: as, (key₂, b) :: bs, ha, hb => by
    have ihHead := typeCompare_eq_iff hclasses a b ha.1 hb.1
    have ihTail := fieldsCompare_eq_iff hclasses as bs ha.2 hb.2
    rw [SameType] at ihHead
    simp only [fieldsCompare, unaliasFields, List.cons.injEq, Prod.mk.injEq, List.length_cons,
      Nat.add_right_cancel_iff, Ordering.then_eq_eq, stringCompare_eq_iff, ihHead, ← ihTail]
    tauto

end

end

/-- The comparison is an order on the types of a vocabulary, and finds two of them
equal exactly if they are the same. -/
def TypeCompareRight (V : Vocabulary) : Prop :=
  TotalPreorderOn typeCompare {type | type.Over V} ∧
    ∀ a b : CqlType, a.Over V → b.Over V → (typeCompare a b = .eq ↔ SameType a b)

/--
Where `php_scylladb_type_compare` is right.

On the types of any nesting over a vocabulary, it is a total preorder whose zero is
sameness exactly if the vocabulary is clear.
-/
theorem typeCompareRight_iff
    (V : Vocabulary) :
    TypeCompareRight V ↔ V.Clear := by
  constructor
  · rintro ⟨horder, hsame⟩
    refine ⟨fun c hc c' hc' => ?_, ?_⟩
    · have heq : typeCompare (.custom c) (.custom c') = .eq := by simp only [typeCompare]; rfl
      have h := (hsame (.custom c) (.custom c') hc hc').mp heq
      rw [SameType, CqlType.unalias, CqlType.unalias] at h
      exact CqlType.custom.inj h
    · rintro ⟨htext, hvarchar, hbetween⟩
      -- varchar is not above text, text not above the type between, but varchar is
      have hcycle : ∀ type : ScalarType, type ∈ V.scalars →
          typeCompare (.scalar .text) (.scalar type) = .lt →
          typeCompare (.scalar .varchar) (.scalar type) = .gt → False := by
        intro type hmem hlt hgt
        have heq : typeCompare (.scalar .varchar) (.scalar .text) = .eq := by
          simp only [typeCompare]
          rfl
        exact horder.trans (.scalar .varchar) hvarchar (.scalar .text) htext (.scalar type) hmem
          (by simp [heq]) (by simp [hlt]) hgt
      rcases hbetween with hmem | hmem
      · exact hcycle .timestamp hmem (by simp only [typeCompare]; rfl)
          (by simp only [typeCompare]; rfl)
      · exact hcycle .uuid hmem (by simp only [typeCompare]; rfl) (by simp only [typeCompare]; rfl)
  · intro hV
    refine ⟨.of_consistent ?_ ?_ ?_, typeCompare_eq_iff hV.classes_eq⟩
    · exact fun a _ => typeCompare_self a
    · exact fun a _ b _ => typeCompare_swap a b
    · exact fun a ha b hb c hc => typeCompare_consistent hV a b c ha hb hc

/-- `varchar` and `text` agree, `text` is below `timestamp` and `varchar` above it; and
two custom types of different classes agree. -/
theorem varchar_text_timestamp_cycle :
    typeCompare (.scalar .varchar) (.scalar .text) = .eq ∧
      typeCompare (.scalar .text) (.scalar .timestamp) = .lt ∧
      typeCompare (.scalar .varchar) (.scalar .timestamp) = .gt ∧
      typeCompare (.custom (ascii "a")) (.custom (ascii "b")) = .eq ∧
      ¬ SameType (.custom (ascii "a")) (.custom (ascii "b")) ∧
      ¬ TypeCompareRight ⟨Set.univ, Set.univ⟩ := by
  have heq : typeCompare (.custom (ascii "a")) (.custom (ascii "b")) = .eq := by
    simp only [typeCompare]
    rfl
  have hdiffer : ¬ SameType (.custom (ascii "a")) (.custom (ascii "b")) := by
    intro h
    rw [SameType, CqlType.unalias, CqlType.unalias] at h
    exact absurd (CqlType.custom.inj h) (by decide)
  refine ⟨?_, ?_, ?_, heq, hdiffer, fun h => ?_⟩
  · simp only [typeCompare]
    rfl
  · simp only [typeCompare]
    rfl
  · simp only [typeCompare]
    rfl
  · exact hdiffer ((h.2 _ _ (Set.mem_univ _) (Set.mem_univ _)).mp heq)

end Values
end ScyllaDriver
