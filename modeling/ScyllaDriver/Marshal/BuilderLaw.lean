import ScyllaDriver.Marshal.WrittenText

/-!
# The type builder, one class at a time

What `php_scylladb_create_type` does with a node of each kind, and which
names it takes for which kind. A name is compared over its own length, so the
beginning of a known name is taken for the known one; a class that is not
known is dumped together with the classes after it.
-/

namespace ScyllaDriver
namespace Marshal

open CString
open Values (ScalarType)

theorem Plain.noNul {t : Bytes} (h : Plain t) : 0 ∉ t := by
  intro hmem
  exact absurd (h 0 hmem) (by decide)

variable {className : String} {name : Bytes}

theorem isNamed_iff (hname : Plain name) :
    isNamed className name = true ↔ name <+: marshalClass className :=
  strncmpEq_iff_prefix hname.noNul

theorem lookup_of_not_beginsKnown (hname : Plain name) (h : ¬Written.BeginsKnown name) :
    isWrapper name = false ∧ lookupType name = .custom := by
  have hnot : ∀ className ∈ Written.knownClasses, isNamed className name = false := by
    intro className hmem
    by_contra hnamed
    exact h ⟨className, hmem, (isNamed_iff hname).mp (by simpa using hnamed)⟩
  constructor
  · simp [isWrapper, hnot "FrozenType" (by simp [Written.knownClasses]),
      hnot "ReversedType" (by simp [Written.knownClasses]),
      hnot "CompositeType" (by simp [Written.knownClasses])]
  · have hfind : lookupTable.find? (fun entry => isNamed entry.1 name) = none := by
      rw [List.find?_eq_none]
      intro entry hentry
      rw [hnot entry.1]
      · simp
      · exact List.mem_append_right _ (List.mem_map_of_mem hentry)
    rw [lookupType, hfind]

theorem not_beginsKnown_of_lookup (hname : Plain name) (hwrapper : isWrapper name = false)
    (hlookup : lookupType name = .custom) :
    ¬Written.BeginsKnown name := by
  rintro ⟨className, hmem, hbegins⟩
  have hnamed := (isNamed_iff hname).mpr hbegins
  simp only [isWrapper, Bool.or_eq_false_iff] at hwrapper
  rcases List.mem_append.mp hmem with hmem | hmem
  · simp only [List.mem_cons, List.not_mem_nil, or_false] at hmem
    rcases hmem with rfl | rfl | rfl <;> simp_all
  · obtain ⟨entry, hentry, rfl⟩ := List.mem_map.mp hmem
    unfold lookupType at hlookup
    cases hfind : lookupTable.find? fun entry => isNamed entry.1 name with
    | none =>
      rw [List.find?_eq_none] at hfind
      exact hfind entry hentry hnamed
    | some found =>
      rw [hfind] at hlookup
      have hkinds : ∀ entry ∈ lookupTable, entry.2 ≠ ClassKind.custom := by
        decide
      exact hkinds found (List.mem_of_find?_eq_some hfind) hlookup

theorem isNamed_marshalClass {known : String} (h : (ascii className).all isletter = true) :
    isNamed known (marshalClass className) = (ascii className).isPrefixOf (ascii known) := by
  have hplain := (isName_marshalClass_of_letters h).plain
  rw [Bool.eq_iff_iff, isNamed_iff hplain, List.isPrefixOf_iff_prefix,
    marshalClass_eq, marshalClass_eq, List.prefix_append_right_inj]

def classOf (className : String) : Bool × ClassKind :=
  (["FrozenType", "ReversedType", "CompositeType"].any
    fun known => (ascii className).isPrefixOf (ascii known),
    match lookupTable.find? fun entry =>
      (ascii className).isPrefixOf (ascii entry.1) with
    | some entry => entry.2
    | none => .custom)

theorem lookup_marshalClass (h : (ascii className).all isletter = true) :
    isWrapper (marshalClass className) = (classOf className).1 ∧
      lookupType (marshalClass className) = (classOf className).2 := by
  have hfind : lookupTable.find? (fun entry => isNamed entry.1 (marshalClass className)) =
      lookupTable.find? (fun entry => (ascii className).isPrefixOf (ascii entry.1)) := by
    simp only [isNamed_marshalClass h]
  constructor
  · simp [isWrapper, classOf, isNamed_marshalClass h, Bool.or_assoc]
  · exact congrArg (fun found => match found with
      | some entry => entry.2
      | none => ClassKind.custom) hfind

theorem lookup_scalar {type : ScalarType} (h : className ∈ scalarClasses type) :
    isWrapper (marshalClass className) = false ∧
      lookupType (marshalClass className) = .scalar (scalarAlias type) := by
  have hall : ∀ type ∈ allScalars, ∀ className ∈ scalarClasses type,
      (ascii className).all isletter = true ∧
        classOf className = (false, .scalar (scalarAlias type)) := by
    decide +kernel
  obtain ⟨hletters, hclass⟩ := hall type (mem_allScalars type) className h
  rw [(lookup_marshalClass hletters).1, (lookup_marshalClass hletters).2, hclass]
  exact ⟨rfl, rfl⟩

theorem lookup_nested {kind : ClassKind}
    (h : (className, kind) ∈ [("ListType", ClassKind.list), ("SetType", .set), ("MapType", .map),
      ("TupleType", .tuple), ("UserType", .udt)]) :
    isWrapper (marshalClass className) = false ∧ lookupType (marshalClass className) = kind := by
  have hall : ∀ entry ∈ [("ListType", ClassKind.list), ("SetType", .set),
      ("MapType", .map), ("TupleType", .tuple), ("UserType", .udt)],
      (ascii entry.1).all isletter = true ∧ classOf entry.1 = (false, entry.2) := by
    decide +kernel
  obtain ⟨hletters, hclass⟩ := hall _ h
  rw [(lookup_marshalClass hletters).1, (lookup_marshalClass hletters).2, hclass]
  exact ⟨rfl, rfl⟩

theorem isWrapper_marshalClass (h : className ∈ ["FrozenType", "ReversedType"]) :
    isWrapper (marshalClass className) = true := by
  have hall : ∀ className ∈ ["FrozenType", "ReversedType"],
      (ascii className).all isletter = true ∧ (classOf className).1 = true := by
    decide +kernel
  obtain ⟨hletters, hclass⟩ := hall _ h
  rw [(lookup_marshalClass hletters).1, hclass]

section Builder

variable {customTypes : Bool} {name : Bytes} {children next : Forest Bytes}

theorem createType_wrapper (h : isWrapper name = true) :
    createType customTypes (.cons name children next) = createType customTypes children := by
  rw [createType.eq_def]
  simp [h]

theorem createType_scalar {type : ScalarType}
    (h : isWrapper name = false ∧ lookupType name = .scalar type) :
    createType customTypes (.cons name children next) = some (.scalar type) := by
  rw [createType.eq_def]
  simp [h.1, h.2]

theorem createType_custom (h : isWrapper name = false ∧ lookupType name = .custom) :
    createType customTypes (.cons name children next) =
      some (if customTypes then
        .custom (nodeDumpTo (.cons name children next)) else .undef) := by
  rw [createType.eq_def]
  simp [h.1, h.2]

theorem createType_list (h : isWrapper name = false ∧ lookupType name = .list) :
    createType customTypes (.cons name children next) =
      (createType customTypes children).map .list := by
  rw [createType.eq_def]
  simp [h.1, h.2, Option.map_eq_bind]

theorem createType_set (h : isWrapper name = false ∧ lookupType name = .set) :
    createType customTypes (.cons name children next) =
      (createType customTypes children).map .set := by
  rw [createType.eq_def]
  simp [h.1, h.2, Option.map_eq_bind]

theorem createType_tuple (h : isWrapper name = false ∧ lookupType name = .tuple) :
    createType customTypes (.cons name children next) =
      (tupleFromNode customTypes children []).map .tuple := by
  rw [createType.eq_def]
  simp [h.1, h.2, Option.map_eq_bind]

theorem createType_map_eq_some_iff {key : Bytes} {arguments value : Forest Bytes}
    {keyType valueType : ParsedType} (h : isWrapper name = false ∧ lookupType name = .map) :
    createType customTypes (.cons name (.cons key arguments value) next) =
        some (.map keyType valueType) ↔
      createType customTypes (.cons key arguments value) = some keyType ∧
        createType customTypes value = some valueType := by
  rw [createType.eq_def]
  simp only [h.1, h.2]
  cases createType customTypes (.cons key arguments value) <;>
    cases createType customTypes value <;> simp

theorem createType_udt {keyspace typeName : Bytes} {arguments arguments' fields : Forest Bytes}
    (h : isWrapper name = false ∧ lookupType name = .udt) :
    createType customTypes (.cons name
        (.cons keyspace arguments (.cons typeName arguments' fields)) next) =
      (userTypeFromNode customTypes fields []).map (.udt (some keyspace) (fromHex typeName)) := by
  rw [createType.eq_def]
  simp [h.1, h.2, Option.map_eq_bind]

end Builder

theorem Plain.takeWhile_append {rest : Bytes} (hname : Plain name) (hrest : AtMark rest) :
    (name ++ rest).takeWhile (fun c => !isMark c) = name := by
  rw [List.takeWhile_append_of_pos (fun c hc => by simp [hname c hc])]
  cases rest with
  | nil => simp
  | cons c rest =>
    rw [atMark_cons] at hrest
    simp [hrest]

theorem nodeDumpTo_eq_append (name : Bytes) (children next : Forest Bytes) :
    ∃ rest, AtMark rest ∧ nodeDumpTo (.cons name children next) = name ++ rest := by
  refine ⟨_, ?_, by rw [nodeDumpTo, List.append_assoc]⟩
  cases children <;> cases next <;> simp [AtMark, isMark]

theorem classText_eq_append (name : ClassName) (args next : Forest ClassName) :
    ∃ rest, AtMark rest ∧ classText (.cons name args next) = name.text ++ rest := by
  refine ⟨_, ?_, by rw [classText, List.append_assoc]⟩
  cases args <;> cases next <;> simp [AtMark, isMark]

theorem exists_class_of_createType {customTypes : Bool} {className : Bytes} :
    ∀ {node : Forest Bytes},
      node.All Plain →
        createType customTypes node = some (.custom className) →
          customTypes = true ∧
            ∃ name children next,
              Plain name ∧ ¬Written.BeginsKnown name ∧
                className = nodeDumpTo (.cons name children next)
  | .nil, _, h => by
    simp [createType] at h
  | .cons name children next, hplain, h => by
    obtain ⟨hname, hchildren, -⟩ := hplain
    cases hwrapper : isWrapper name with
    | true =>
      rw [createType_wrapper hwrapper] at h
      exact exists_class_of_createType hchildren h
    | false =>
      cases hlookup : lookupType name with
      | custom =>
        rw [createType_custom ⟨hwrapper, hlookup⟩] at h
        cases customTypes with
        | false => simp at h
        | true =>
          refine ⟨rfl, name, children, next, hname,
            not_beginsKnown_of_lookup hname hwrapper hlookup, ?_⟩
          simpa using h.symm
      | scalar type =>
        simp [createType_scalar ⟨hwrapper, hlookup⟩] at h
      | list => simp [createType_list ⟨hwrapper, hlookup⟩] at h
      | set => simp [createType_set ⟨hwrapper, hlookup⟩] at h
      | tuple => simp [createType_tuple ⟨hwrapper, hlookup⟩] at h
      | map =>
        rw [createType.eq_def] at h
        cases children <;>
          simp [hwrapper, hlookup, Option.bind_eq_some_iff] at h
      | udt =>
        rw [createType.eq_def] at h
        cases children with
        | nil => simp [hwrapper, hlookup] at h
        | cons keyspace _ rest =>
          cases rest <;>
            simp [hwrapper, hlookup, Option.bind_eq_some_iff] at h

/-- The blanks the dump writes, one for each comma. -/
def blanks : Forest ClassName → Nat
  | .nil => 0
  | .cons _ args next =>
    blanks args + (if next.isNil then 0 else 1 + blanks next)

theorem length_nodeDumpTo (args : Forest ClassName) :
    (nodeDumpTo (args.map ClassName.text)).length = (classText args).length + blanks args := by
  induction args with
  | nil => rfl
  | cons name args next ihargs ihnext =>
    cases args <;> cases next <;>
      simp_all [Forest.map, nodeDumpTo, classText, blanks] <;> omega

theorem blanks_eq_zero_iff (args : Forest ClassName) :
    blanks args = 0 ↔ Written.OneArgument args := by
  induction args with
  | nil => simp [blanks, Written.OneArgument]
  | cons name args next ihargs ihnext =>
    cases next <;> simp [blanks, Written.OneArgument, ihargs]

theorem nodeDumpTo_eq_classText {args : Forest ClassName} (h : Written.OneArgument args) :
    nodeDumpTo (args.map ClassName.text) = classText args := by
  induction args with
  | nil => rfl
  | cons name args next ihargs ihnext =>
    obtain ⟨hargs, rfl⟩ := h
    simp [Forest.map, nodeDumpTo, classText, ihargs hargs]

/-- The dump of a class is its own text exactly if the class stands last and
no class in it has two arguments. -/
theorem nodeDumpTo_eq_classText_iff (name : ClassName) (args : Forest ClassName)
    (next : Forest Bytes) :
    nodeDumpTo (.cons name.text (args.map ClassName.text) next) = classText (.cons name args .nil) ↔
      Written.OneArgument args ∧ next = .nil := by
  constructor
  · intro h
    have hlength := congrArg List.length h
    have hargs := length_nodeDumpTo args
    rw [← blanks_eq_zero_iff]
    rw [nodeDumpTo, classText, Forest.isNil_map] at hlength
    cases next with
    | nil =>
      refine ⟨?_, rfl⟩
      cases hnil : args.isNil with
      | true =>
        cases args with
        | nil => rfl
        | cons => simp at hnil
      | false =>
        simp [hnil] at hlength
        omega
    | cons =>
      exfalso
      split at hlength
      · simp at hlength
      · simp at hlength
        omega
  · rintro ⟨hargs, rfl⟩
    simp [nodeDumpTo, classText, nodeDumpTo_eq_classText hargs]

theorem createType_custom_iff {customTypes : Bool} (name : ClassName) (args : Forest ClassName)
    {next : Forest Bytes} (hnext : next.All Plain) :
    createType customTypes (.cons name.text (args.map ClassName.text) next) =
        some (.custom (classText (.cons name args .nil))) ↔
      (customTypes = true ∧ ¬Written.BeginsKnown name.text ∧
        Written.OneArgument args) ∧ next = .nil := by
  constructor
  · intro h
    have hplain : (Forest.cons name.text (args.map ClassName.text) next).All Plain := by
      exact ⟨name.plain, (Forest.all_map _ args).mpr (Written.all_plain args), hnext⟩
    obtain ⟨hcustom, known, children, siblings, hknown, hunknown, htext⟩ :=
      exists_class_of_createType hplain h
    -- both texts end their first name where the first mark stands
    obtain ⟨rest, hrest, hdump⟩ := nodeDumpTo_eq_append known children siblings
    obtain ⟨rest', hrest', hclass⟩ := classText_eq_append name args .nil
    have hname : known = name.text := by
      rw [← hknown.takeWhile_append hrest, ← hdump, ← htext, hclass,
        name.plain.takeWhile_append hrest']
    rw [hname] at hunknown
    rw [createType_custom (lookup_of_not_beginsKnown name.plain hunknown), if_pos hcustom] at h
    have hdump := (nodeDumpTo_eq_classText_iff name args next).mp (by simpa using h)
    exact ⟨⟨hcustom, hunknown, hdump.1⟩, hdump.2⟩
  · rintro ⟨⟨hcustom, hunknown, hargs⟩, hnext⟩
    rw [createType_custom (lookup_of_not_beginsKnown name.plain hunknown), if_pos hcustom,
      (nodeDumpTo_eq_classText_iff name args next).mpr ⟨hargs, hnext⟩]

end Marshal
end ScyllaDriver
