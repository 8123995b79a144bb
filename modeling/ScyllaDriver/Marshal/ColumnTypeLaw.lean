import ScyllaDriver.Marshal.BuilderLaw

/-!
# Types read back from their notation

The builder gives the type of a written type back exactly if the written type
`Builds`. Together with the parser this says for which types in class-name
notation `php_scylladb_parse_column_type` returns the type and the flags that
are written.
-/

namespace ScyllaDriver
namespace Marshal

open CString
open Values (CqlType)

mutual
def ParsedType.ofType : CqlType → ParsedType
  | .scalar type => .scalar type
  | .custom className => .custom className
  | .list valueType => .list (ofType valueType)
  | .map keyType valueType => .map (ofType keyType) (ofType valueType)
  | .set valueType => .set (ofType valueType)
  | .udt keyspace typeName types => .udt keyspace typeName (ofFields types)
  | .tuple types => .tuple (ofTypes types)

def ParsedType.ofTypes : List CqlType → List ParsedType
  | [] => []
  | type :: types => ParsedType.ofType type :: ofTypes types

def ParsedType.ofFields : List (Bytes × CqlType) → List (Bytes × ParsedType)
  | [] => []
  | (name, type) :: types => (name, ParsedType.ofType type) :: ofFields types

end

@[simp] theorem deref_ofType (type : CqlType) :
    (ParsedType.ofType type).deref = some (.ofType type) := by
  cases type <;> simp [ParsedType.ofType, ParsedType.deref]

theorem deref_eq_some {type type' : ParsedType} (h : type.deref = some type') : type' = type := by
  cases type <;> simp_all [ParsedType.deref]

theorem prefix_of_tupleFromNode {customTypes : Bool} :
    ∀ {node : Forest Bytes} {types types' : List ParsedType},
      tupleFromNode customTypes node types = some types' → types <+: types'
  | .nil, types, types', h => by
    rw [tupleFromNode, Option.some.injEq] at h
    rw [h]
  | .cons name children next, types, types', h => by
    simp only [tupleFromNode, Option.bind_eq_bind, Option.bind_eq_some_iff] at h
    obtain ⟨_, -, subType, -, h⟩ := h
    exact (List.prefix_append types [subType]).trans (prefix_of_tupleFromNode h)

variable {children next : Forest Bytes} {customTypes : Bool} {type : CqlType}

theorem tupleFromNode_cons_iff {name : Bytes} {types rest : List ParsedType} :
    tupleFromNode customTypes (.cons name children next) types =
        some (types ++ .ofType type :: rest) ↔
      createType customTypes (.cons name children next) = some (.ofType type) ∧
        tupleFromNode customTypes next (types ++ [.ofType type]) =
          some (types ++ .ofType type :: rest) := by
  constructor
  · intro h
    simp only [tupleFromNode, Option.bind_eq_bind, Option.bind_eq_some_iff] at h
    obtain ⟨built, hbuilt, subType, hderef, h⟩ := h
    -- the type that was added is the one at its place in the result
    have hsame : subType = .ofType type := by
      have hbegins := prefix_of_tupleFromNode h
      rw [List.prefix_append_right_inj] at hbegins
      exact (List.cons_prefix_cons.mp hbegins).1
    have hbuilt' := deref_eq_some hderef
    subst hsame
    rw [← hbuilt'] at hbuilt
    exact ⟨hbuilt, h⟩
  · rintro ⟨hbuilt, h⟩
    simpa [tupleFromNode, hbuilt] using h

theorem prefix_hashAdd (types : List (Bytes × ParsedType)) (name : Bytes) (type : ParsedType) :
    types <+: hashAdd types name type := by
  unfold hashAdd
  split
  · exact List.prefix_refl _
  · exact List.prefix_append _ _

theorem nodup_hashAdd {types : List (Bytes × ParsedType)} (name : Bytes) (type : ParsedType)
    (h : (types.map Prod.fst).Nodup) : ((hashAdd types name type).map Prod.fst).Nodup := by
  unfold hashAdd
  split
  · exact h
  · next hmem =>
      rw [List.map_append, List.nodup_append]
      refine ⟨h, by simp, ?_⟩
      rintro a ha b hb rfl
      simp only [List.map_cons, List.map_nil, List.mem_singleton] at hb
      exact hmem (by simpa [hb] using ha)

theorem kept_of_userTypeFromNode {customTypes : Bool} :
    ∀ {node : Forest Bytes} {types types' : List (Bytes × ParsedType)},
      userTypeFromNode customTypes node types = some types' →
        types <+: types' ∧ ((types.map Prod.fst).Nodup → (types'.map Prod.fst).Nodup)
  | .nil, types, types', h => by
    rw [userTypeFromNode, Option.some.injEq] at h
    rw [h]
    exact ⟨List.prefix_refl _, id⟩
  | .cons fieldName _ .nil, types, types', h => by
    simp only [userTypeFromNode, Option.bind_eq_bind,
      Option.bind_eq_some_iff, Option.pure_def, Option.some.injEq] at h
    obtain ⟨_, -, h⟩ := h
    rw [h]
    exact ⟨List.prefix_refl _, id⟩
  | .cons fieldName _ (.cons name children next), types, types', h => by
    simp only [userTypeFromNode, Option.bind_eq_bind, Option.bind_eq_some_iff] at h
    obtain ⟨_, -, field, -, subType, -, h⟩ := h
    obtain ⟨hbegins, hnodup⟩ := kept_of_userTypeFromNode h
    exact ⟨(prefix_hashAdd types field subType).trans hbegins,
      fun hnames => hnodup (nodup_hashAdd field subType hnames)⟩

theorem userTypeFromNode_cons_iff {field name : Bytes} {types rest : List (Bytes × ParsedType)}
    (hnew : field ∉ types.map Prod.fst) :
    userTypeFromNode customTypes (.cons (hexText field) .nil (.cons name children next)) types =
        some (types ++ (field, .ofType type) :: rest) ↔
      createType customTypes (.cons name children next) = some (.ofType type) ∧
        userTypeFromNode customTypes next (types ++ [(field, .ofType type)]) =
          some (types ++ (field, .ofType type) :: rest) := by
  have hadd (type : ParsedType) : hashAdd types field type = types ++ [(field, type)] :=
    if_neg (by simpa using hnew)
  constructor
  · intro h
    simp only [userTypeFromNode, Option.bind_eq_bind,
      Option.bind_eq_some_iff, fromHex_hexText, Option.some.injEq,
      exists_eq_left', hadd] at h
    obtain ⟨built, hbuilt, subType, hderef, h⟩ := h
    have hsame : subType = .ofType type := by
      have hbegins := (kept_of_userTypeFromNode h).1
      rw [List.prefix_append_right_inj] at hbegins
      exact (Prod.mk.inj (List.cons_prefix_cons.mp hbegins).1).2
    have hbuilt' := deref_eq_some hderef
    subst hsame
    rw [← hbuilt'] at hbuilt
    exact ⟨hbuilt, h⟩
  · rintro ⟨hbuilt, h⟩
    simpa [userTypeFromNode, hbuilt, hadd] using h

namespace Written

theorem exists_node (w : Written) (mark : Separator) :
    ∃ name children, ∀ next, (w.tree mark next).map Label.text =
      .cons name children (next.map Label.text) := by
  cases w <;> exact ⟨_, _, fun next => by rw [tree, Forest.map]⟩

theorem restTree_eq_nil_iff (ws : List Written) :
    (restTree ws).map Label.text = .nil ↔ ws = [] := by
  cases ws with
  | nil => simp [restTree, Forest.map]
  | cons w ws =>
    obtain ⟨name, children, hnode⟩ := exists_node w .comma
    simp [restTree, hnode]

theorem fieldsTree_eq_nil_iff (fields : List (Bytes × Written)) :
    (fieldsTree fields).map Label.text = .nil ↔ fields = [] := by
  cases fields <;> simp [fieldsTree, Forest.map]

theorem plain_restTree (ws : List Written) : ((restTree ws).map Label.text).All Plain :=
  (Forest.all_map _ _).mpr ((all_restTree labelProperty_plain ws).mpr (namesRest_plain ws))

theorem plain_fieldsTree (fields : List (Bytes × Written)) :
    ((fieldsTree fields).map Label.text).All Plain :=
  (Forest.all_map _ _).mpr
    ((all_fieldsTree labelProperty_plain fields).mpr (namesFields_plain fields))

theorem names_ofFields (fields : List (Bytes × Written)) :
    (ParsedType.ofFields (fieldTypes fields)).map Prod.fst = fields.map Prod.fst := by
  induction fields with
  | nil => simp [fieldTypes, ParsedType.ofFields]
  | cons field fields ih =>
    simp [fieldTypes, ParsedType.ofFields, ih]

theorem isCustom_iff (w : Written) {p : Prop} :
    (w.isCustom = true → p) ↔ (¬p → w.isCustom = false) := by
  cases w.isCustom <;> simp

theorem tupleFromNode_tree {w : Written} {ws : List Written} {types : List ParsedType}
    (hw : createType customTypes ((w.tree .comma (restTree ws)).map Label.text) =
        some (.ofType w.type) ↔
      w.Builds customTypes ∧ (w.isCustom = true → (restTree ws).map Label.text = .nil))
    (hws : tupleFromNode customTypes ((restTree ws).map Label.text) (types ++ [.ofType w.type]) =
        some (types ++ [.ofType w.type] ++ ParsedType.ofTypes (Written.types ws)) ↔
      BuildsRest customTypes ws) :
    tupleFromNode customTypes ((w.tree .comma (restTree ws)).map Label.text) types =
        some (types ++ .ofType w.type :: ParsedType.ofTypes (Written.types ws)) ↔
      (ws ≠ [] → w.isCustom = false) ∧ w.Builds customTypes ∧ BuildsRest customTypes ws := by
  obtain ⟨name, children, hnode⟩ := exists_node w .comma
  rw [List.append_assoc, List.singleton_append] at hws
  rw [hnode, isCustom_iff, restTree_eq_nil_iff] at hw
  rw [hnode, tupleFromNode_cons_iff, hw, hws]
  tauto

mutual
/-- The builder gives the type of the node of a written type exactly if it
`Builds`, where a custom class must be the last of its siblings. -/
theorem createType_tree (customTypes : Bool) : ∀ (w : Written)
    (mark : Separator) (next : Forest Label),
    (next.map Label.text).All Plain →
      (createType customTypes ((w.tree mark next).map Label.text) = some (.ofType w.type) ↔
        w.Builds customTypes ∧ (w.isCustom = true → next.map Label.text = .nil))
  | .scalar type className h, mark, next, _ => by
    simp [tree, Forest.map, createType_scalar (lookup_scalar h), Written.type,
      ParsedType.ofType, Builds, isCustom]
  | .custom name args, mark, next, hnext => by
    have hargs : (args.map fun arg => Label.mk .comma arg.text).map
        Label.text = args.map ClassName.text :=
      Forest.map_map _ _ _
    rw [tree, Forest.map, hargs]
    simpa [Written.type, ParsedType.ofType, Builds, isCustom] using
      createType_custom_iff name args hnext
  | .list value, mark, next, _ => by
    have ih := createType_tree customTypes value .comma .nil trivial
    rw [tree, Forest.map, createType_list (lookup_nested (by simp)),
      Written.type, ParsedType.ofType, Builds]
    simpa [Forest.map, isCustom] using ih
  | .set value, mark, next, _ => by
    have ih := createType_tree customTypes value .comma .nil trivial
    rw [tree, Forest.map, createType_set (lookup_nested (by simp)),
      Written.type, ParsedType.ofType, Builds]
    simpa [Forest.map, isCustom] using ih
  | .map key value, mark, next, _ => by
    have hplain := (Forest.all_map Label.text (value.tree .comma .nil)).mpr
      ((all_tree labelProperty_plain value .comma .nil).mpr ⟨names_plain value, trivial⟩)
    have ihkey := createType_tree customTypes key .comma (value.tree .comma .nil) hplain
    have ihvalue := createType_tree customTypes value .comma .nil trivial
    obtain ⟨name, children, hnode⟩ := exists_node key .comma
    obtain ⟨name', children', hnode'⟩ := exists_node value .comma
    rw [hnode, hnode'] at ihkey
    rw [hnode'] at ihvalue
    rw [tree, Forest.map, hnode, hnode', Written.type, ParsedType.ofType,
      createType_map_eq_some_iff (lookup_nested (by simp)), ihkey, ihvalue,
      Builds]
    simp [Forest.map, isCustom]
    tauto
  | .tuple first rest, mark, next, _ => by
    have ih := createType_tree customTypes first .comma (restTree rest) (plain_restTree rest)
    have ihrest := tupleFromNode_restTree customTypes rest [.ofType first.type]
    rw [← List.nil_append [_]] at ihrest
    have htuple := tupleFromNode_tree ih ihrest
    rw [tree, Forest.map, createType_tuple (lookup_nested (by simp)),
      Written.type, ParsedType.ofType, ParsedType.ofTypes, Builds]
    simpa [isCustom] using htuple
  | .udt keyspace typeName fields, mark, next, _ => by
    simp only [tree, Forest.map]
    rw [createType_udt (lookup_nested (by simp)), Written.type,
      ParsedType.ofType, Builds, fromHex_hexText]
    by_cases hnames : (fields.map Prod.fst).Nodup
    · have ih := userTypeFromNode_fieldsTree customTypes fields [] (by simpa using hnames)
      simpa [isCustom, hnames] using ih
    · -- the names of the fields that are kept are different
      have hnot : userTypeFromNode customTypes
          ((fieldsTree fields).map Label.text) [] ≠
            some (ParsedType.ofFields (fieldTypes fields)) := by
        intro h
        have hkept := (kept_of_userTypeFromNode h).2 (by simp)
        rw [names_ofFields] at hkept
        exact hnames hkept
      simp [isCustom, hnames, hnot]
  | .frozen inner, mark, next, _ => by
    have ih := createType_tree customTypes inner .comma .nil trivial
    rw [tree, Forest.map, createType_wrapper (isWrapper_marshalClass (by simp)), Written.type,
      Builds]
    simpa [Forest.map, isCustom] using ih
  | .reversed inner, mark, next, _ => by
    have ih := createType_tree customTypes inner .comma .nil trivial
    rw [tree, Forest.map, createType_wrapper (isWrapper_marshalClass (by simp)), Written.type,
      Builds]
    simpa [Forest.map, isCustom] using ih

theorem tupleFromNode_restTree (customTypes : Bool) :
    ∀ (ws : List Written) (types : List ParsedType),
      tupleFromNode customTypes ((restTree ws).map Label.text) types =
          some (types ++ ParsedType.ofTypes (Written.types ws)) ↔
        BuildsRest customTypes ws
  | [], types => by
    simp [restTree, Forest.map, tupleFromNode, Written.types, ParsedType.ofTypes, BuildsRest]
  | w :: ws, types => by
    exact tupleFromNode_tree
      (createType_tree customTypes w .comma (restTree ws) (plain_restTree ws))
      (tupleFromNode_restTree customTypes ws (types ++ [.ofType w.type]))

theorem userTypeFromNode_fieldsTree (customTypes : Bool) :
    ∀ (fields : List (Bytes × Written)) (types : List (Bytes × ParsedType)),
      (types.map Prod.fst ++ fields.map Prod.fst).Nodup →
        (userTypeFromNode customTypes ((fieldsTree fields).map Label.text)
            types = some (types ++ ParsedType.ofFields (fieldTypes fields)) ↔
          BuildsFields customTypes fields)
  | [], types, _ => by
    simp [fieldsTree, Forest.map, userTypeFromNode, fieldTypes, ParsedType.ofFields, BuildsFields]
  | (field, w) :: fields, types, hnames => by
    have hnew : field ∉ types.map Prod.fst := by
      intro hmem
      exact (List.nodup_append.mp hnames).2.2 field hmem field (by simp) rfl
    have ih := createType_tree customTypes w .colon (fieldsTree fields) (plain_fieldsTree fields)
    have ihfields := userTypeFromNode_fieldsTree customTypes fields
      (types ++ [(field, .ofType w.type)]) (by simpa using hnames)
    obtain ⟨name, children, hnode⟩ := exists_node w .colon
    rw [List.append_assoc, List.singleton_append] at ihfields
    rw [hnode, isCustom_iff, fieldsTree_eq_nil_iff] at ih
    rw [fieldsTree, Forest.map, Forest.map, hnode, fieldTypes,
      ParsedType.ofFields, userTypeFromNode_cons_iff hnew, ih, ihfields,
      BuildsFields]
    tauto

end

end Written

theorem createType_skipOuter (customTypes : Bool) (node : Forest Bytes) (reversed frozen : Bool) :
    createType customTypes (skipOuter node reversed frozen).2.2 = createType customTypes node := by
  induction node generalizing reversed frozen with
  | nil => rfl
  | cons name children next ih _ =>
    simp only [skipOuter]
    split
    · next h =>
        rw [ih, createType_wrapper (by simp [isWrapper, h])]
    · split
      · next h =>
          rw [ih, createType_wrapper (by simp [isWrapper, h])]
      · split
        · next h =>
            rw [ih, createType_wrapper (by simp [isWrapper, h])]
        · rfl

theorem columnOfRoot_eq_parsed_iff {node : Forest Bytes} {reversed frozen : Bool} :
    columnOfRoot customTypes node = .parsed reversed frozen (.ofType type) ↔
      (skipOuter node false false).1 = reversed ∧
        (skipOuter node false false).2.1 = frozen ∧
        createType customTypes node = some (.ofType type) := by
  have hundef : ParsedType.undef ≠ .ofType type := by
    cases type <;> simp [ParsedType.ofType]
  rw [← createType_skipOuter customTypes node false false, columnOfRoot]
  rcases skipOuter node false false with ⟨wasReversed, wasFrozen, inner⟩
  cases inner with
  | nil =>
    simp [createType, hundef]
  | cons name children next =>
    cases hbuilt : createType customTypes (.cons name children next) <;>
      simp [hbuilt]

theorem skipOuter_of_not_wrapper {name : Bytes} {reversed frozen : Bool}
    (h : isWrapper name = false) :
    skipOuter (.cons name children next) reversed frozen =
      (reversed, frozen, .cons name children next) := by
  simp only [isWrapper, Bool.or_eq_false_iff] at h
  simp [skipOuter, h]

theorem isWrapper_nested {className : String}
    (h : className ∈ ["ListType", "SetType", "MapType", "TupleType",
      "UserType"]) : isWrapper (marshalClass className) = false := by
  simp only [List.mem_cons, List.not_mem_nil, or_false] at h
  rcases h with rfl | rfl | rfl | rfl | rfl <;>
    exact (lookup_nested (by simp; rfl)).1

theorem skipOuter_reversed (children next : Forest Bytes) (reversed frozen : Bool) :
    skipOuter (.cons (marshalClass "ReversedType") children next) reversed frozen =
      skipOuter children true frozen := by
  have h : isNamed "ReversedType" (marshalClass "ReversedType") = true := by
    rw [isNamed_marshalClass (by decide +kernel)]
    decide +kernel
  simp [skipOuter, h]

theorem skipOuter_frozen (children next : Forest Bytes) (reversed frozen : Bool) :
    skipOuter (.cons (marshalClass "FrozenType") children next) reversed frozen =
      skipOuter children reversed true := by
  have hletters : (ascii "FrozenType").all isletter = true := by
    decide +kernel
  have h : isNamed "ReversedType" (marshalClass "FrozenType") = false ∧
      isNamed "FrozenType" (marshalClass "FrozenType") = true := by
    rw [isNamed_marshalClass hletters, isNamed_marshalClass hletters]
    decide +kernel
  simp [skipOuter, h]

namespace Written

theorem skipOuter_nodes {customTypes : Bool} :
    ∀ (w : Written) (next : Forest Label) (wasReversed wasFrozen : Bool),
      w.Builds customTypes →
        (skipOuter (w.nodes next) wasReversed wasFrozen).1 = (wasReversed || w.isReversed) ∧
          (skipOuter (w.nodes next) wasReversed wasFrozen).2.1 = (wasFrozen || w.isFrozen)
  | .reversed inner, next, wasReversed, wasFrozen, h => by
    have ih := skipOuter_nodes inner .nil true wasFrozen h
    rw [nodes, tree, Forest.map, skipOuter_reversed, ← nodes]
    simpa [isReversed, isFrozen] using ih
  | .frozen inner, next, wasReversed, wasFrozen, h => by
    have ih := skipOuter_nodes inner .nil wasReversed true h
    rw [nodes, tree, Forest.map, skipOuter_frozen, ← nodes]
    simpa [isReversed, isFrozen] using ih
  | .scalar type className hclass, next, wasReversed, wasFrozen, h => by
    rw [nodes, tree, Forest.map, skipOuter_of_not_wrapper (lookup_scalar hclass).1]
    simp [isReversed, isFrozen]
  | .custom name args, next, wasReversed, wasFrozen, h => by
    rw [nodes, tree, Forest.map, skipOuter_of_not_wrapper
      (lookup_of_not_beginsKnown name.plain h.2.1).1]
    simp [isReversed, isFrozen]
  | .list _, next, wasReversed, wasFrozen, h
  | .set _, next, wasReversed, wasFrozen, h
  | .map _ _, next, wasReversed, wasFrozen, h
  | .tuple _ _, next, wasReversed, wasFrozen, h
  | .udt _ _ _, next, wasReversed, wasFrozen, h => by
    rw [nodes, tree, Forest.map, skipOuter_of_not_wrapper (isWrapper_nested (by simp))]
    simp [isReversed, isFrozen]

theorem columnOfRoot_nodes (customTypes : Bool) (w : Written) :
    columnOfRoot customTypes (w.nodes .nil) = .parsed w.isReversed w.isFrozen (.ofType w.type) ↔
      w.Builds customTypes := by
  have hcreate := createType_tree customTypes w .comma .nil trivial
  rw [← nodes] at hcreate
  rw [columnOfRoot_eq_parsed_iff]
  constructor
  · rintro ⟨-, -, h⟩
    exact (hcreate.mp h).1
  · intro h
    obtain ⟨hreversed, hfrozen⟩ := skipOuter_nodes w .nil false false h
    exact ⟨by simpa using hreversed, by simpa using hfrozen, hcreate.mpr ⟨h, fun _ => rfl⟩⟩

/-- For which types in class-name notation `php_scylladb_parse_column_type`
returns the type and the flags that are written. -/
theorem parseColumnType_text_iff
    (customTypes : Bool)
    (w : Written) :
    parseColumnType customTypes w.text =
        some (.parsed w.isReversed w.isFrozen (.ofType w.type)) ↔
      w.Readable customTypes := by
  obtain ⟨hlegible, hillegible⟩ := parseClassName_text w
  unfold parseColumnType Readable
  by_cases h : w.Legible
  · rw [hlegible h]
    simpa [h] using columnOfRoot_nodes customTypes w
  · obtain ⟨r, hr⟩ := hillegible h
    rw [hr]
    simp [h]

/-- A user type of the keyspace `my_ks` is refused at the underscore. -/
theorem parseColumnType_underscore :
    parseColumnType true
        (Written.udt ⟨ascii "my_ks", by decide +kernel⟩ (ascii "addr")
          [(ascii "zip", .scalar .int "Int32Type" (by decide))]).text =
      some (.refused (.illegalCharacter (chr '_') 42)) := by
  have h : parseClassName
      (Written.udt ⟨ascii "my_ks", by decide +kernel⟩ (ascii "addr")
        [(ascii "zip", .scalar .int "Int32Type" (by decide))]).text =
      some (.refused (.illegalCharacter (chr '_') 42)) := by
    decide +kernel
  rw [parseColumnType, h]
  rfl

end Written

end Marshal
end ScyllaDriver
