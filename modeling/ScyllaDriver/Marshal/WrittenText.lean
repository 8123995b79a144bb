import ScyllaDriver.Marshal.WrittenType

/-!
# The notation and its tree

The text of a written type is the text of its tree. The labels of the tree
are free of marks, a colon stands after the name of a field only, and the
labels are names exactly if the written type is legible. So the class name
parser gives the tree of a legible type, and refuses every other one.
-/

namespace ScyllaDriver
namespace Marshal

open CString
open Values (ScalarType)

theorem isName_of_isalnum {t : Bytes} (h : ∀ c ∈ t, isalnum c = true) : IsName t ↔ t ≠ [] := by
  constructor
  · rintro ⟨⟨c, hc, -⟩, -⟩ rfl
    simp at hc
  · intro hne
    obtain ⟨c, cs, rfl⟩ := List.exists_cons_of_ne_nil hne
    exact ⟨⟨c, by simp, h c (by simp)⟩, fun d hd => isletter_of_isalnum (h d hd)⟩

theorem marshalClass_eq (className : String) :
    marshalClass className = ascii "org.apache.cassandra.db.marshal." ++ ascii className := by
  simp [marshalClass, ascii, String.toList_append]

theorem isName_marshalClass_of_letters {className : String}
    (h : (ascii className).all isletter = true) : IsName (marshalClass className) := by
  have hpackage : (ascii "org.apache.cassandra.db.marshal.").all isletter = true := by
    decide +kernel
  rw [marshalClass_eq]
  refine ⟨⟨chr 'o', by rfl, by decide⟩, ?_⟩
  intro c hc
  rcases List.mem_append.mp hc with hc | hc
  · exact List.all_eq_true.mp hpackage c hc
  · exact List.all_eq_true.mp h c hc

def allScalars : List ScalarType :=
  [.ascii, .bigint, .blob, .boolean, .counter, .decimal, .double, .float,
    .int, .text, .timestamp, .uuid, .varchar, .varint, .timeuuid, .inet,
    .date, .time, .smallint, .tinyint, .duration]

theorem mem_allScalars (type : ScalarType) : type ∈ allScalars := by
  cases type <;> decide

theorem isName_marshalClass {type : ScalarType} {className : String}
    (h : className ∈ scalarClasses type) : IsName (marshalClass className) := by
  have hall : ∀ type ∈ allScalars, ∀ className ∈ scalarClasses type,
      (ascii className).all isletter = true := by
    decide +kernel
  exact isName_marshalClass_of_letters (hall type (mem_allScalars type) className h)

theorem isName_nested (className : String)
    (h : className ∈ ["ListType", "SetType", "MapType", "TupleType",
      "UserType", "FrozenType", "ReversedType"]) : IsName (marshalClass className) := by
  have hall : ∀ className ∈ ["ListType", "SetType", "MapType", "TupleType",
      "UserType", "FrozenType", "ReversedType"],
      (ascii className).all isletter = true := by
    decide +kernel
  exact isName_marshalClass_of_letters (hall className h)

theorem KeyspaceName.plain (keyspace : KeyspaceName) : Plain keyspace.text := by
  intro c hc
  rcases keyspace.letters c hc with halnum | rfl
  · exact isMark_of_isletter (isletter_of_isalnum halnum)
  · decide

theorem KeyspaceName.isName_iff (keyspace : KeyspaceName) :
    IsName keyspace.text ↔ keyspace.text ≠ [] ∧ chr '_' ∉ keyspace.text := by
  by_cases hunderscore : chr '_' ∈ keyspace.text
  · refine iff_of_false ?_ (fun h => h.2 hunderscore)
    intro hname
    have := hname.letters _ hunderscore
    revert this
    decide
  · rw [isName_of_isalnum]
    · simp [hunderscore]
    · intro c hc
      rcases keyspace.letters c hc with halnum | rfl
      · exact halnum
      · exact absurd hc hunderscore

theorem hexDigit_facts :
    ∀ n < 16, isalnum (hexDigit n) = true ∧ hexValue (hexDigit n) = some n := by
  decide

theorem hexText_cons (c : UInt8) (name : Bytes) :
    hexText (c :: name) = hexDigit (c.toNat / 16) :: hexDigit (c.toNat % 16) :: hexText name :=
  rfl

theorem isalnum_of_mem_hexText {name : Bytes} {c : UInt8} (hc : c ∈ hexText name) :
    isalnum c = true := by
  obtain ⟨b, -, hb⟩ := List.mem_flatMap.mp hc
  have hlt := b.toNat_lt
  simp only [List.mem_cons, List.not_mem_nil, or_false] at hb
  rcases hb with rfl | rfl
  · exact (hexDigit_facts _ (by omega)).1
  · exact (hexDigit_facts _ (by omega)).1

theorem isName_hexText (name : Bytes) : IsName (hexText name) ↔ name ≠ [] := by
  rw [isName_of_isalnum fun c hc => isalnum_of_mem_hexText hc]
  cases name <;> simp [hexText]

theorem hexText_plain (name : Bytes) : Plain (hexText name) :=
  fun _ hc =>
    isMark_of_isletter (isletter_of_isalnum (isalnum_of_mem_hexText hc))

@[simp] theorem fromHex_hexText (name : Bytes) : fromHex (hexText name) = some name := by
  induction name with
  | nil =>
    rfl
  | cons c name ih =>
    have hlt := c.toNat_lt
    have hhigh := (hexDigit_facts (c.toNat / 16) (by omega)).2
    have hlow := (hexDigit_facts (c.toNat % 16) (by omega)).2
    have hbyte : UInt8.ofNat (c.toNat / 16 * 16 + c.toNat % 16) = c := by
      rw [Nat.div_add_mod', UInt8.ofNat_toNat]
    rw [hexText_cons, fromHex, hhigh, hlow, ih]
    exact congrArg (fun b => some (b :: name)) hbyte

/-- The arguments of a custom class as part of the tree. -/
abbrev argumentsTree (args : Forest ClassName) : Forest Label :=
  args.map fun arg => ⟨.comma, arg.text⟩

theorem forestText_argumentsTree (args : Forest ClassName) :
    forestText (argumentsTree args) = classText args := by
  induction args with
  | nil =>
    rfl
  | cons name args next iha ihn =>
    simp only [argumentsTree, Forest.map, forestText, classText] at iha ihn ⊢
    rw [Forest.isNil_map, iha, ihn]
    cases next with
    | nil =>
      simp [Forest.map, classText]
    | cons name' args' next' =>
      simp [Forest.map, Separator.char]

namespace Written

@[simp] theorem isNil_tree (w : Written) (mark : Separator) (next : Forest Label) :
    (w.tree mark next).isNil = false := by
  cases w <;> simp [tree]

@[simp] theorem leadingMark_tree (w : Written) (mark : Separator) (next : Forest Label) :
    leadingMark (w.tree mark next) = [mark.char] := by
  cases w <;> simp [tree]

theorem forestText_applied {className : String} {children : Forest Label}
    (hchildren : children.isNil = false) (mark : Separator) (next : Forest Label) :
    forestText (.cons ⟨mark, marshalClass className⟩ children next) =
      applied className (forestText children) ++ (leadingMark next ++ forestText next) := by
  simp [forestText, applied, hchildren]

mutual
theorem forestText_tree : ∀ (w : Written) (mark : Separator) (next : Forest Label),
    forestText (w.tree mark next) = w.text ++ (leadingMark next ++ forestText next)
  | .scalar type className h, mark, next => by
    simp [tree, forestText, text]
  | .custom name args, mark, next => by
    simp [tree, forestText, text, classText, ← forestText_argumentsTree]
  | .list value, mark, next => by
    rw [tree, forestText_applied (by simp), forestText_tree value, text]
    simp [forestText]
  | .set value, mark, next => by
    rw [tree, forestText_applied (by simp), forestText_tree value, text]
    simp [forestText]
  | .map key value, mark, next => by
    rw [tree, forestText_applied (by simp), forestText_tree key, forestText_tree value, text]
    simp [forestText, Separator.char]
  | .tuple first rest, mark, next => by
    rw [tree, forestText_applied (by simp), forestText_tree first, forestText_restTree rest, text]
  | .udt keyspace typeName fields, mark, next => by
    rw [tree, forestText_applied rfl, text, ← forestText_fieldsTree fields]
    simp [forestText, Separator.char]
  | .frozen inner, mark, next => by
    rw [tree, forestText_applied (by simp), forestText_tree inner, text]
    simp [forestText]
  | .reversed inner, mark, next => by
    rw [tree, forestText_applied (by simp), forestText_tree inner, text]
    simp [forestText]

theorem forestText_restTree : ∀ ws : List Written,
    leadingMark (restTree ws) ++ forestText (restTree ws) = restText ws
  | [] => rfl
  | w :: ws => by
    rw [restTree, leadingMark_tree, forestText_tree w, forestText_restTree ws, restText]
    simp [Separator.char]

theorem forestText_fieldsTree : ∀ fields : List (Bytes × Written),
    leadingMark (fieldsTree fields) ++ forestText (fieldsTree fields) = fieldsText fields
  | [] => rfl
  | (name, w) :: fields => by
    rw [fieldsTree, fieldsText, ← forestText_fieldsTree fields]
    simp [forestText, forestText_tree w, Separator.char]

end

/-- A property of labels that the fixed class names have. -/
structure LabelProperty (p : Bytes → Prop) : Prop where
  scalar : ∀ {type : ScalarType} {className : String},
    className ∈ scalarClasses type → p (marshalClass className)
  nested : ∀ className ∈ ["ListType", "SetType", "MapType", "TupleType",
    "UserType", "FrozenType", "ReversedType"], p (marshalClass className)

theorem labelProperty_isName : LabelProperty IsName :=
  ⟨isName_marshalClass, isName_nested⟩

theorem labelProperty_plain : LabelProperty Plain :=
  ⟨fun h => (isName_marshalClass h).plain, fun className h => (isName_nested className h).plain⟩

theorem all_argumentsTree {p : Bytes → Prop} (args : Forest ClassName) :
    ((argumentsTree args).All fun label => p label.text) ↔ args.All fun arg => p arg.text :=
  Forest.all_map _ args

mutual
/-- The names that the type itself brings in have the property. -/
def Names (p : Bytes → Prop) : Written → Prop
  | .scalar _ _ _ => True
  | .custom name args => p name.text ∧ args.All fun arg => p arg.text
  | .list value => value.Names p
  | .set value => value.Names p
  | .map key value => key.Names p ∧ value.Names p
  | .tuple first rest => first.Names p ∧ NamesRest p rest
  | .udt keyspace typeName fields =>
    p keyspace.text ∧ p (hexText typeName) ∧ NamesFields p fields
  | .frozen inner => inner.Names p
  | .reversed inner => inner.Names p

def NamesRest (p : Bytes → Prop) : List Written → Prop
  | [] => True
  | w :: ws => w.Names p ∧ NamesRest p ws

def NamesFields (p : Bytes → Prop) : List (Bytes × Written) → Prop
  | [] => True
  | (name, w) :: fields => p (hexText name) ∧ w.Names p ∧ NamesFields p fields

end

mutual
theorem all_tree {p : Bytes → Prop} (hp : LabelProperty p) :
    ∀ (w : Written) (mark : Separator) (next : Forest Label),
    ((w.tree mark next).All fun label => p label.text) ↔
      w.Names p ∧ next.All fun label => p label.text
  | .scalar type className h, mark, next => by
    simp [tree, Forest.All, Names, hp.scalar h]
  | .custom name args, mark, next => by
    simp [tree, Forest.All, Names, all_argumentsTree, and_assoc]
  | .list value, mark, next => by
    simp [tree, Forest.All, Names, hp.nested, all_tree hp value]
  | .set value, mark, next => by
    simp [tree, Forest.All, Names, hp.nested, all_tree hp value]
  | .map key value, mark, next => by
    simp [tree, Forest.All, Names, hp.nested, all_tree hp key, all_tree hp value]
  | .tuple first rest, mark, next => by
    simp [tree, Forest.All, Names, hp.nested, all_tree hp first, all_restTree hp rest]
  | .udt keyspace typeName fields, mark, next => by
    simp [tree, Forest.All, Names, hp.nested, all_fieldsTree hp fields]
  | .frozen inner, mark, next => by
    simp [tree, Forest.All, Names, hp.nested, all_tree hp inner]
  | .reversed inner, mark, next => by
    simp [tree, Forest.All, Names, hp.nested, all_tree hp inner]

theorem all_restTree {p : Bytes → Prop} (hp : LabelProperty p) :
    ∀ ws : List Written,
    ((restTree ws).All fun label => p label.text) ↔ NamesRest p ws
  | [] => by
    simp [restTree, Forest.All, NamesRest]
  | w :: ws => by
    simp [restTree, NamesRest, all_tree hp w, all_restTree hp ws]

theorem all_fieldsTree {p : Bytes → Prop} (hp : LabelProperty p) :
    ∀ fields : List (Bytes × Written),
    ((fieldsTree fields).All fun label => p label.text) ↔ NamesFields p fields
  | [] => by
    simp [fieldsTree, Forest.All, NamesFields]
  | (name, w) :: fields => by
    simp [fieldsTree, Forest.All, NamesFields, all_tree hp w, all_fieldsTree hp fields]

end

mutual
theorem names_isName_iff : ∀ w : Written, w.Names IsName ↔ w.Legible
  | .scalar _ _ _ => Iff.rfl
  | .custom _ _ => Iff.rfl
  | .list value => by
    simp [Names, Legible, names_isName_iff value]
  | .set value => by
    simp [Names, Legible, names_isName_iff value]
  | .map key value => by
    simp [Names, Legible, names_isName_iff key, names_isName_iff value]
  | .tuple first rest => by
    simp [Names, Legible, names_isName_iff first, namesRest_isName_iff rest]
  | .udt keyspace typeName fields => by
    simp [Names, Legible, keyspace.isName_iff, isName_hexText,
      namesFields_isName_iff fields, and_assoc]
  | .frozen inner => by
    simp [Names, Legible, names_isName_iff inner]
  | .reversed inner => by
    simp [Names, Legible, names_isName_iff inner]

theorem namesRest_isName_iff : ∀ ws : List Written, NamesRest IsName ws ↔ LegibleRest ws
  | [] => Iff.rfl
  | w :: ws => by
    simp [NamesRest, LegibleRest, names_isName_iff w, namesRest_isName_iff ws]

theorem namesFields_isName_iff : ∀ fields : List (Bytes × Written),
    NamesFields IsName fields ↔ LegibleFields fields
  | [] => Iff.rfl
  | (name, w) :: fields => by
    simp [NamesFields, LegibleFields, isName_hexText, names_isName_iff w,
      namesFields_isName_iff fields]

end

theorem all_plain (args : Forest ClassName) : args.All fun arg => Plain arg.text := by
  induction args with
  | nil =>
    trivial
  | cons name args next iha ihn =>
    exact ⟨name.plain, iha, ihn⟩

mutual
theorem names_plain : ∀ w : Written, w.Names Plain
  | .scalar _ _ _ => trivial
  | .custom name args => ⟨name.plain, all_plain args⟩
  | .list value => names_plain value
  | .set value => names_plain value
  | .map key value => ⟨names_plain key, names_plain value⟩
  | .tuple first rest => ⟨names_plain first, namesRest_plain rest⟩
  | .udt keyspace typeName fields =>
    ⟨keyspace.plain, hexText_plain typeName, namesFields_plain fields⟩
  | .frozen inner => names_plain inner
  | .reversed inner => names_plain inner

theorem namesRest_plain : ∀ ws : List Written, NamesRest Plain ws
  | [] => trivial
  | w :: ws => ⟨names_plain w, namesRest_plain ws⟩

theorem namesFields_plain : ∀ fields : List (Bytes × Written), NamesFields Plain fields
  | [] => trivial
  | (name, w) :: fields =>
    ⟨hexText_plain name, names_plain w, namesFields_plain fields⟩

end

theorem comma_ne_colon : [Separator.comma.char] ≠ [chr ':'] := by
  decide

theorem colons_argumentsTree (args : Forest ClassName) :
    ColonsAfterLeaves (argumentsTree args) := by
  induction args with
  | nil =>
    trivial
  | cons name args next iha ihn =>
    refine ⟨iha, ihn, ?_⟩
    intro hcolon
    cases next with
    | nil =>
      cases hcolon
    | cons name' args' next' =>
      exact absurd hcolon comma_ne_colon

mutual
theorem colons_tree : ∀ (w : Written) (mark : Separator) (next : Forest Label),
    ColonsAfterLeaves next → leadingMark next ≠ [chr ':'] →
    ColonsAfterLeaves (w.tree mark next)
  | .scalar _ _ _, mark, next, hnext, hmark =>
    ⟨trivial, hnext, fun h => absurd h hmark⟩
  | .custom _ args, mark, next, hnext, hmark =>
    ⟨colons_argumentsTree args, hnext, fun h => absurd h hmark⟩
  | .list value, mark, next, hnext, hmark =>
    ⟨colons_tree value .comma .nil trivial (by simp), hnext, fun h => absurd h hmark⟩
  | .set value, mark, next, hnext, hmark =>
    ⟨colons_tree value .comma .nil trivial (by simp), hnext, fun h => absurd h hmark⟩
  | .map key value, mark, next, hnext, hmark =>
    ⟨colons_tree key .comma _ (colons_tree value .comma .nil trivial (by simp))
      (by rw [leadingMark_tree]; exact comma_ne_colon), hnext,
      fun h => absurd h hmark⟩
  | .tuple first rest, mark, next, hnext, hmark =>
    ⟨colons_tree first .comma _ (colons_restTree rest).1
      (colons_restTree rest).2, hnext, fun h => absurd h hmark⟩
  | .udt keyspace typeName fields, mark, next, hnext, hmark =>
    ⟨⟨trivial, ⟨trivial, (colons_fieldsTree fields).1,
      fun h => absurd h (colons_fieldsTree fields).2⟩,
      fun h => absurd h comma_ne_colon⟩, hnext, fun h => absurd h hmark⟩
  | .frozen inner, mark, next, hnext, hmark =>
    ⟨colons_tree inner .comma .nil trivial (by simp), hnext, fun h => absurd h hmark⟩
  | .reversed inner, mark, next, hnext, hmark =>
    ⟨colons_tree inner .comma .nil trivial (by simp), hnext, fun h => absurd h hmark⟩

theorem colons_restTree : ∀ ws : List Written,
    ColonsAfterLeaves (restTree ws) ∧ leadingMark (restTree ws) ≠ [chr ':']
  | [] => ⟨trivial, by simp [restTree]⟩
  | w :: ws =>
    ⟨colons_tree w .comma _ (colons_restTree ws).1 (colons_restTree ws).2,
      by rw [restTree, leadingMark_tree]; exact comma_ne_colon⟩

theorem colons_fieldsTree : ∀ fields : List (Bytes × Written),
    ColonsAfterLeaves (fieldsTree fields) ∧ leadingMark (fieldsTree fields) ≠ [chr ':']
  | [] => ⟨trivial, by simp [fieldsTree]⟩
  | (name, w) :: fields =>
    ⟨⟨trivial, colons_tree w .colon _ (colons_fieldsTree fields).1
      (colons_fieldsTree fields).2, fun _ => rfl⟩,
      comma_ne_colon⟩

end

/-- The nodes of a written type, as the parser builds them. -/
def nodes (w : Written) (next : Forest Label) : Forest Bytes :=
  (w.tree .comma next).map Label.text

theorem parseClassName_text (w : Written) :
    (w.Legible → parseClassName w.text = some (.parsed (w.nodes .nil))) ∧
    (¬w.Legible → ∃ r, parseClassName w.text = some (.refused r)) := by
  have htext : w.text = forestText (w.tree .comma .nil) := by
    rw [forestText_tree w]
    simp [forestText]
  have hplain := (all_tree labelProperty_plain w .comma .nil).mpr ⟨names_plain w, trivial⟩
  have hcolons := colons_tree w .comma .nil trivial (by simp)
  have hnames := all_tree labelProperty_isName w .comma .nil
  rw [names_isName_iff w] at hnames
  obtain ⟨label, children, htree⟩ :
      ∃ label children, w.tree .comma .nil = .cons label children .nil := by
    cases w <;> exact ⟨_, _, by rw [tree]⟩
  rw [htext, nodes, htree]
  rw [htree] at hplain hcolons hnames
  have hparse := parseClassName_tree hplain.1 hplain.2.1
  have hlegible : IsName label.text ∧ Parsable children ↔ w.Legible := by
    rw [Parsable, and_iff_left hcolons.1]
    simpa [Forest.All] using hnames
  rw [hlegible] at hparse
  exact hparse

end Written

end Marshal
end ScyllaDriver
