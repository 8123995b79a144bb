import ScyllaDriver.Marshal.ClassNameLaw

/-!
# Trees with open nodes

While the parser works, the nodes from the root to the current one are open: they
may still get children and siblings. `plug` closes them, and `opened` is the text
that has been read up to the name of the current node. The text of the closed tree
is that text, the children of the current node, and one closing parenthesis for
every other open node.
-/

namespace ScyllaDriver
namespace Marshal

open CString

def parens (children : Forest Label) : Bytes :=
  if children.isNil then [] else chr '(' :: forestText children ++ [chr ')']

theorem forestText_cons (label : Label) (children siblings : Forest Label) :
    forestText (.cons label children siblings) =
      label.text ++ parens children ++ leadingMark siblings ++ forestText siblings :=
  rfl

@[simp] theorem parens_nil : parens .nil = [] :=
  rfl

variable {children : Forest Label}

theorem parens_of_ne_nil (hne : children ≠ .nil) :
    parens children = chr '(' :: forestText children ++ [chr ')'] := by
  cases children with
  | nil => exact absurd rfl hne
  | cons label children siblings => rfl

/-- An open node: the siblings before it and its label. -/
structure OpenNode where
  before : List (Label × Forest Label)
  label : Label

namespace OpenNode

/-- The node with the siblings before it. -/
def closed (node : OpenNode) (children : Forest Label) : Forest Label :=
  Forest.prepend node.before (.cons node.label children .nil)

def level (node : OpenNode) : Level where
  before := node.before.map fun tree => (tree.1.text, tree.2.map Label.text)
  name := node.label.text

end OpenNode

/-- Close the open nodes, of which the innermost is the first. -/
def plug : List OpenNode → Forest Label → Forest Label
  | [], forest => forest
  | node :: up, children => plug up (node.closed children)

/-- The text up to the first child of the innermost open node. -/
def entered : List OpenNode → Bytes
  | [] => []
  | node :: up => entered up ++ forestText (node.closed .nil) ++ [chr '(']

/-- The text up to the name of the innermost open node. -/
def opened (node : OpenNode) (up : List OpenNode) : Bytes :=
  entered up ++ forestText (node.closed .nil)

/-- The root has no siblings. -/
def Rooted : List OpenNode → Prop
  | [] => True
  | [node] => node.before = []
  | _ :: parent :: up => Rooted (parent :: up)

theorem closed_ne_nil (node : OpenNode) (children : Forest Label) :
    node.closed children ≠ .nil := by
  unfold OpenNode.closed
  cases node.before with
  | nil => exact nofun
  | cons tree trees => exact nofun

theorem leadingMark_closed (node : OpenNode) (children : Forest Label) :
    leadingMark (node.closed children) = leadingMark (node.closed .nil) := by
  unfold OpenNode.closed
  cases node.before with
  | nil => rfl
  | cons tree trees => rfl

theorem forestText_closed (node : OpenNode) (children : Forest Label) :
    forestText (node.closed children) = forestText (node.closed .nil) ++ parens children := by
  obtain ⟨before, label⟩ := node
  induction before with
  | nil => simp [OpenNode.closed, Forest.prepend, forestText_cons, forestText]
  | cons tree trees ih =>
    have hmark := leadingMark_closed ⟨trees, label⟩ children
    simp only [OpenNode.closed] at ih hmark ⊢
    simp only [Forest.prepend, forestText_cons, hmark, ih, List.append_assoc]

theorem forestText_plug (node : OpenNode) (up : List OpenNode) (children : Forest Label) :
    forestText (plug (node :: up) children) =
      opened node up ++ parens children ++ List.replicate up.length (chr ')') := by
  induction up generalizing node children with
  | nil => simp [plug, opened, entered, forestText_closed node children]
  | cons parent up ih =>
    have hclosed := parens_of_ne_nil (closed_ne_nil node children)
    rw [plug, ih, hclosed, forestText_closed node children, List.length_cons, List.replicate_succ]
    simp [opened, entered]

/-- The text before the label of a node depends on its mark only. -/
theorem exists_forestText_closed (before : List (Label × Forest Label)) (mark : Separator) :
    ∃ pre, ∀ text, forestText (OpenNode.closed ⟨before, ⟨mark, text⟩⟩ .nil) = pre ++ text := by
  induction before with
  | nil => exact ⟨[], fun text => by simp [OpenNode.closed, Forest.prepend, forestText_cons,
      forestText]⟩
  | cons tree trees ih =>
    obtain ⟨pre, hpre⟩ := ih
    have hmark : ∀ text, leadingMark (OpenNode.closed ⟨trees, ⟨mark, text⟩⟩ .nil) =
        leadingMark (OpenNode.closed ⟨trees, ⟨mark, []⟩⟩ .nil) := by
      intro text
      cases trees with
      | nil => rfl
      | cons tree trees => rfl
    refine ⟨tree.1.text ++ parens tree.2 ++
      leadingMark (OpenNode.closed ⟨trees, ⟨mark, []⟩⟩ .nil) ++ pre, fun text => ?_⟩
    rw [← hmark text, List.append_assoc, ← hpre text]
    rfl

theorem forestText_addSibling (node : OpenNode) (children : Forest Label) (mark : Separator)
    (text : Bytes) :
    forestText (OpenNode.closed ⟨node.before ++ [(node.label, children)], ⟨mark, text⟩⟩ .nil) =
      forestText (node.closed children) ++ [mark.char] ++ text := by
  obtain ⟨before, label⟩ := node
  induction before with
  | nil => simp [OpenNode.closed, Forest.prepend, forestText_cons, forestText]
  | cons tree trees ih =>
    have hmark : leadingMark (Forest.prepend (trees ++ [(label, children)])
          (.cons ⟨mark, text⟩ .nil .nil)) =
        leadingMark (Forest.prepend trees (.cons label children .nil)) := by
      cases trees with
      | nil => rfl
      | cons tree trees => rfl
    simp only [OpenNode.closed] at ih ⊢
    simp only [List.cons_append, Forest.prepend, forestText_cons, hmark, ih, List.append_assoc]

variable {node : OpenNode}

theorem plug_of_rooted {up : List OpenNode} (hrooted : Rooted (node :: up))
    (children : Forest Label) :
    ∃ label below, plug (node :: up) children = .cons label below .nil := by
  induction up generalizing node children with
  | nil =>
    have hbefore : node.before = [] := hrooted
    exact ⟨node.label, children, by simp [plug, OpenNode.closed, hbefore, Forest.prepend]⟩
  | cons parent up ih => exact ih hrooted (node.closed children)

theorem level_close (node : OpenNode) (children : Forest Label) :
    node.level.close (children.map Label.text) = (node.closed children).map Label.text := by
  simp [Level.close, OpenNode.level, OpenNode.closed, Forest.map_prepend, Forest.map]

theorem root_map_level (nodes : List OpenNode) (children : Forest Label) :
    root (nodes.map OpenNode.level) (children.map Label.text) =
      (plug nodes children).map Label.text := by
  induction nodes generalizing children with
  | nil => rfl
  | cons node up ih => rw [List.map_cons, root, level_close, ih, plug]

/-- The siblings before the node and its own name are parsable. -/
def OpenNode.Parsable (node : OpenNode) : Prop :=
  Marshal.Parsable (node.closed .nil)

theorem parsable_cons {label : Label} {siblings : Forest Label} :
    Parsable (.cons label children siblings) ↔
      IsName label.text ∧ Parsable children ∧ Parsable siblings ∧
        (leadingMark siblings = [chr ':'] → children = .nil) := by
  simp only [Parsable, Forest.All, ColonsAfterLeaves]
  tauto

@[simp] theorem parsable_nil : Parsable .nil :=
  ⟨trivial, trivial⟩

theorem parsable_closed :
    Parsable (node.closed children) ↔ node.Parsable ∧ Parsable children := by
  obtain ⟨before, label⟩ := node
  induction before with
  | nil => simp [OpenNode.Parsable, OpenNode.closed, Forest.prepend, parsable_cons]
  | cons tree trees ih =>
    have hmark := leadingMark_closed ⟨trees, label⟩ children
    simp only [OpenNode.Parsable, OpenNode.closed] at ih hmark ⊢
    simp only [Forest.prepend, parsable_cons, hmark, ih]
    tauto

theorem parsable_plug {nodes : List OpenNode} :
    Parsable (plug nodes children) ↔ (∀ node ∈ nodes, node.Parsable) ∧ Parsable children := by
  induction nodes generalizing children with
  | nil => simp [plug]
  | cons node up ih =>
    rw [plug, ih, parsable_closed, List.forall_mem_cons]
    tauto

theorem parsable_addSibling {mark : Separator} {text : Bytes} (hnode : node.Parsable)
    (hchildren : Parsable children) (hcolon : mark = .colon → children = .nil)
    (htext : IsName text) :
    OpenNode.Parsable ⟨node.before ++ [(node.label, children)], ⟨mark, text⟩⟩ := by
  obtain ⟨before, label⟩ := node
  simp only [OpenNode.Parsable, OpenNode.closed, Forest.prepend_append] at hnode ⊢
  induction before with
  | nil =>
    simp only [Forest.prepend, parsable_cons] at hnode ⊢
    refine ⟨hnode.1, hchildren, ⟨htext, parsable_nil, parsable_nil, by simp⟩, ?_⟩
    rw [leadingMark_eq_colon]
    exact hcolon
  | cons tree trees ih =>
    simp only [Forest.prepend, parsable_cons] at hnode ⊢
    refine ⟨hnode.1, hnode.2.1, ih hnode.2.2.1, ?_⟩
    cases trees with
    | nil => exact hnode.2.2.2
    | cons tree trees => exact hnode.2.2.2

theorem OpenNode.Parsable.isName (h : node.Parsable) :
    IsName node.label.text := by
  obtain ⟨before, label⟩ := node
  induction before with
  | nil => exact (parsable_cons.mp h).1
  | cons tree trees ih => exact ih (parsable_cons.mp h).2.2.1

theorem isletter_ne {c : UInt8} (h : isletter c = true) : c ≠ 0 ∧ c ≠ chr '(' ∧ c ≠ chr ')' := by
  refine ⟨?_, ?_, ?_⟩ <;>
    (rintro rfl; revert h; decide)

theorem ne_zero_of_mem_forestText {f : Forest Label}
    (hnames : f.All fun label => IsName label.text) : ∀ c ∈ forestText f, c ≠ 0 := by
  induction f with
  | nil => simp [forestText]
  | cons label children siblings ihc ihs =>
    obtain ⟨hlabel, hchildren, hsiblings⟩ := hnames
    have hparens : ∀ c ∈ parens children, c ≠ 0 := by
      cases hne : children with
      | nil => simp
      | cons l f g =>
        rw [← hne, parens_of_ne_nil (by simp [hne])]
        intro c hc
        simp only [List.cons_append, List.mem_cons, List.mem_append, List.not_mem_nil,
          or_false] at hc
        rcases hc with rfl | hc | rfl
        · decide
        · exact ihc hchildren c hc
        · decide
    have hmark : ∀ c ∈ leadingMark siblings, c ≠ 0 := by
      cases siblings with
      | nil => simp
      | cons l f g =>
        intro c hc
        rw [leadingMark_cons, List.mem_singleton] at hc
        subst hc
        cases l.mark <;> decide
    intro c hc
    rw [forestText_cons] at hc
    simp only [List.mem_append] at hc
    rcases hc with ((hc | hc) | hc) | hc
    · exact (isletter_ne (hlabel.letters c hc)).1
    · exact hparens c hc
    · exact hmark c hc
    · exact ihs hsiblings c hc

theorem IsName.count_parens {t : Bytes} (ht : IsName t) :
    t.count (chr '(') = 0 ∧ t.count (chr ')') = 0 := by
  refine ⟨List.count_eq_zero.mpr fun hmem => ?_, List.count_eq_zero.mpr fun hmem => ?_⟩
  · exact (isletter_ne (ht.letters _ hmem)).2.1 rfl
  · exact (isletter_ne (ht.letters _ hmem)).2.2 rfl

theorem count_parens_singleton :
    [chr '('].count (chr '(') = 1 ∧ [chr '('].count (chr ')') = 0 ∧
      [chr ')'].count (chr '(') = 0 ∧ [chr ')'].count (chr ')') = 1 := by
  decide

theorem count_parens_forestText {f : Forest Label} (hnames : f.All fun label => IsName label.text) :
    (forestText f).count (chr '(') = (forestText f).count (chr ')') := by
  have hmark : ∀ f : Forest Label, (leadingMark f).count (chr '(') = 0 ∧
      (leadingMark f).count (chr ')') = 0 := by
    intro f
    cases f with
    | nil => decide
    | cons label children siblings =>
      rw [leadingMark_cons]
      cases label.mark <;> decide
  induction f with
  | nil => rfl
  | cons label children siblings ihc ihs =>
    obtain ⟨hlabel, hchildren, hsiblings⟩ := hnames
    have hparens : (parens children).count (chr '(') = (parens children).count (chr ')') := by
      cases hne : children with
      | nil => rfl
      | cons l f g =>
        rw [← hne, parens_of_ne_nil (by simp [hne]), ← List.singleton_append]
        simp only [List.count_append, count_parens_singleton, ihc hchildren]
        omega
    rw [forestText_cons]
    simp only [List.count_append, hlabel.count_parens, hmark siblings, hparens, ihs hsiblings]

end Marshal
end ScyllaDriver
