import ScyllaDriver.Marshal.OpenForms

/-!
# The language of the class name parser

The parser should accept a name, or a name with its arguments in parentheses, and
nothing else. It accepts more: it does not ask whether the parentheses are closed
when the text ends, takes a NUL for the end, and takes one closing parenthesis
after a name of its own. It accepts less, as it refuses a colon after a closing
parenthesis. And it follows the null pointer above the root if a comma or a colon
comes after the name there.
-/

namespace ScyllaDriver
namespace Marshal

open CString

inductive Lexed : Bytes → Token → Prop
  | name {t rest : Bytes} :
      IsName t → Lexed (t ++ rest) ⟨.name, t, rest⟩
  | parenOpen {rest : Bytes} :
      Lexed (chr '(' :: rest) ⟨.parenOpen, [chr '('], rest⟩
  | parenClose {rest : Bytes} :
      Lexed (chr ')' :: rest) ⟨.parenClose, [chr ')'], rest⟩
  | comma {rest : Bytes} :
      Lexed (chr ',' :: rest) ⟨.comma, [chr ','], rest⟩
  | colon {rest : Bytes} :
      Lexed (chr ':' :: rest) ⟨.colon, [chr ':'], rest⟩
  | endOfString {rest : Bytes} :
      AtEnd rest → Lexed rest ⟨.endOfString, [], rest⟩
  | illegal {rest : Bytes} :
      Lexed rest ⟨.illegal, [], rest⟩

theorem lexed (text : Bytes) : Lexed text (nextToken text) := by
  cases text with
  | nil => exact .endOfString nofun
  | cons c cs =>
    rw [nextToken]
    split_ifs with halnum hzero hopen hclose hcomma hcolon
    · have hname : IsName ((c :: cs).takeWhile isletter) := by
        refine ⟨⟨c, ?_, halnum⟩, fun d hd => List.mem_takeWhile_imp hd⟩
        simp [isletter_of_isalnum halnum]
      have h : Lexed ((c :: cs).takeWhile isletter ++ (c :: cs).dropWhile isletter) _ := .name hname
      rwa [List.takeWhile_append_dropWhile] at h
    · exact .endOfString fun d hd => by rw [← Option.some.inj hd, hzero]
    · exact hopen ▸ .parenOpen
    · exact hclose ▸ .parenClose
    · exact hcomma ▸ .comma
    · exact hcolon ▸ .colon
    · exact .illegal

/-- The text of a tree that the parser can read, but for some closing parentheses at
its end. -/
def Unfinished (missing : Nat) (t : Bytes) (tree : Forest Bytes) : Prop :=
  ∃ label children, IsName label.text ∧ Parsable children ∧
    t ++ List.replicate missing (chr ')') = forestText (.cons label children .nil) ∧
    tree = .cons label.text (children.map Label.text) .nil

def Stray (t : Bytes) (tree : Forest Bytes) : Prop :=
  ∃ name, IsName name ∧ t = name ++ [chr ')'] ∧ tree = .cons name .nil .nil

/-- A name with a mark after it that leads to the null pointer. -/
def Crashing (v : Bytes) : Prop :=
  ∃ name c rest, IsName name ∧
    ((v = name ++ c :: rest ∧ (c = chr ',' ∨ c = chr ':')) ∨
      (v = name ++ chr ')' :: c :: rest ∧ (c = chr ',' ∨ c = chr ')')))

def Explains (v : Bytes) : ClassResult → Prop
  | .parsed tree => (∃ missing, Unfinished missing (seen v) tree) ∨ Stray (seen v) tree
  | .refused _ => True
  | .crashed => Crashing v

/-- What has been read when the parser stands in a state. -/
inductive Stands (v : Bytes) : Scanner → Prop
  | atClass {before : List (Label × Forest Label)} {mark : Separator} {up : List OpenNode}
      {pre text : Bytes} :
      v = entered up ++ pre ++ text →
      (∀ t, forestText (OpenNode.closed ⟨before, ⟨mark, t⟩⟩ .nil) = pre ++ t) →
      (∀ t, IsName t → OpenNode.Parsable ⟨before, ⟨mark, t⟩⟩) →
      (∀ node ∈ up, node.Parsable) →
      (∀ t, Rooted (⟨before, ⟨mark, t⟩⟩ :: up)) →
      Stands v ⟨.inClass, text,
        ⟨before.map fun tree => (tree.1.text, tree.2.map Label.text), []⟩ ::
          up.map OpenNode.level, .nil⟩
  | after {node : OpenNode} {up : List OpenNode} {children : Forest Label} {text : Bytes} :
      v = opened node up ++ parens children ++ text →
      (∀ node' ∈ node :: up, node'.Parsable) →
      Parsable children →
      Rooted (node :: up) →
      Stands v ⟨stateAfter children, text, (node :: up).map OpenNode.level, children.map Label.text⟩
  | stray {name text : Bytes} :
      IsName name →
      v = name ++ chr ')' :: text →
      Stands v ⟨.afterParens, text, [], .cons name .nil .nil⟩

theorem forestText_first (t : Bytes) :
    forestText (OpenNode.closed ⟨[], ⟨.comma, t⟩⟩ .nil) = [] ++ t := by
  simp [OpenNode.closed, Forest.prepend, forestText_cons, forestText]

theorem parsable_first {t : Bytes} (ht : IsName t) : OpenNode.Parsable ⟨[], ⟨.comma, t⟩⟩ :=
  parsable_cons.mpr ⟨ht, parsable_nil, parsable_nil, nofun⟩

theorem stands_start (v : Bytes) : Stands v { text := v } := by
  have hv : v = entered [] ++ [] ++ v := rfl
  exact .atClass hv forestText_first (fun _ => parsable_first) (by simp) fun _ => rfl

/-- A round is explained if it leads on to such a state, or to a result with its
text. -/
def Explained (v : Bytes) : Outcome → Prop
  | .next s => Stands v s
  | .stop a => Explains v a

theorem explained_expecting (v : Bytes) (token : Token) (expected : String) :
    Explained v (expecting v token expected) :=
  trivial

section

variable {v rest : Bytes} {node : OpenNode} {up : List OpenNode} {children : Forest Label}

theorem opened_root (hrooted : Rooted [node]) : opened node [] = node.label.text := by
  have hbefore : node.before = [] := hrooted
  simp [opened, entered, OpenNode.closed, hbefore, Forest.prepend, forestText_cons, forestText]

variable {text : Bytes} {token : Token}

theorem explained_toSibling (mark : Separator) {state : ParserState}
    (hv : v = opened node up ++ parens children ++ mark.char :: rest)
    (hnodes : ∀ node' ∈ node :: up, node'.Parsable) (hchildren : Parsable children)
    (hrooted : Rooted (node :: up)) (hcolon : mark = .colon → children = .nil)
    (hroot : up = [] → children = .nil) :
    Explained v (Scanner.toSibling
      ⟨state, text, (node :: up).map OpenNode.level, children.map Label.text⟩ rest) := by
  have hnode := hnodes node List.mem_cons_self
  cases up with
  | nil =>
    obtain rfl := hroot rfl
    rw [opened_root hrooted, parens_nil, List.append_nil] at hv
    refine ⟨node.label.text, mark.char, rest, hnode.isName, .inl ⟨hv, ?_⟩⟩
    cases mark with
    | comma => exact .inl rfl
    | colon => exact .inr rfl
  | cons parent up =>
    have hbefore : node.level.addSibling (children.map Label.text) =
        ⟨(node.before ++ [(node.label, children)]).map
          fun tree => (tree.1.text, tree.2.map Label.text), []⟩ := by
      simp [Level.addSibling, OpenNode.level]
    have hnext : Stands v ⟨.inClass, rest, node.level.addSibling (children.map Label.text) ::
        (parent :: up).map OpenNode.level, .nil⟩ := by
      rw [hbefore]
      refine .atClass ?_ (fun t => forestText_addSibling node children mark t)
        (fun t ht => parsable_addSibling hnode hchildren hcolon ht)
        (fun node' hmem => hnodes node' (List.mem_cons_of_mem _ hmem)) fun t => hrooted
      rw [hv, forestText_closed]
      simp [opened]
    exact hnext

theorem explained_toParent {state : ParserState}
    (hv : v = opened node up ++ parens children ++ chr ')' :: rest)
    (hnodes : ∀ node' ∈ node :: up, node'.Parsable)
    (hchildren : Parsable children)
    (hrooted : Rooted (node :: up))
    (hroot : up = [] → children = .nil) :
    Explained v (Scanner.toParent
      ⟨state, text, (node :: up).map OpenNode.level, children.map Label.text⟩ rest) := by
  have hnode := hnodes node List.mem_cons_self
  cases up with
  | nil =>
    obtain rfl := hroot rfl
    rw [opened_root hrooted, parens_nil, List.append_nil] at hv
    have hbefore : node.before = [] := hrooted
    have hinner : node.level.close .nil = .cons node.label.text .nil .nil := by
      simp [Level.close, OpenNode.level, hbefore, Forest.prepend]
    have hnext : Stands v ⟨.afterParens, rest, [], node.level.close .nil⟩ := by
      rw [hinner]
      exact .stray hnode.isName hv
    exact hnext
  | cons parent up =>
    have hne := closed_ne_nil node children
    have hstate : stateAfter (node.closed children) = .afterParens := by
      cases hclosed : node.closed children with
      | nil => exact absurd hclosed hne
      | cons label children siblings => rfl
    have hnext : Stands v ⟨.afterParens, rest, (parent :: up).map OpenNode.level,
        node.level.close (children.map Label.text)⟩ := by
      rw [← hstate, level_close]
      refine .after ?_ (fun node' hmem => hnodes node' (List.mem_cons_of_mem _ hmem))
        (parsable_closed.mpr ⟨hnode, hchildren⟩) hrooted
      rw [hv, parens_of_ne_nil hne, forestText_closed]
      simp [opened, entered]
    exact hnext

theorem explains_end (hv : v = opened node up ++ parens children ++ rest) (hrest : AtEnd rest)
    (hnodes : ∀ node' ∈ node :: up, node'.Parsable) (hchildren : Parsable children)
    (hrooted : Rooted (node :: up)) :
    Explains v (.parsed (root ((node :: up).map OpenNode.level) (children.map Label.text))) := by
  obtain ⟨label, below, hplug⟩ := plug_of_rooted hrooted children
  have hparsable : Parsable (.cons label below .nil) := by
    rw [← hplug, parsable_plug]
    exact ⟨hnodes, hchildren⟩
  have htext := forestText_plug node up children
  rw [hplug] at htext
  have hseen : seen v = opened node up ++ parens children := by
    rw [hv]
    refine seen_append (fun c hc => ?_) hrest
    refine ne_zero_of_mem_forestText hparsable.1 c ?_
    rw [htext]
    exact List.mem_append_left _ hc
  refine .inl ⟨up.length, label, below, (parsable_cons.mp hparsable).1,
    (parsable_cons.mp hparsable).2.1, ?_, ?_⟩
  · rw [hseen, htext]
  · rw [root_map_level, hplug]
    rfl

theorem explained_afterClass (hlex : Lexed text token) (hlegal : token.type ≠ .illegal)
    (hv : v = opened node up ++ text) (hnodes : ∀ node' ∈ node :: up, node'.Parsable)
    (hrooted : Rooted (node :: up)) :
    Explained v (Scanner.atAfterClass
      ⟨.afterClass, text, (node :: up).map OpenNode.level, .nil⟩ v token) := by
  have hleaf : ∀ rest', v = opened node up ++ rest' →
      v = opened node up ++ parens .nil ++ rest' := fun rest' h => by
    rw [h, parens_nil, List.append_nil]
  cases hlex with
  | illegal => exact absurd rfl hlegal
  | name ht => exact explained_expecting v _ _
  | @parenOpen rest =>
    have hread : v = entered (node :: up) ++ [] ++ rest := by
      rw [hv]
      simp [opened, entered]
    exact .atClass hread forestText_first (fun _ => parsable_first) hnodes fun _ => hrooted
  | comma =>
    exact explained_toSibling .comma (hleaf _ hv) hnodes parsable_nil hrooted (by simp) fun _ => rfl
  | colon =>
    exact explained_toSibling .colon (hleaf _ hv) hnodes parsable_nil hrooted
      (fun _ => rfl) fun _ => rfl
  | parenClose =>
    exact explained_toParent (hleaf _ hv) hnodes parsable_nil hrooted fun _ => rfl
  | endOfString hend =>
    exact explains_end (hleaf _ hv) hend hnodes parsable_nil hrooted

theorem explained_afterParens (hlex : Lexed text token) (hlegal : token.type ≠ .illegal)
    (hv : v = opened node up ++ parens children ++ text)
    (hnodes : ∀ node' ∈ node :: up, node'.Parsable) (hchildren : Parsable children)
    (hrooted : Rooted (node :: up)) :
    Explained v (Scanner.atAfterParens
      ⟨.afterParens, text, (node :: up).map OpenNode.level, children.map Label.text⟩ v token) := by
  have hinner : ¬ ((node :: up).map OpenNode.level).length = 1 → up = [] → children = .nil := by
    rintro hlength rfl
    exact absurd rfl hlength
  cases hlex with
  | illegal => exact absurd rfl hlegal
  | comma =>
    simp only [Scanner.atAfterParens]
    split_ifs with hlength
    · exact explained_expecting v _ _
    · exact explained_toSibling .comma hv hnodes hchildren hrooted (by simp) (hinner hlength)
  | parenClose =>
    simp only [Scanner.atAfterParens]
    split_ifs with hlength
    · exact explained_expecting v _ _
    · exact explained_toParent hv hnodes hchildren hrooted (hinner hlength)
  | endOfString hend => exact explains_end hv hend hnodes hchildren hrooted
  | _ => exact explained_expecting v _ _

theorem explained_stray {name : Bytes} (hlex : Lexed text token) (hlegal : token.type ≠ .illegal)
    (hname : IsName name)
    (hv : v = name ++ chr ')' :: text) :
    Explained v (Scanner.atAfterParens ⟨.afterParens, text, [], .cons name .nil .nil⟩ v token) := by
  cases hlex with
  | illegal => exact absurd rfl hlegal
  | comma => exact ⟨name, _, _, hname, .inr ⟨hv, .inl rfl⟩⟩
  | parenClose => exact ⟨name, _, _, hname, .inr ⟨hv, .inr rfl⟩⟩
  | endOfString hend =>
    refine .inr ⟨name, hname, ?_, rfl⟩
    rw [hv, List.append_cons]
    refine seen_append (fun c hc => ?_) hend
    rcases List.mem_append.mp hc with hc | hc
    · exact (isletter_ne (hname.letters c hc)).1
    · rw [List.mem_singleton.mp hc]
      decide
  | _ => exact explained_expecting v _ _

theorem Stands.step {s : Scanner} (h : Stands v s) : Explained v (Marshal.step v s) := by
  have hlex := lexed s.text
  unfold Marshal.step
  dsimp only
  generalize nextToken s.text = token at hlex
  split_ifs with hlegal
  · exact trivial
  · cases h with
    | @atClass before mark up pre text hv hpre hparsable hnodes hrooted =>
      cases hlex with
      | @name t rest ht =>
        have hread : v = opened ⟨before, ⟨mark, t⟩⟩ up ++ parens .nil ++ rest := by
          rw [hv, opened, hpre]
          simp
        have hall : ∀ node ∈ ⟨before, ⟨mark, t⟩⟩ :: up, OpenNode.Parsable node := by
          rw [List.forall_mem_cons]
          exact ⟨hparsable t ht, hnodes⟩
        exact .after hread hall parsable_nil (hrooted t)
      | _ => exact trivial
    | @after node up children text hv hnodes hchildren hrooted =>
      cases children with
      | nil =>
        rw [parens_nil, List.append_nil] at hv
        exact explained_afterClass hlex hlegal hv hnodes hrooted
      | cons label below siblings =>
        exact explained_afterParens hlex hlegal hv hnodes hchildren hrooted
    | stray hname hv => exact explained_stray hlex hlegal hname hv

end

variable {v : Bytes} {tree : Forest Bytes}

theorem Stands.explains {s : Scanner} {a : ClassResult} (h : Stands v s)
    (hends : Loop.Ends (Marshal.step v) s a) : Explains v a := by
  induction hends with
  | stop hstop =>
    have hround := h.step
    rwa [hstop] at hround
  | next hnext _ ih =>
    have hround := h.step
    rw [hnext] at hround
    exact ih hround

/-- Every result of the parser has its text. -/
theorem explains_parseClassName {a : ClassResult} (h : parseClassName v = some a) : Explains v a :=
  (stands_start v).explains (parseClassName_eq_some_iff.mp h)

section

variable {w rest : Bytes} {a : ClassResult}

theorem atMark_parens_append (children : Forest Label) (mark : Separator) (rest : Bytes) :
    NoLetter (parens children ++ mark.char :: rest) := by
  cases children with
  | nil => cases mark <;> (intro c hc; cases hc; decide)
  | cons label children siblings =>
    intro c hc
    cases hc
    decide

variable {children : Forest Label} {node : OpenNode} {up : List OpenNode}

theorem ends_node {level : Level} {up : List Level} (hchildren : Parsable children) :
    Loop.Ends (step w) ⟨.afterClass, parens children ++ rest, level :: up, .nil⟩ a ↔
      Loop.Ends (step w) ⟨stateAfter children, rest, level :: up, children.map Label.text⟩ a := by
  have hplain : children.All fun label => Plain label.text := hchildren.1.imp fun _ h => h.plain
  exact (reaches_parens fun hne => readsChildren children hne hplain).passes hchildren a

theorem ends_siblings {before : List (Bytes × Forest Bytes)} {trees : List (Label × Forest Label)}
    {label : Label} {up : List Level} (hparsable : OpenNode.Parsable ⟨trees, label⟩)
    (hroot : up = [] → trees = []) (hrest : NoLetter rest) :
    Loop.Ends (step w)
        ⟨.inClass, forestText (OpenNode.closed ⟨trees, label⟩ .nil) ++ rest,
          ⟨before, []⟩ :: up, .nil⟩ a ↔
      Loop.Ends (step w)
        ⟨.afterClass, rest,
          ⟨before ++ trees.map fun tree => (tree.1.text, tree.2.map Label.text),
            label.text⟩ :: up, .nil⟩ a := by
  induction trees generalizing before with
  | nil =>
    have htext : forestText (OpenNode.closed ⟨[], label⟩ .nil) = label.text := by
      simp [OpenNode.closed, Forest.prepend, forestText_cons, forestText]
    rw [htext, List.map_nil, List.append_nil]
    exact ends_name hparsable.isName hrest
  | cons tree trees ih =>
    obtain ⟨name, children⟩ := tree
    cases up with
    | nil => cases hroot rfl
    | cons parent up =>
      obtain ⟨hname, hchildren, hlast, hcolon⟩ := parsable_cons.mp hparsable
      obtain ⟨first, below, next, hclosed⟩ :
          ∃ first below next, OpenNode.closed ⟨trees, label⟩ .nil = .cons first below next := by
        cases h : OpenNode.closed ⟨trees, label⟩ .nil with
        | nil => exact absurd h (closed_ne_nil _ _)
        | cons first below next => exact ⟨first, below, next, rfl⟩
      have hmark : leadingMark (OpenNode.closed ⟨trees, label⟩ .nil) = [first.mark.char] := by
        rw [hclosed, leadingMark_cons]
      have hseparator : first.mark = .colon → children = .nil := fun h =>
        hcolon (hmark.trans (by rw [h]; rfl))
      have htext : forestText (OpenNode.closed ⟨(name, children) :: trees, label⟩ .nil) ++ rest =
          name.text ++ (parens children ++ first.mark.char ::
            (forestText (OpenNode.closed ⟨trees, label⟩ .nil) ++ rest)) := by
        have hcons : forestText (OpenNode.closed ⟨(name, children) :: trees, label⟩ .nil) =
            name.text ++ parens children ++ leadingMark (OpenNode.closed ⟨trees, label⟩ .nil) ++
              forestText (OpenNode.closed ⟨trees, label⟩ .nil) := rfl
        rw [hcons, hmark]
        simp
      rw [htext, ends_name hname (atMark_parens_append children first.mark _),
        ends_node hchildren,
        (reaches_separator children first.mark).passes hseparator]
      refine (ih hlast (by simp)).trans ?_
      simp

theorem Rooted.before_eq_nil (h : Rooted (node :: up)) :
    up.map OpenNode.level = [] → node.before = [] := by
  cases up with
  | nil => exact fun _ => h
  | cons parent up => exact nofun

theorem Rooted.tail (h : Rooted (node :: up)) : Rooted up := by
  cases up with
  | nil => trivial
  | cons parent up => exact h

theorem ends_opened (hnodes : ∀ node' ∈ node :: up, node'.Parsable) (hrooted : Rooted (node :: up))
    (hrest : NoLetter rest) : Loop.Ends (step w) { text := opened node up ++ rest } a ↔
      Loop.Ends (step w) ⟨.afterClass, rest, (node :: up).map OpenNode.level, .nil⟩ a := by
  have hnode := hnodes node List.mem_cons_self
  have hread : Loop.Ends (step w)
        ⟨.inClass, forestText (node.closed .nil) ++ rest,
          ⟨[], []⟩ :: up.map OpenNode.level, .nil⟩ a ↔
      Loop.Ends (step w) ⟨.afterClass, rest, (node :: up).map OpenNode.level, .nil⟩ a :=
    ends_siblings hnode hrooted.before_eq_nil hrest
  rw [← hread]
  clear hread
  induction up generalizing node rest with
  | nil =>
    simp only [opened, entered, List.nil_append]
    rfl
  | cons parent up ih =>
    have hup : ∀ node' ∈ parent :: up, node'.Parsable := fun node' hmem =>
      hnodes node' (List.mem_cons_of_mem _ hmem)
    have htext : opened node (parent :: up) ++ rest =
        opened parent up ++ chr '(' :: (forestText (node.closed .nil) ++ rest) := by
      simp [opened, entered]
    have hopen : NoLetter (chr '(' :: (forestText (node.closed .nil) ++ rest)) := by
      intro c hc
      cases hc
      decide
    have hparent := hup parent List.mem_cons_self
    have hdown : Loop.Ends (step w)
          ⟨.inClass, forestText (parent.closed .nil) ++
              chr '(' :: (forestText (node.closed .nil) ++ rest),
            ⟨[], []⟩ :: up.map OpenNode.level, .nil⟩ a ↔
        Loop.Ends (step w)
          ⟨.afterClass, chr '(' :: (forestText (node.closed .nil) ++ rest),
            (parent :: up).map OpenNode.level, .nil⟩ a :=
      ends_siblings hparent hrooted.tail.before_eq_nil hopen
    rw [htext]
    exact ((ih hup hrooted.tail hopen hparent).trans hdown).trans ends_open

theorem noLetter_of_atEnd (hrest : AtEnd rest) (children : Forest Label) :
    NoLetter (parens children ++ rest) := by
  cases children with
  | nil =>
    intro c hc
    rw [hrest c hc]
    decide
  | cons label children siblings =>
    intro c hc
    cases hc
    decide

theorem ends_atEnd {stack : List Level} {inner : Forest Bytes} (hrest : AtEnd rest) :
    Loop.Ends (step w) ⟨stateAfter children, rest, stack, inner⟩ (.parsed (root stack inner)) := by
  have htoken : nextToken rest = ⟨.endOfString, [], rest⟩ := by
    cases rest with
    | nil => rfl
    | cons c rest =>
      obtain rfl : c = 0 := hrest c rfl
      rfl
  refine .stop ?_
  unfold stateAfter
  split_ifs
  · simp [step, htoken, Scanner.atAfterClass]
  · simp [step, htoken, Scanner.atAfterParens]

theorem parsed_of_opened {v : Bytes} (hv : v = opened node up ++ parens children ++ rest)
    (hrest : AtEnd rest) (hnodes : ∀ node' ∈ node :: up, node'.Parsable)
    (hchildren : Parsable children) (hrooted : Rooted (node :: up)) :
    parseClassName v = some (.parsed ((plug (node :: up) children).map Label.text)) := by
  rw [parseClassName_eq_some_iff]
  conv =>
    arg 2
    rw [hv, List.append_assoc]
  rw [ends_opened hnodes hrooted (noLetter_of_atEnd hrest children), List.map_cons,
    ends_node hchildren, ← root_map_level]
  exact ends_atEnd hrest

end

theorem exists_opened {missing : Nat} {t : Bytes} {node : OpenNode} {up : List OpenNode}
    {children : Forest Label} (hnodes : ∀ node' ∈ node :: up, node'.Parsable)
    (hchildren : Parsable children) (hrooted : Rooted (node :: up))
    (ht : t ++ List.replicate missing (chr ')') = opened node up ++ parens children) :
    ∃ node' up' children', t = opened node' up' ++ parens children' ∧
      plug (node' :: up') children' = plug (node :: up) children ∧ Rooted (node' :: up') := by
  induction missing generalizing node up children with
  | zero =>
    rw [List.replicate_zero, List.append_nil] at ht
    exact ⟨node, up, children, ht, rfl, hrooted⟩
  | succ missing ih =>
    rw [List.replicate_succ', ← List.append_assoc] at ht
    by_cases hleaf : children = .nil
    · -- the text ends with the name of the node
      subst hleaf
      obtain ⟨pre, hpre⟩ := exists_forestText_closed node.before node.label.mark
      obtain ⟨c, hc, -⟩ := (hnodes node List.mem_cons_self).isName.head
      have hne : node.label.text ≠ [] := by
        rintro hempty
        simp [hempty] at hc
      have hend := congrArg List.getLast? ht
      rw [opened, show node.closed .nil = OpenNode.closed ⟨node.before,
        ⟨node.label.mark, node.label.text⟩⟩ .nil from rfl, hpre, parens_nil, List.append_nil,
        ← List.append_assoc, List.getLast?_concat, List.getLast?_append_of_ne_nil _ hne] at hend
      have hletter := (hnodes node List.mem_cons_self).isName.letters _
        (List.mem_of_getLast? hend.symm)
      exact absurd rfl (isletter_ne hletter).2.2
    · obtain ⟨trees, label, below, rfl⟩ := Forest.exists_last hleaf
      have hdown : t ++ List.replicate missing (chr ')') =
          opened ⟨trees, label⟩ (node :: up) ++ parens below := by
        have hclosed := forestText_closed ⟨trees, label⟩ below
        rw [parens_of_ne_nil hleaf, ← List.append_assoc] at ht
        rw [List.append_cancel_right ht]
        simp only [OpenNode.closed] at hclosed
        rw [hclosed]
        simp [opened, entered, OpenNode.closed]
      have hparts : OpenNode.Parsable ⟨trees, label⟩ ∧ Parsable below :=
        parsable_closed.mp hchildren
      obtain ⟨hnode, hbelow⟩ := hparts
      have hall : ∀ node' ∈ ⟨trees, label⟩ :: node :: up, OpenNode.Parsable node' := by
        rw [List.forall_mem_cons]
        exact ⟨hnode, hnodes⟩
      have hfound := ih hall hbelow hrooted hdown
      exact hfound

theorem parsed_of_unfinished {missing : Nat} (h : Unfinished missing (seen v) tree) :
    parseClassName v = some (.parsed tree) := by
  obtain ⟨label, children, hname, hchildren, ht, rfl⟩ := h
  obtain ⟨rest, hv, hrest⟩ := exists_eq_seen_append v
  have hnodes : ∀ node ∈ [⟨[], label⟩], OpenNode.Parsable node := by
    intro node hmem
    obtain rfl := List.mem_singleton.mp hmem
    exact parsable_cons.mpr ⟨hname, parsable_nil, parsable_nil, nofun⟩
  have htext : forestText (.cons label children .nil) =
      opened ⟨[], label⟩ [] ++ parens children := by
    have hroot : opened ⟨[], label⟩ [] = label.text := opened_root rfl
    rw [hroot, forestText_cons, leadingMark_nil, forestText, List.append_nil, List.append_nil]
  rw [htext] at ht
  obtain ⟨node, up, below, hseen, hplug, hrooted⟩ := exists_opened hnodes hchildren rfl ht
  have hparsable : Parsable (plug (node :: up) below) := by
    rw [hplug, parsable_plug]
    exact ⟨hnodes, hchildren⟩
  rw [hseen] at hv
  rw [parsed_of_opened hv hrest (parsable_plug.mp hparsable).1 (parsable_plug.mp hparsable).2
    hrooted, hplug]
  rfl

theorem parsed_of_stray (h : Stray (seen v) tree) : parseClassName v = some (.parsed tree) := by
  obtain ⟨name, hname, hseen, rfl⟩ := h
  obtain ⟨rest, hv, hrest⟩ := exists_eq_seen_append v
  rw [hseen, List.append_assoc] at hv
  have hclose : NoLetter ([chr ')'] ++ rest) := by
    intro c hc
    cases hc
    decide
  have hleave : step v ⟨.afterClass, [chr ')'] ++ rest, [⟨[], name⟩], .nil⟩ =
      .next ⟨.afterParens, rest, [], .cons name .nil .nil⟩ := rfl
  rw [parseClassName_eq_some_iff]
  conv =>
    arg 2
    rw [hv]
  refine (ends_name hname hclose).mpr ?_
  rw [Loop.ends_next_iff hleave]
  have hend : Loop.Ends (step v) ⟨stateAfter (.cons ⟨.comma, []⟩ .nil .nil), rest, [],
      .cons name .nil .nil⟩ (.parsed (.cons name .nil .nil)) :=
    ends_atEnd hrest
  exact hend

theorem crashed_of_crashing (h : Crashing v) : parseClassName v = some .crashed := by
  obtain ⟨name, c, rest, hname, hcases⟩ := h
  rw [parseClassName_eq_some_iff]
  rcases hcases with ⟨hv, hc⟩ | ⟨hv, hc⟩
  · have hmark : NoLetter (c :: rest) := by
      intro d hd
      cases hd
      rcases hc with rfl | rfl <;> decide
    conv =>
      arg 2
      rw [hv]
    refine (ends_name hname hmark).mpr (.stop ?_)
    rcases hc with rfl | rfl <;> rfl
  · have hmark : NoLetter (chr ')' :: c :: rest) := by
      intro d hd
      cases hd
      decide
    have hleave : step v ⟨.afterClass, chr ')' :: c :: rest, [⟨[], name⟩], .nil⟩ =
        .next ⟨.afterParens, c :: rest, [], .cons name .nil .nil⟩ := rfl
    conv =>
      arg 2
      rw [hv]
    refine (ends_name hname hmark).mpr (.next hleave (.stop ?_))
    rcases hc with rfl | rfl <;> rfl

/-- The parser accepts exactly the texts of readable trees, which may lack closing
parentheses, and a name with one parenthesis too many; the text ends at a NUL. -/
theorem parseClassName_eq_parsed_iff {tree : Forest Bytes} :
    parseClassName v = some (.parsed tree) ↔
      (∃ missing, Unfinished missing (seen v) tree) ∨ Stray (seen v) tree := by
  constructor
  · exact explains_parseClassName
  · rintro (⟨missing, h⟩ | h)
    · exact parsed_of_unfinished h
    · exact parsed_of_stray h

theorem parseClassName_eq_crashed_iff {v : Bytes} : parseClassName v = some .crashed ↔ Crashing v :=
  ⟨explains_parseClassName, crashed_of_crashing⟩

/-- A name, or a name with items in parentheses: its text, and its tree. -/
def Form (v : Bytes) (tree : Forest Bytes) : Prop :=
  ∃ label children, IsName label.text ∧ (children.All fun label => IsName label.text) ∧
    v = forestText (.cons label children .nil) ∧
    tree = .cons label.text (children.map Label.text) .nil

/-- The parser stays below the root, and accepts the forms with their trees. -/
def FollowsForm (v : Bytes) : Prop :=
  parseClassName v ≠ some .crashed ∧ ∀ tree, parseClassName v = some (.parsed tree) ↔ Form v tree

/-- The texts on which it does not. -/
inductive Misparsed (v : Bytes) : Prop
  | crashing :
      Crashing v → Misparsed v
  | stray {tree : Forest Bytes} :
      Stray (seen v) tree → Misparsed v
  | unclosed {missing : Nat} {tree : Forest Bytes} :
      Unfinished (missing + 1) (seen v) tree → Misparsed v
  | cut {tree : Forest Bytes} :
      seen v ≠ v → Unfinished 0 (seen v) tree → Misparsed v
  | colon {label : Label} {children : Forest Label} :
      IsName label.text →
      (children.All fun label => IsName label.text) →
      v = forestText (.cons label children .nil) →
      ¬ ColonsAfterLeaves children →
      Misparsed v

theorem Form.count_parens (h : Form v tree) : v.count (chr '(') = v.count (chr ')') := by
  obtain ⟨label, children, hname, hnames, rfl, -⟩ := h
  exact count_parens_forestText ⟨hname, hnames, trivial⟩

theorem Form.seen_eq (h : Form v tree) : seen v = v := by
  obtain ⟨label, children, hname, hnames, rfl, -⟩ := h
  have hall : Forest.All (fun label => IsName label.text) (.cons label children .nil) :=
    ⟨hname, hnames, trivial⟩
  exact seen_eq_self (ne_zero_of_mem_forestText hall)

theorem not_followsForm (h : Misparsed v) : ¬ FollowsForm v := by
  rintro ⟨hsafe, hforms⟩
  cases h with
  | crashing hcrash => exact hsafe (crashed_of_crashing hcrash)
  | stray hstray =>
    have hform := (hforms _).mp (parsed_of_stray hstray)
    obtain ⟨name, hname, hseen, -⟩ := hstray
    have hcount := hform.count_parens
    rw [← hform.seen_eq, hseen] at hcount
    simp only [List.count_append, hname.count_parens, count_parens_singleton] at hcount
    omega
  | unclosed hunclosed =>
    have hform := (hforms _).mp (parsed_of_unfinished hunclosed)
    obtain ⟨label, children, hname, hchildren, ht, -⟩ := hunclosed
    have hcount := hform.count_parens
    have hclosed : (forestText (.cons label children .nil)).count (chr '(') =
        (forestText (.cons label children .nil)).count (chr ')') :=
      count_parens_forestText ⟨hname, hchildren.1, trivial⟩
    rw [← ht, hform.seen_eq, List.count_append, List.count_append, List.count_replicate_self,
      List.count_replicate] at hclosed
    simp only [show (chr ')' == chr '(') = false from by decide, Bool.false_eq_true,
      if_false] at hclosed
    omega
  | cut hcut hunfinished =>
    exact hcut ((hforms _).mp (parsed_of_unfinished hunfinished)).seen_eq
  | colon hname hnames hv hcolons =>
    obtain ⟨r, hrefused⟩ := (parseClassName_tree hname.plain
      (hnames.imp fun _ h => h.plain)).2 fun h => hcolons h.2.2
    rw [← hv] at hrefused
    have hparsed := (hforms _).mpr ⟨_, _, hname, hnames, hv, rfl⟩
    rw [hrefused] at hparsed
    cases hparsed

/-- Where `php_scylladb_parse_class_name` accepts what it should. -/
theorem followsForm_iff
    (v : Bytes) :
    FollowsForm v ↔ ¬ Misparsed v := by
  constructor
  · exact fun hfollows hmis => not_followsForm hmis hfollows
  · intro hfine
    refine ⟨fun hcrash => hfine (.crashing (parseClassName_eq_crashed_iff.mp hcrash)), ?_⟩
    intro tree
    constructor
    · intro hparsed
      rcases parseClassName_eq_parsed_iff.mp hparsed with ⟨missing, hunfinished⟩ | hstray
      · cases missing with
        | succ missing => exact absurd (.unclosed hunfinished) hfine
        | zero =>
          have hwhole : seen v = v := by
            by_contra hcut
            exact hfine (.cut hcut hunfinished)
          obtain ⟨label, children, hname, hchildren, ht, htree⟩ := hunfinished
          rw [hwhole, List.replicate_zero, List.append_nil] at ht
          exact ⟨label, children, hname, hchildren.1, ht, htree⟩
      · exact absurd (.stray hstray) hfine
    · rintro ⟨label, children, hname, hnames, hv, rfl⟩
      have hcolons : ColonsAfterLeaves children := by
        by_contra hcolons
        exact hfine (.colon hname hnames hv hcolons)
      rw [hv]
      exact (parseClassName_tree hname.plain (hnames.imp fun _ h => h.plain)).1
        ⟨hname, hnames, hcolons⟩

/-- `a,b` leads through the null pointer above the root; `a(b` and `a)` are
accepted. -/
theorem followsForm_fails :
    parseClassName (ascii "a,b") = some .crashed ∧ ¬ FollowsForm (ascii "a,b") ∧
      parseClassName (ascii "a(b") =
        some (.parsed (.cons (ascii "a") (.cons (ascii "b") .nil .nil) .nil)) ∧
      ¬ FollowsForm (ascii "a(b") ∧
      parseClassName (ascii "a)") = some (.parsed (.cons (ascii "a") .nil .nil)) ∧
      ¬ FollowsForm (ascii "a)") := by
  have hcomma : parseClassName (ascii "a,b") = some .crashed := by decide +kernel
  have hopen : parseClassName (ascii "a(b") =
      some (.parsed (.cons (ascii "a") (.cons (ascii "b") .nil .nil) .nil)) := by
    decide +kernel
  have hclose : parseClassName (ascii "a)") = some (.parsed (.cons (ascii "a") .nil .nil)) := by
    decide +kernel
  refine ⟨hcomma, fun h => h.1 hcomma, hopen, fun h => ?_, hclose, fun h => ?_⟩
  · exact absurd ((h.2 _).mp hopen).count_parens (by decide)
  · exact absurd ((h.2 _).mp hclose).count_parens (by decide)

end Marshal
end ScyllaDriver
