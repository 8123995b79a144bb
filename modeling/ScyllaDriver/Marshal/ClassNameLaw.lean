import ScyllaDriver.Marshal.ClassName

/-!
# The parser on the text of a tree

A tree of labels is written with parentheses around the children of a node
and a comma or a colon before each further child. The parser reads such a
text back to the tree if every label is a name and no colon follows a closing
parenthesis, and refuses it otherwise.
The proof is an induction on the tree; what it says of the children of a node
it says for every place in which the node may stand.
-/

namespace ScyllaDriver
namespace Marshal

open CString

inductive Separator
  | comma
  | colon
  deriving DecidableEq, Repr

def Separator.char : Separator → UInt8
  | .comma => chr ','
  | .colon => chr ':'

/-- A label and the mark before it, which a first child does not have. -/
structure Label where
  mark : Separator := .comma
  text : Bytes
  deriving DecidableEq, Repr

def leadingMark : Forest Label → Bytes
  | .nil => []
  | .cons label _ _ => [label.mark.char]

@[simp] theorem leadingMark_nil : leadingMark .nil = [] :=
  rfl

@[simp] theorem leadingMark_cons (label : Label) (children siblings : Forest Label) :
    leadingMark (.cons label children siblings) = [label.mark.char] :=
  rfl

def forestText : Forest Label → Bytes
  | .nil => []
  | .cons label children siblings =>
    label.text ++
      (if children.isNil then []
        else chr '(' :: forestText children ++ [chr ')']) ++
      leadingMark siblings ++ forestText siblings

/-- A colon stands after a label without children only. -/
def ColonsAfterLeaves : Forest Label → Prop
  | .nil => True
  | .cons _ children siblings =>
    ColonsAfterLeaves children ∧ ColonsAfterLeaves siblings ∧
      (leadingMark siblings = [chr ':'] → children = .nil)

/-- The marks of the notation, and the byte that ends a C string. -/
def isMark (c : UInt8) : Bool :=
  c = 0 || c = chr '(' || c = chr ')' || c = chr ',' || c = chr ':'

def Plain (t : Bytes) : Prop :=
  ∀ c ∈ t, isMark c = false

/-- What the tokenizer takes for one name. -/
structure IsName (t : Bytes) : Prop where
  head : ∃ c ∈ t.head?, isalnum c = true
  letters : ∀ c ∈ t, isletter c = true

/-- The labels are names, and the colons stand where the parser takes them. -/
def Parsable (f : Forest Label) : Prop :=
  (f.All fun label => IsName label.text) ∧ ColonsAfterLeaves f

/-- A text that goes on with a mark, or ends. -/
def AtMark (t : Bytes) : Prop :=
  ∀ c ∈ t.head?, isMark c = true

@[simp] theorem atMark_cons (c : UInt8) (t : Bytes) : AtMark (c :: t) ↔ isMark c = true := by
  simp [AtMark]

variable {c : UInt8} {t rest v : Bytes} {s s' : Scanner}

theorem isletter_of_isMark (h : isMark c = true) : isletter c = false ∧ isalnum c = false := by
  simp only [isMark, Bool.or_eq_true, decide_eq_true_eq] at h
  rcases h with (((rfl | rfl) | rfl) | rfl) | rfl <;> decide

theorem isletter_of_isalnum (h : isalnum c = true) : isletter c = true := by
  simp [isletter, h]

theorem isMark_of_isletter (h : isletter c = true) : isMark c = false := by
  cases hmark : isMark c with
  | false =>
    rfl
  | true =>
    rw [(isletter_of_isMark hmark).1] at h
    cases h

theorem IsName.plain (h : IsName t) : Plain t :=
  fun c hc => isMark_of_isletter (h.letters c hc)

/-- A text that does not go on with a letter. -/
def NoLetter (t : Bytes) : Prop :=
  ∀ c ∈ t.head?, isletter c = false

theorem AtMark.noLetter (h : AtMark t) : NoLetter t :=
  fun c hc => (isletter_of_isMark (h c hc)).1

theorem takeWhile_isletter (ht : ∀ c ∈ t, isletter c = true) (hrest : NoLetter rest) :
    (t ++ rest).takeWhile isletter = t ∧ (t ++ rest).dropWhile isletter = rest := by
  rw [List.takeWhile_append_of_pos ht, List.dropWhile_append_of_pos ht]
  cases rest with
  | nil =>
    simp
  | cons c rest =>
    have hc : isletter c = false := hrest c (by simp)
    simp [hc]

theorem nextToken_name (ht : IsName t) (hrest : NoLetter rest) :
    nextToken (t ++ rest) = ⟨.name, t, rest⟩ := by
  obtain ⟨c, hc, halnum⟩ := ht.head
  cases t with
  | nil =>
    simp at hc
  | cons d t =>
    obtain rfl : d = c := by
      simpa using hc
    obtain ⟨htake, hdrop⟩ := takeWhile_isletter ht.letters hrest
    rw [List.cons_append] at htake hdrop ⊢
    rw [nextToken, if_pos halnum, htake, hdrop]

theorem nextToken_illegal (halnum : isalnum c = false) (hmark : isMark c = false) :
    (nextToken (c :: rest)).type = .illegal := by
  simp only [isMark, Bool.or_eq_false_iff, decide_eq_false_iff_not] at hmark
  obtain ⟨⟨⟨⟨h0, h1⟩, h2⟩, h3⟩, h4⟩ := hmark
  simp [nextToken, halnum, h0, h1, h2, h3, h4]

theorem nextToken_type_ne_name (h : ∀ c ∈ rest.head?, isalnum c = false) :
    (nextToken rest).type ≠ .name := by
  cases rest with
  | nil =>
    simp [nextToken]
  | cons c rest =>
    have hc := h c (by simp)
    simp only [nextToken, hc, Bool.false_eq_true, if_false]
    split_ifs <;> simp

@[simp] theorem nextToken_parenOpen (rest : Bytes) :
    nextToken (chr '(' :: rest) = ⟨.parenOpen, [chr '('], rest⟩ :=
  rfl

@[simp] theorem nextToken_parenClose (rest : Bytes) :
    nextToken (chr ')' :: rest) = ⟨.parenClose, [chr ')'], rest⟩ :=
  rfl

@[simp] theorem nextToken_comma (rest : Bytes) :
    nextToken (chr ',' :: rest) = ⟨.comma, [chr ','], rest⟩ :=
  rfl

@[simp] theorem nextToken_colon (rest : Bytes) :
    nextToken (chr ':' :: rest) = ⟨.colon, [chr ':'], rest⟩ :=
  rfl

/-- From `s` the parser comes to `s'` if `good` holds, and refuses the text if
it does not. -/
structure Reaches (v : Bytes) (good : Prop) (s s' : Scanner) : Prop where
  passes : good → ∀ a, Loop.Ends (step v) s a ↔ Loop.Ends (step v) s' a
  refuses : ¬good → ∃ r, Loop.Ends (step v) s (.refused r)

theorem Reaches.of_iff (h : ∀ a, Loop.Ends (step v) s a ↔ Loop.Ends (step v) s' a) :
    Reaches v True s s' :=
  ⟨fun _ => h, fun hnot => absurd trivial hnot⟩

theorem Reaches.congr {good good' : Prop} (h : Reaches v good s s') (hgood : good ↔ good') :
    Reaches v good' s s' :=
  ⟨fun h' => h.passes (hgood.mpr h'), fun h' => h.refuses fun hg => h' (hgood.mp hg)⟩

theorem Reaches.trans {good good' : Prop} {s'' : Scanner} (h : Reaches v good s s')
    (h' : Reaches v good' s' s'') :
    Reaches v (good ∧ good') s s'' where
  passes := by
    rintro ⟨hgood, hgood'⟩ a
    exact (h.passes hgood a).trans (h'.passes hgood' a)
  refuses := by
    intro hnot
    by_cases hgood : good
    · obtain ⟨r, hr⟩ := h'.refuses fun hgood' => hnot ⟨hgood, hgood'⟩
      exact ⟨r, (h.passes hgood _).mpr hr⟩
    · exact h.refuses hgood

section

variable {v : Bytes} {a : ClassResult} {level parent : Level}
  {up : List Level} {inner : Forest Bytes} {t rest : Bytes}

theorem ends_name (ht : IsName t) (hrest : NoLetter rest) :
    Loop.Ends (step v) ⟨.inClass, t ++ rest, level :: up, inner⟩ a ↔
      Loop.Ends (step v) ⟨.afterClass, rest, { level with name := t } :: up, inner⟩ a := by
  refine Loop.ends_next_iff ?_
  simp [step, nextToken_name ht hrest, Scanner.atClass]

theorem exists_first_not {p : UInt8 → Bool} {l : Bytes} (h : ∃ d ∈ l, p d = false) :
    ∃ l' d l'', l = l' ++ d :: l'' ∧ (∀ x ∈ l', p x = true) ∧ p d = false := by
  induction l with
  | nil =>
    simp at h
  | cons c l ih =>
    cases hc : p c with
    | false =>
      exact ⟨[], c, l, rfl, by simp, hc⟩
    | true =>
      obtain ⟨d, hd, hpd⟩ := h
      have hmem : d ∈ l := by
        rcases List.mem_cons.mp hd with rfl | hmem
        · rw [hc] at hpd
          cases hpd
        · exact hmem
      obtain ⟨l', e, l'', rfl, hl', he⟩ := ih ⟨d, hmem, hpd⟩
      refine ⟨c :: l', e, l'', rfl, ?_, he⟩
      intro x hx
      rcases List.mem_cons.mp hx with rfl | hx
      · exact hc
      · exact hl' x hx

theorem refused_of_illegal {s : Scanner} (h : (nextToken s.text).type = .illegal) :
    ∃ r, Loop.Ends (step v) s (.refused r) := by
  refine ⟨.illegalCharacter (byteAt s.text 0)
    ((v.length : Int) - (nextToken s.text).rest.length - 1), .stop ?_⟩
  simp [step, h]

theorem refused_of_no_name (hplain : Plain t) (ht : ¬IsName t) (hrest : AtMark rest) :
    ∃ r, Loop.Ends (step v) ⟨.inClass, t ++ rest, level :: up, inner⟩ (.refused r) := by
  cases t with
  | nil =>
    -- a mark or the end stands where the name should be
    have htype : (nextToken rest).type ≠ .name :=
      nextToken_type_ne_name (fun c hc => (isletter_of_isMark (hrest c hc)).2)
    by_cases hillegal : (nextToken rest).type = .illegal
    · exact refused_of_illegal hillegal
    · refine ⟨.unexpected (nextToken rest).type
        ((v.length : Int) - (nextToken rest).rest.length - 1)
        "fully qualified class name", .stop ?_⟩
      simp [step, hillegal, Scanner.atClass, htype, expecting]
  | cons c t =>
    by_cases halnum : isalnum c = true
    · -- the name is cut off at a character that is no letter and no mark
      have hbad : ∃ d ∈ c :: t, isletter d = false := by
        by_contra hall
        refine ht ⟨⟨c, by simp, halnum⟩, ?_⟩
        intro d hd
        by_contra hletter
        exact hall ⟨d, hd, by simpa using hletter⟩
      obtain ⟨t', d, t'', hsplit, hletters, hd⟩ := exists_first_not hbad
      have hname : IsName t' := by
        refine ⟨?_, hletters⟩
        cases t' with
        | nil =>
          obtain rfl : c = d := (List.cons.inj hsplit).1
          rw [isletter_of_isalnum halnum] at hd
          cases hd
        | cons c' t' =>
          obtain rfl : c = c' := (List.cons.inj hsplit).1
          exact ⟨c, by simp, halnum⟩
      have hillegal : (nextToken (d :: (t'' ++ rest))).type = .illegal := by
        refine nextToken_illegal ?_ (hplain d (by simp [hsplit]))
        simp only [isletter, Bool.or_eq_false_iff] at hd
        exact hd.1
      obtain ⟨r, hr⟩ := refused_of_illegal
        (v := v) (s := ⟨.afterClass, d :: (t'' ++ rest),
          { level with name := t' } :: up, inner⟩) hillegal
      refine ⟨r, ?_⟩
      rw [hsplit, List.append_assoc, List.cons_append, ends_name hname]
      · exact hr
      · simpa [NoLetter] using hd
    · have hmark := hplain c (by simp)
      exact refused_of_illegal (nextToken_illegal (by simpa using halnum) hmark)

theorem ends_open :
    Loop.Ends (step v) ⟨.afterClass, chr '(' :: rest, level :: up, inner⟩ a ↔
      Loop.Ends (step v) ⟨.inClass, rest, {} :: level :: up, .nil⟩ a :=
  Loop.ends_next_iff rfl

theorem ends_close {state : ParserState} (hstate : state = .afterClass ∨ state = .afterParens) :
    Loop.Ends (step v) ⟨state, chr ')' :: rest, level :: parent :: up, inner⟩ a ↔
      Loop.Ends (step v) ⟨.afterParens, rest, parent :: up, level.close inner⟩ a := by
  refine Loop.ends_next_iff ?_
  rcases hstate with rfl | rfl
  · rfl
  · simp [step, Scanner.atAfterParens, Scanner.toParent]

theorem ends_separator {state : ParserState} {mark : Separator}
    (hstate : state = .afterClass ∨ (state = .afterParens ∧ mark = .comma)) :
    Loop.Ends (step v) ⟨state, mark.char :: rest, level :: parent :: up, inner⟩ a ↔
      Loop.Ends (step v) ⟨.inClass, rest, level.addSibling inner :: parent :: up, .nil⟩ a := by
  refine Loop.ends_next_iff ?_
  rcases hstate with rfl | ⟨rfl, rfl⟩
  · cases mark <;> rfl
  · simp [step, Separator.char, Scanner.atAfterParens, Scanner.toSibling]

theorem refused_colon :
    ∃ r, Loop.Ends (step v) ⟨.afterParens, chr ':' :: rest, level :: up, inner⟩ (.refused r) :=
  ⟨_, .stop rfl⟩

theorem atMark_rest (children siblings : Forest Label) (rest : Bytes) :
    AtMark ((if children.isNil then []
        else chr '(' :: forestText children ++ [chr ')']) ++
      leadingMark siblings ++ forestText siblings ++ chr ')' :: rest) := by
  cases children with
  | nil =>
    cases siblings with
    | nil =>
      simp only [Forest.isNil, leadingMark, forestText, if_true, List.nil_append, atMark_cons]
      decide
    | cons label _ _ =>
      cases hmark : label.mark <;>
        simp only [Forest.isNil, leadingMark, if_true, List.nil_append,
          List.cons_append, atMark_cons, hmark, Separator.char] <;>
        decide
  | cons label _ _ =>
    simp only [Forest.isNil, Bool.false_eq_true, if_false, List.cons_append, atMark_cons]
    decide

theorem reaches_name (hplain : Plain t) (hrest : AtMark rest) :
    Reaches v (IsName t) ⟨.inClass, t ++ rest, level :: up, inner⟩
      ⟨.afterClass, rest, { level with name := t } :: up, inner⟩ :=
  ⟨fun ht _ => ends_name ht hrest.noLetter, fun ht => refused_of_no_name hplain ht hrest⟩

def stateAfter (children : Forest Label) : ParserState :=
  if children.isNil then .afterClass else .afterParens

/-- What the parser does inside the parentheses of a node, up to the closing
one. -/
def ReadsChildren (v : Bytes) (f : Forest Label) : Prop :=
  ∀ (before : List (Bytes × Forest Bytes)) (parent : Level) (up : List Level) (rest : Bytes),
    Reaches v (Parsable f)
      ⟨.inClass, forestText f ++ chr ')' :: rest, ⟨before, []⟩ :: parent :: up, .nil⟩
      ⟨.afterParens, rest, parent :: up, Forest.prepend before (f.map Label.text)⟩

variable {children : Forest Label}

theorem reaches_parens (ih : children ≠ .nil → ReadsChildren v children) :
    Reaches v (Parsable children)
      ⟨.afterClass,
        (if children.isNil then []
          else chr '(' :: forestText children ++ [chr ')']) ++ rest,
        level :: up, .nil⟩
      ⟨stateAfter children, rest, level :: up, children.map Label.text⟩ := by
  cases hchildren : children with
  | nil =>
    exact (Reaches.of_iff fun _ => Iff.rfl).congr (iff_of_true trivial ⟨trivial, trivial⟩)
  | cons label children' siblings' =>
    rw [← hchildren]
    have hne : children ≠ .nil := by
      simp [hchildren]
    have hnil : children.isNil = false := by
      rw [hchildren]
      rfl
    have hread := ih hne [] level up rest
    have hopen : Reaches v True
        ⟨.afterClass, chr '(' :: (forestText children ++ chr ')' :: rest), level :: up, .nil⟩
        ⟨.inClass, forestText children ++ chr ')' :: rest, {} :: level :: up, .nil⟩ :=
      .of_iff fun _ => ends_open
    have hboth := hopen.trans hread
    rw [true_and] at hboth
    simpa [hnil, stateAfter, Forest.prepend] using hboth

theorem reaches_separator (children : Forest Label) (mark : Separator) :
    Reaches v (mark = .colon → children = .nil)
      ⟨stateAfter children, mark.char :: rest, level :: parent :: up, inner⟩
      ⟨.inClass, rest, level.addSibling inner :: parent :: up, .nil⟩ := by
  cases children with
  | nil =>
    exact ⟨fun _ _ => ends_separator (.inl rfl), fun h => absurd (fun _ => rfl) h⟩
  | cons label children siblings =>
    cases mark with
    | comma =>
      exact ⟨fun _ _ => ends_separator (.inr ⟨rfl, rfl⟩), fun h => absurd nofun h⟩
    | colon =>
      exact ⟨fun h => (nomatch h rfl), fun _ => refused_colon⟩

theorem leadingMark_eq_colon {label : Label} {children siblings : Forest Label} :
    leadingMark (.cons label children siblings) = [chr ':'] ↔ label.mark = .colon := by
  cases h : label.mark <;> simp [h, Separator.char]
  decide

theorem reaches_siblings {siblings : Forest Label} {name : Bytes}
    (ih : siblings ≠ .nil → ReadsChildren v siblings) (before : List (Bytes × Forest Bytes)) :
    Reaches v ((leadingMark siblings = [chr ':'] → children = .nil) ∧ Parsable siblings)
      ⟨stateAfter children,
        leadingMark siblings ++ forestText siblings ++ chr ')' :: rest,
        ⟨before, name⟩ :: parent :: up, inner⟩
      ⟨.afterParens, rest, parent :: up,
        Forest.prepend before (.cons name inner (siblings.map Label.text))⟩ := by
  cases hsiblings : siblings with
  | nil =>
    have hstate : stateAfter children = .afterClass ∨ stateAfter children = .afterParens := by
      unfold stateAfter
      split_ifs <;> simp
    refine (Reaches.of_iff fun a => (ends_close hstate).trans ?_).congr
      (iff_of_true trivial ⟨nofun, trivial, trivial⟩)
    simp [Level.close, Forest.map]
  | cons label children' siblings' =>
    rw [leadingMark_eq_colon, ← hsiblings]
    have hne : siblings ≠ .nil := by
      simp [hsiblings]
    have hmark : leadingMark siblings = [label.mark.char] := by
      rw [hsiblings]
      rfl
    have hseparator : Reaches v (label.mark = .colon → children = .nil)
        ⟨stateAfter children,
          label.mark.char :: (forestText siblings ++ chr ')' :: rest),
          ⟨before, name⟩ :: parent :: up, inner⟩
        ⟨.inClass, forestText siblings ++ chr ')' :: rest,
          ⟨before ++ [(name, inner)], []⟩ :: parent :: up, .nil⟩ :=
      reaches_separator children label.mark
    have hread := ih hne (before ++ [(name, inner)]) parent up rest
    have hboth := hseparator.trans hread
    simpa [hmark] using hboth

theorem readsChildren (f : Forest Label) (hne : f ≠ .nil)
    (hplain : f.All fun label => Plain label.text) : ReadsChildren v f := by
  induction f with
  | nil =>
    exact absurd rfl hne
  | cons label children siblings ihc ihs =>
    obtain ⟨hlabel, hplainc, hplains⟩ := hplain
    intro before parent up rest
    have hname : Reaches v (IsName label.text)
        ⟨.inClass, label.text ++ _, ⟨before, []⟩ :: parent :: up, .nil⟩
        ⟨.afterClass, _, ⟨before, label.text⟩ :: parent :: up, .nil⟩ :=
      reaches_name hlabel (atMark_rest children siblings rest)
    have hparens : Reaches v (Parsable children)
        ⟨.afterClass,
          (if children.isNil then []
            else chr '(' :: forestText children ++ [chr ')']) ++
            (leadingMark siblings ++ forestText siblings ++ chr ')' :: rest),
          ⟨before, label.text⟩ :: parent :: up, .nil⟩ _ :=
      reaches_parens fun h => ihc h hplainc
    have hsiblings : Reaches v
        ((leadingMark siblings = [chr ':'] → children = .nil) ∧ Parsable siblings)
        ⟨stateAfter children,
          leadingMark siblings ++ forestText siblings ++ chr ')' :: rest,
          ⟨before, label.text⟩ :: parent :: up, children.map Label.text⟩ _ :=
      reaches_siblings (fun h => ihs h hplains) before
    simp only [List.append_assoc] at hname hparens hsiblings
    have hparsable : Parsable (.cons label children siblings) ↔
        IsName label.text ∧ Parsable children ∧
          (leadingMark siblings = [chr ':'] → children = .nil) ∧ Parsable siblings := by
      simp only [Parsable, Forest.All, ColonsAfterLeaves]
      tauto
    have hall := (hname.trans (hparens.trans hsiblings)).congr hparsable.symm
    simpa [forestText, Forest.map] using hall

theorem atMark_parens (children : Forest Label) :
    AtMark (if children.isNil then []
      else chr '(' :: forestText children ++ [chr ')']) := by
  cases children with
  | nil =>
    simp [Forest.isNil, AtMark]
  | cons label _ _ =>
    simp only [Forest.isNil, Bool.false_eq_true, if_false, List.cons_append, atMark_cons]
    decide

theorem ends_root {name : Bytes} :
    Loop.Ends (step v) ⟨stateAfter children, [], [⟨[], name⟩], inner⟩ a ↔
      .parsed (.cons name inner .nil) = a := by
  refine Loop.ends_stop_iff ?_
  unfold stateAfter
  split_ifs <;> rfl

/-- A tree of plain labels is read back if it is parsable. -/
theorem ends_tree {label : Label} (hlabel : Plain label.text)
    (hplain : children.All fun label => Plain label.text) :
    Reaches v (IsName label.text ∧ Parsable children)
      { text := forestText (.cons label children .nil) }
      ⟨stateAfter children, [], [⟨[], label.text⟩], children.map Label.text⟩ := by
  have hname : Reaches v (IsName label.text) ⟨.inClass, label.text ++ _, [⟨[], []⟩], .nil⟩
      ⟨.afterClass, _, [⟨[], label.text⟩], .nil⟩ :=
    reaches_name hlabel (atMark_parens children)
  have hparens : Reaches v (Parsable children)
      ⟨.afterClass,
        (if children.isNil then []
          else chr '(' :: forestText children ++ [chr ')']) ++ [],
        [⟨[], label.text⟩], .nil⟩ _ :=
    reaches_parens fun h => readsChildren children h hplain
  rw [List.append_nil] at hparens
  have hall := hname.trans hparens
  simpa [forestText, leadingMark] using hall

end

theorem nextToken_rest_lt {text : Bytes} (hend : (nextToken text).type ≠ .endOfString)
    (hlegal : (nextToken text).type ≠ .illegal) : (nextToken text).rest.length < text.length := by
  cases text with
  | nil =>
    simp [nextToken] at hend
  | cons c cs =>
    by_cases halnum : isalnum c = true
    · have hdrop := (List.dropWhile_suffix isletter (l := cs)).length_le
      simp only [nextToken, halnum, if_true, List.dropWhile_cons,
        isletter_of_isalnum halnum, List.length_cons]
      omega
    · have hne : isalnum c = false := by
        simpa using halnum
      simp only [nextToken, hne, Bool.false_eq_true, if_false] at hend hlegal ⊢
      split_ifs at hend hlegal ⊢ <;> simp_all

theorem toSibling_next (h : s.toSibling rest = .next s') : s'.text = rest := by
  unfold Scanner.toSibling at h
  split at h
  · cases h
    rfl
  · cases h

theorem toParent_next (h : s.toParent rest = .next s') : s'.text = rest := by
  unfold Scanner.toParent at h
  split at h
  · cases h
  · cases h
    rfl

theorem step_next (h : step v s = .next s') : s'.text.length < s.text.length := by
  unfold step at h
  dsimp only at h
  split at h
  · cases h
  · next hlegal =>
      have hread : ∀ {expected : TokenType},
          (nextToken s.text).type = expected → expected ≠ .endOfString →
          s'.text = (nextToken s.text).rest →
          s'.text.length < s.text.length := by
        rintro expected rfl hend htext
        rw [htext]
        exact nextToken_rest_lt hend hlegal
      split at h
      · unfold Scanner.atAfterParens at h
        split at h
        · next htype =>
            split_ifs at h
            · cases h
            · exact hread htype (by simp) (toSibling_next h)
        · next htype =>
            split_ifs at h
            · cases h
            · exact hread htype (by simp) (toParent_next h)
        · cases h
        · cases h
      · unfold Scanner.atAfterClass at h
        split at h
        · next htype =>
            cases h
            exact hread htype (by simp) rfl
        · next htype =>
            exact hread htype (by simp) (toSibling_next h)
        · next htype =>
            exact hread htype (by simp) (toSibling_next h)
        · next htype =>
            exact hread htype (by simp) (toParent_next h)
        · cases h
        · cases h
      · unfold Scanner.atClass at h
        split_ifs at h with htype
        · cases h
        · split at h
          · cases h
          · cases h
            exact hread (not_not.mp htype) (by simp) rfl

theorem parseClassName_eq_some_iff {validator : Bytes} {a : ClassResult} :
    parseClassName validator = some a ↔ Loop.Ends (step validator) { text := validator } a := by
  have hstep : ∀ s s' : Scanner, True → step validator s = .next s' →
      True ∧ s'.text.length < s.text.length :=
    fun _ _ _ h => ⟨trivial, step_next h⟩
  exact Loop.run_eq_some_iff (fun s : Scanner => s.text.length) hstep trivial (Nat.lt_succ_self _)

/-- The parser reads the text of a tree back, or refuses it where it is not
parsable. -/
theorem parseClassName_tree {label : Label} {children : Forest Label} (hlabel : Plain label.text)
    (hplain : children.All fun label => Plain label.text) :
    (IsName label.text ∧ Parsable children →
      parseClassName (forestText (.cons label children .nil)) =
        some (.parsed (.cons label.text (children.map Label.text) .nil))) ∧
    (¬(IsName label.text ∧ Parsable children) →
      ∃ r, parseClassName (forestText (.cons label children .nil)) = some (.refused r)) := by
  simp only [parseClassName_eq_some_iff]
  have h := ends_tree (v := forestText (.cons label children .nil)) hlabel hplain
  constructor
  · intro hgood
    rw [h.passes hgood, ends_root]
  · exact h.refuses

end Marshal
end ScyllaDriver
