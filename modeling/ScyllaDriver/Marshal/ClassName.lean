import ScyllaDriver.Library.CString
import ScyllaDriver.Library.Forest
import ScyllaDriver.Library.Loop

/-!
# The class name parser

`php_scylladb_parse_class_name` of `TypeFactory.c` turns a class name such as
`MapType(UTF8Type,Int32Type)` into a tree of nodes. It holds a pointer to the
node it is working on and moves it to a new child, a new sibling or the
parent.

New nodes are only ever hung behind the last child of an open node. So the
tree under construction is given by the open nodes, from the one worked on up
to the root (`stack`), each with the siblings before it, and by the children
the innermost one already has (`inner`). An empty stack is the null pointer
that the parser gets when it leaves the root.
-/

namespace ScyllaDriver
namespace Marshal

open CString

inductive TokenType
  | illegal
  | parenOpen
  | parenClose
  | comma
  | colon
  | name
  | endOfString
  deriving DecidableEq, Repr

/-- `describe_token`. -/
def TokenType.describe : TokenType → String
  | .illegal => "illegal character"
  | .parenOpen => "opening parenthesis"
  | .parenClose => "closing parenthesis"
  | .comma => "comma"
  | .colon => "colon"
  | .name => "alphanumeric character"
  | .endOfString => "end of string"

def isletter (ch : UInt8) : Bool :=
  isalnum ch || ch = chr '.'

structure Token where
  type : TokenType
  text : Bytes
  rest : Bytes
  deriving DecidableEq, Repr

/-- `next_token`. At the end it leaves the text where it is. -/
def nextToken : Bytes → Token
  | [] => ⟨.endOfString, [], []⟩
  | c :: cs =>
    if isalnum c then
      ⟨.name, (c :: cs).takeWhile isletter, (c :: cs).dropWhile isletter⟩
    else if c = 0 then ⟨.endOfString, [], c :: cs⟩
    else if c = chr '(' then ⟨.parenOpen, [c], cs⟩
    else if c = chr ')' then ⟨.parenClose, [c], cs⟩
    else if c = chr ',' then ⟨.comma, [c], cs⟩
    else if c = chr ':' then ⟨.colon, [c], cs⟩
    else ⟨.illegal, [], c :: cs⟩

inductive ParserState
  | inClass
  | afterClass
  | afterParens
  deriving DecidableEq, Repr

inductive Refusal
  | illegalCharacter (ch : UInt8) (position : Int)
  | unexpected (type : TokenType) (position : Int) (expected : String)
  | invalidType
  deriving DecidableEq, Repr

/-- An open node: the siblings before it and its name, which is null before
the parser has read it. -/
structure Level where
  before : List (Bytes × Forest Bytes) := []
  name : Bytes := []

/-- The chain of siblings that ends with this node. -/
def Level.close (level : Level) (inner : Forest Bytes) : Forest Bytes :=
  Forest.prepend (level.before ++ [(level.name, inner)]) .nil

/-- The node is given a next sibling, which becomes the open one. -/
def Level.addSibling (level : Level) (inner : Forest Bytes) : Level :=
  { before := level.before ++ [(level.name, inner)] }

structure Scanner where
  state : ParserState := .inClass
  /-- `str` and `len`. -/
  text : Bytes
  stack : List Level := [{}]
  inner : Forest Bytes := .nil

/-- The root, with every open node closed. -/
def root : List Level → Forest Bytes → Forest Bytes
  | [], inner => inner
  | level :: stack, inner => root stack (level.close inner)

/-- How the parser ends. `crashed` is an access through a null pointer. -/
inductive ClassResult
  | parsed (root : Forest Bytes)
  | refused (r : Refusal)
  | crashed
  deriving DecidableEq, Repr

abbrev Outcome := Loop.Round Scanner ClassResult

/-- `EXPECTING_TOKEN`. -/
def expecting (validator : Bytes) (token : Token) (expected : String) : Outcome :=
  .stop (.refused (.unexpected token.type
    ((validator.length : Int) - token.rest.length - 1) expected))

/-- `node = node->parent`. -/
def Scanner.toParent (s : Scanner) (rest : Bytes) : Outcome :=
  match s.stack with
  | [] => .stop .crashed
  | level :: stack =>
    .next { state := .afterParens, text := rest, stack := stack, inner := level.close s.inner }

/-- A new node is hung behind the node, below its parent. -/
def Scanner.toSibling (s : Scanner) (rest : Bytes) : Outcome :=
  match s.stack with
  | level :: parent :: stack =>
    .next { state := .inClass, text := rest, stack := level.addSibling s.inner :: parent :: stack }
  | _ => .stop .crashed

/-- The block of `STATE_AFTER_PARENS`. -/
def Scanner.atAfterParens (s : Scanner) (validator : Bytes) (token : Token) : Outcome :=
  match token.type with
  | .comma =>
    if s.stack.length = 1 then expecting validator token "end of string"
    else s.toSibling token.rest
  | .parenClose =>
    if s.stack.length = 1 then expecting validator token "end of string"
    else s.toParent token.rest
  | .endOfString => .stop (.parsed (root s.stack s.inner))
  | _ =>
    expecting validator token "a comma, a closing parenthesis or an end of string"

/-- The block of `STATE_AFTER_CLASS`. -/
def Scanner.atAfterClass (s : Scanner) (validator : Bytes) (token : Token) : Outcome :=
  match token.type with
  | .parenOpen =>
    .next { state := .inClass, text := token.rest, stack := {} :: s.stack }
  | .comma => s.toSibling token.rest
  | .colon => s.toSibling token.rest
  | .parenClose => s.toParent token.rest
  | .endOfString => .stop (.parsed (root s.stack s.inner))
  | _ => expecting validator token "opening/closing parenthesis or comma"

/-- The block of `STATE_CLASS`. -/
def Scanner.atClass (s : Scanner) (validator : Bytes) (token : Token) : Outcome :=
  if token.type ≠ .name then
    expecting validator token "fully qualified class name"
  else
    match s.stack with
    | [] => .stop .crashed
    | level :: stack =>
      .next { s with
        state := .afterClass
        text := token.rest
        stack := { level with name := token.text } :: stack }

def step (validator : Bytes) (s : Scanner) : Outcome :=
  let token := nextToken s.text
  if token.type = .illegal then
    .stop (.refused (.illegalCharacter (byteAt s.text 0)
      ((validator.length : Int) - token.rest.length - 1)))
  else
    match s.state with
    | .afterParens => s.atAfterParens validator token
    | .afterClass => s.atAfterClass validator token
    | .inClass => s.atClass validator token

/-- `php_scylladb_parse_class_name`. Every round but the last reads a
character at least, so the rounds given here are enough. -/
def parseClassName (validator : Bytes) : Option ClassResult :=
  Loop.run (step validator) (validator.length + 1) { text := validator }

example :
    parseClassName (ascii "a.B(c,d:e(f))") =
      some (.parsed (.cons (ascii "a.B")
        (.cons (ascii "c") .nil
          (.cons (ascii "d") .nil
            (.cons (ascii "e") (.cons (ascii "f") .nil .nil) .nil))) .nil)) := by
  decide +kernel

end Marshal
end ScyllaDriver
