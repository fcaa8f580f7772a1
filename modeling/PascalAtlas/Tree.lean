import PascalAtlas.Token.Lexer

/-!
# Syntax trees

A **syntax tree** keeps every token of the stretch it covers: its leaves, read from left to right,
are those tokens. A node knows its kind, the bytes it covers and its children, and nothing is thrown
away, not even where the source makes no sense: what could not be understood stands in an `error`
node.
-/

namespace PascalAtlas

/-! ## Nodes -/

/-- What a node of a syntax tree stands for. -/
inductive NodeKind where
  | unit | unitHeader | usesClause | typeDecl | classType | heritage | fieldDecl | propertyDecl
  | routineHeading | formalParams | routineDecl | localDecls | compound | ifStmt | whileStmt
  | forStmt | withStmt | tryStmt | caseStmt | caseArm | repeatStmt | simple | expr | typeRef
  | unitSection | error
  deriving DecidableEq

namespace NodeKind

/-- Whether a node of this kind opens a **nested list of statements**. -/
def isBlock : NodeKind → Bool
  | .compound | .ifStmt | .whileStmt | .forStmt | .withStmt | .tryStmt | .caseStmt
  | .repeatStmt => true
  | _ => false

/-- Whether a node of this kind is a statement. -/
def isStatement (k : NodeKind) : Bool :=
  k.isBlock || k == .simple

end NodeKind

/-- A token, or a node with the bytes it covers and its children in source order. -/
inductive Tree where
  | leaf (token : Token)
  | node (kind : NodeKind) (start stop : Nat) (children : List Tree)

namespace Tree

/-- The first byte covered. -/
def start : Tree → Nat
  | .leaf t => t.start
  | .node _ start _ _ => start

/-- The byte after the last one covered. -/
def stop : Tree → Nat
  | .leaf t => t.stop
  | .node _ _ stop _ => stop

/-- The children of a node; a leaf has none. -/
def children : Tree → List Tree
  | .leaf _ => []
  | .node _ _ _ children => children

/-- The kind of a node; a leaf has none. -/
def kind? : Tree → Option NodeKind
  | .leaf _ => none
  | .node kind _ _ _ => some kind

/-- The token of a leaf. -/
def token? : Tree → Option Token
  | .leaf t => some t
  | .node .. => none

/-- Makes a node that covers what its children cover. A node **without children** covers nothing
and stands at the given offset. -/
def ofChildren (kind : NodeKind) (children : List Tree) (offset : Nat) : Tree :=
  match children.head?, children.getLast? with
  | some first, some last =>
    if first.start ≤ last.stop then
      .node kind first.start last.stop children
    else
      .node kind offset offset children
  | _, _ => .node kind offset offset children

mutual

/-- The **leaves** of a tree from left to right. -/
def leaves : Tree → List Token
  | .leaf t => [t]
  | .node _ _ _ children => leavesOf children

/-- The leaves of some trees, one after the other. -/
def leavesOf : List Tree → List Token
  | [] => []
  | t :: ts => t.leaves ++ leavesOf ts

end

/-! ## Looking into a tree -/

/-- The text that a tree covers. -/
def text (src : Text) (t : Tree) : Text :=
  (Text.slice? src t.start t.stop).getD []

/-- The children that are nodes. -/
def nodes (t : Tree) : List Tree :=
  t.children.filter fun c => c.kind?.isSome

/-- The tokens among the children. -/
def tokens (t : Tree) : List Token :=
  t.children.filterMap token?

/-- The first child that is a node of a kind. -/
def child? (kind : NodeKind) (t : Tree) : Option Tree :=
  t.nodes.find? fun c => c.kind? == some kind

/-- The name carried by the first name among the child tokens. -/
def ident? (t : Tree) : Option Text :=
  t.tokens.findSome? fun token =>
    match token.kind with
    | .ident name => some name
    | _ => none

mutual

/-- The token reached by going to the first child again and again. -/
def firstToken? : Tree → Option Token
  | .leaf t => some t
  | .node _ _ _ children => firstTokenOf? children

/-- The first token of the first of some trees. -/
def firstTokenOf? : List Tree → Option Token
  | [] => none
  | t :: _ => t.firstToken?

end

mutual

/-- The token reached by going to the last child again and again. -/
def lastToken? : Tree → Option Token
  | .leaf t => some t
  | .node _ _ _ children => lastTokenOf? children

/-- The last token of the last of some trees. -/
def lastTokenOf? : List Tree → Option Token
  | [] => none
  | [t] => t.lastToken?
  | _ :: t :: ts => lastTokenOf? (t :: ts)

end

mutual

/-- Every node **below** a tree, each before the nodes inside it. -/
def descendants : Tree → List Tree
  | .leaf _ => []
  | .node _ _ _ children => descendantsOf children

/-- The nodes among some trees and below them, each before the nodes inside it. -/
def descendantsOf : List Tree → List Tree
  | [] => []
  | .leaf _ :: ts => descendantsOf ts
  | .node kind start stop children :: ts =>
    .node kind start stop children :: (descendantsOf children ++ descendantsOf ts)

end

end Tree

/-! ## Errors -/

/-- Why the parser could not go on. -/
inductive ParseCause where
  | unitLevel
  | classKeyword
  | classBody
  | routineKeyword
  | caseStatement
  | handler
  | statementList
  | separator
  | unbalanced
  | missingEnd
  | identifier
  | token (kind : TokenKind)
  deriving DecidableEq

/-- What is said about a cause, without the token that was found. -/
def ParseCause.text : ParseCause → String
  | .unitLevel => "unexpected token at unit level"
  | .classKeyword => "unexpected 'class' in class body"
  | .classBody => "unexpected token in class body"
  | .routineKeyword => "expected procedure, function, constructor or destructor"
  | .caseStatement => "unexpected token in case statement"
  | .handler => "expected 'except' or 'finally'"
  | .statementList => "unexpected token in statement list"
  | .separator => "expected ';' between statements"
  | .unbalanced => "unbalanced brackets"
  | .missingEnd => "missing 'end'"
  | .identifier => "expected identifier"
  | .token kind => "expected " ++ kind.describe

/-- A place at which the source is not well formed, with the token found there. -/
structure ParseError where
  cause : ParseCause
  found : TokenKind
  start : Nat
  stop : Nat
  deriving DecidableEq

/-- What is said about an error. -/
def ParseError.message (e : ParseError) : String :=
  e.cause.text ++ " (found " ++ e.found.describe ++ ")"

/-- The tree of a whole source text and the errors met on the way, in the order they were met. -/
structure SyntaxTree where
  root : Tree
  errors : List ParseError

end PascalAtlas
