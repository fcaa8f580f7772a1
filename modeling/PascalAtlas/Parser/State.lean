import PascalAtlas.Tree
import PascalAtlas.Parser.Scan

/-!
# The state of the parser

The parser stands before the tokens that are still to come and builds the tree behind it. The nodes
it has begun and not finished are a stack of **open frames**, the innermost first; a token or a
finished node is always added at the end of the innermost frame. So the children of the frames, read
from the outermost frame to the innermost, are all that has been consumed, in order, and that stays
true when frames are closed (`State.closeNode`) or merged after an error (`State.collapse`).
-/

namespace PascalAtlas

/-- A node that is not finished: its kind and the children it has so far. -/
structure Frame where
  kind : NodeKind
  children : List Tree

/-- The part of the unit in which the parser stands. -/
inductive UnitPart where
  | start
  | interface
  | implementation
  deriving DecidableEq

/-- The state of the parser. -/
structure State where
  /-- The tokens still to come. -/
  rest : List Token
  /-- The open frames, the innermost first. -/
  frames : List Frame
  /-- The errors met so far. -/
  errors : List ParseError := []
  /-- The part of the unit entered last. -/
  part : UnitPart := .start
  /-- Whether the heading read last says that the routine has no body. -/
  bodiless : Bool := false
  /-- Whether the `end.` of the unit has been consumed. -/
  closed : Bool := false
  /-- The offset to report when no token is left. -/
  lastStart : Nat

namespace State

/-- The state before some tokens, with one open frame for the whole unit. -/
def initial (tokens : List Token) : State where
  rest := tokens
  frames := [⟨.unit, []⟩]
  lastStart := (tokens.getLast?.map Token.start).getD 0

/-! ## Looking ahead -/

/-- The kind of the next token. -/
def kind (s : State) : TokenKind :=
  headKind s.rest

/-- The kind of the token after the next one. -/
def kindAfter (s : State) : TokenKind :=
  headKind s.rest.tail

/-- The offset of the next token. -/
def offset (s : State) : Nat :=
  match s.rest with
  | [] => s.lastStart
  | t :: _ => t.start

/-- The error that has the given cause at the next token. -/
def errorHere (s : State) (cause : ParseCause) : ParseError :=
  match s.rest with
  | [] => ⟨cause, .eof, s.lastStart, s.lastStart⟩
  | t :: _ => ⟨cause, t.kind, t.start, t.stop⟩

/-! ## Moving on -/

/-- Adds trees at the end of the innermost frame. -/
def push (trees : List Tree) (s : State) : State :=
  match s.frames with
  | [] => s
  | f :: fs => { s with frames := { f with children := f.children ++ trees } :: fs }

/-- Consumes the next token; at the end there is nothing to consume. -/
def bump (s : State) : State :=
  match s.rest with
  | [] => s
  | t :: ts => if t.kind = .eof then s else push [.leaf t] { s with rest := ts }

/-- Consumes some tokens at once. -/
def advance (n : Nat) (s : State) : State :=
  push ((s.rest.take n).map .leaf) { s with rest := s.rest.drop n }

/-- Records an error at the next token. -/
def report (cause : ParseCause) (s : State) : State :=
  { s with errors := s.errors ++ [s.errorHere cause] }

/-! ## Frames -/

/-- Begins a node. -/
def openNode (kind : NodeKind) (s : State) : State :=
  { s with frames := ⟨kind, []⟩ :: s.frames }

/-- Finishes the innermost node and adds it to the frame around it. The outermost frame is not
finished this way. -/
def closeNode (s : State) : State :=
  match s.frames with
  | f :: g :: fs =>
    let node := Tree.ofChildren f.kind f.children s.offset
    { s with frames := { g with children := g.children ++ [node] } :: fs }
  | _ => s

/-- Merges all frames above the `depth` outermost ones into one open `error` frame. Its children are
theirs, those of the outer frames **before** those of the inner ones, which is their order in the
source. -/
def collapse (depth : Nat) (s : State) : State :=
  let above := s.frames.take (s.frames.length - depth)
  let kept := s.frames.drop (s.frames.length - depth)
  { s with frames := ⟨.error, above.reverse.flatMap (·.children)⟩ :: kept }

end State

end PascalAtlas
