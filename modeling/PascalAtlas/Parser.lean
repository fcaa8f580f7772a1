import PascalAtlas.Parser.Grammar

/-!
# Parsing

`Token.parse` turns any list of tokens into a syntax tree, and `SyntaxTree.ofText` does it for a
source text that can be read as tokens. Parsing **never fails**: what is not well formed becomes
`error` nodes and entries in the list of errors.
-/

namespace PascalAtlas

/-- The state after the grammar has run over some tokens. -/
def Token.parseState (tokens : List Token) : State :=
  (Grammar.unit.run (Rule.run Grammar.rules (tokens.length + 1)) (State.initial tokens)).state

namespace State

/-- Finishes all open nodes but the outermost. -/
def closeAll (s : State) : State :=
  (s.frames.length - 1).repeat closeNode s

/-- The tree of the outermost frame. -/
def root (s : State) : Tree :=
  match s.closeAll.frames with
  | [] => Tree.ofChildren .unit [] 0
  | f :: _ => Tree.ofChildren f.kind f.children s.offset

end State

/-- The **syntax tree** of a list of tokens. -/
def Token.parse (tokens : List Token) : SyntaxTree :=
  let s := parseState tokens
  ⟨s.root, s.errors⟩

/-- The syntax tree of a source text, or the first place at which no token can be read. -/
def SyntaxTree.ofText (src : Text) : Except LexError SyntaxTree :=
  (Token.lex src).map Token.parse

end PascalAtlas
