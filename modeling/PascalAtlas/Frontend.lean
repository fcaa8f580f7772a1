import PascalAtlas.SourceUnit.OfTree
import PascalAtlas.SourceUnit.OfText

/-!
# From source text to unit

There are two ways to a unit: through the syntax tree, which gives statements too, and by patterns,
which needs no tokens. A **strategy** says which one to take; `auto` takes the tree and falls back
to patterns when the text cannot be read as tokens. Whatever is wrong with the source is reported
beside the unit and never instead of it.
-/

namespace PascalAtlas

/-- How a unit is built from its source. -/
inductive Strategy where
  | tree
  | scan
  | auto
  deriving DecidableEq

/-- A word that names no strategy, trimmed and in small letters. -/
structure StrategyError where
  word : Text
  deriving DecidableEq

/-- What is said about a word that names no strategy. -/
def StrategyError.message (e : StrategyError) : String :=
  "unknown strategy '" ++ String.ofList e.word ++ "' (expected tree, scan or auto)"

namespace Strategy

/-- The name of a strategy. -/
def name : Strategy → String
  | .tree => "tree"
  | .scan => "scan"
  | .auto => "auto"

/-- The strategy with a name, ignoring ASCII case and blanks around it. -/
def ofText (t : Text) : Except StrategyError Strategy :=
  let word := Text.lower (Text.trim t)
  match [tree, scan, auto].find? fun s => s.name.toList == word with
  | some s => .ok s
  | none => .error ⟨word⟩

end Strategy

/-- Something wrong with a source text: it cannot be read as tokens, or the tokens make no sense. -/
inductive SourceError where
  | lex (error : LexError)
  | parse (error : ParseError)
  deriving DecidableEq

namespace SourceError

/-- What is said about an error. -/
def message : SourceError → String
  | .lex e => e.message
  | .parse e => e.message

/-- The first byte of the place. -/
def start : SourceError → Nat
  | .lex e => e.start
  | .parse e => e.start

/-- The byte after the place. -/
def stop : SourceError → Nat
  | .lex e => e.stop
  | .parse e => e.stop

end SourceError

/-- A unit, how it was built, and what was wrong with its source. -/
structure BuiltUnit where
  unit : SourceUnit
  strategy : Strategy
  errors : List SourceError

namespace BuiltUnit

/-- Builds a unit by patterns. -/
def byPatterns (src fallback : Text) (errors : List SourceError) : Except ScanFault BuiltUnit := do
  let unit ← SourceUnit.ofText src fallback
  return ⟨unit, .scan, errors⟩

/-- **Builds** a unit from its source. The name is used if the source does not give one. -/
def ofSource (src fallback : Text) (strategy : Strategy) : Except ScanFault BuiltUnit :=
  match strategy with
  | .scan => byPatterns src fallback []
  | _ =>
    match SyntaxTree.ofText src with
    | .ok tree => .ok ⟨SourceUnit.ofTree src tree fallback, .tree, tree.errors.map .parse⟩
    | .error e =>
      if strategy = .auto then
        byPatterns src fallback [.lex e]
      else
        .ok ⟨{ name := fallback }, .tree, [.lex e]⟩

end BuiltUnit

end PascalAtlas
