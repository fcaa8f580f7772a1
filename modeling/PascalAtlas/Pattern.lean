import PascalAtlas.Text.Blank
import PascalAtlas.Text.Word

/-!
# Patterns

Patterns over texts, as needed to find declarations in a text that cannot be read as tokens.

A pattern may match in several ways; they are tried in a **fixed order**, and the first one counts:
the first alternative before the second, one more round of a repetition before leaving it. Of all
the places in a text the leftmost counts. `Pattern.run` goes through the ways to match from a cursor
and hands each to a continuation until one is accepted.

Letters match without regard to case. Two signs beyond ASCII have an ASCII letter as their small
letter, the long s and the kelvin sign, and match it.
-/

namespace PascalAtlas

/-- A place in a text: the character before it, its byte offset and what follows. -/
structure Cursor where
  before : Option Char := none
  offset : Nat := 0
  rest : Text

namespace Cursor

/-- The cursor after one more character. -/
def next? (c : Cursor) : Option (Char × Cursor) :=
  match c.rest with
  | [] => none
  | x :: xs => some (x, ⟨some x, c.offset + x.utf8Size, xs⟩)

/-- Whether a word character stands on exactly one side. -/
def atBoundary (c : Cursor) : Bool :=
  (c.before.any Text.isWordChar) != (c.rest.head?.any Text.isWordChar)

/-- The text between a cursor and a later one. -/
def textTo (c later : Cursor) : Text :=
  (Text.take? (later.offset - c.offset) c.rest).getD []

/-- The cursor at a byte offset of a text, if it falls between two characters. -/
def at? (t : Text) (offset : Nat) : Option Cursor :=
  match Text.take? offset t, Text.drop? offset t with
  | some front, some back => some ⟨front.getLast?, offset, back⟩
  | _, _ => none

end Cursor

/-- A **pattern**. -/
inductive Pattern where
  /-- Nothing. -/
  | empty
  /-- One character that satisfies a test. -/
  | char (test : Char → Bool)
  /-- One pattern, then another. -/
  | seq (a b : Pattern)
  /-- One of two patterns; the first is preferred. -/
  | alt (a b : Pattern)
  /-- Any number of rounds, as many as possible. -/
  | many (a : Pattern)
  /-- A pattern whose text is kept under a number. -/
  | group (number : Nat) (a : Pattern)
  /-- The beginning or end of a word. -/
  | boundary
  /-- The beginning of the text. -/
  | first
  /-- The end of the text. -/
  | last

/-- The text that a group of a pattern matched. -/
structure Capture where
  start : Nat
  stop : Nat
  text : Text
  deriving DecidableEq

/-- What the groups matched, the latest first. -/
abbrev Captures := List (Nat × Capture)

/-- A match: the stretch it covers, its groups, and the cursor after it. -/
structure Match where
  start : Nat
  stop : Nat
  text : Text
  captures : Captures
  after : Cursor

namespace Match

/-- What a group matched last. -/
def group? (m : Match) (number : Nat) : Option Capture :=
  (m.captures.find? fun (n, _) => n == number).map (·.2)

/-- The text that a group matched; empty if it took no part. -/
def groupText (m : Match) (number : Nat) : Text :=
  ((m.group? number).map Capture.text).getD []

end Match

namespace Pattern

/-! ## Matching -/

/-- Rounds of a repetition, each of which has to move on. There are at most as many of them as there
are characters in the text that bounds them. -/
def runMany {α : Type} (round : Cursor → Captures → (Cursor → Captures → Option α) → Option α) :
    Text → Cursor → Captures → (Cursor → Captures → Option α) → Option α
  | [], c, caps, k => k c caps
  | _ :: bound, c, caps, k =>
    (round c caps fun c' caps' =>
      if c.offset < c'.offset then runMany round bound c' caps' k else none) <|> k c caps

/-- Goes through the ways in which a pattern matches at a cursor, in order of preference, and gives
the first answer of the continuation. -/
def run {α : Type} : Pattern → Cursor → Captures → (Cursor → Captures → Option α) → Option α
  | .empty, c, caps, k => k c caps
  | .char test, c, caps, k =>
    match c.next? with
    | some (x, c') => if test x then k c' caps else none
    | none => none
  | .seq a b, c, caps, k => a.run c caps fun c' caps' => b.run c' caps' k
  | .alt a b, c, caps, k => a.run c caps k <|> b.run c caps k
  | .many a, c, caps, k => runMany a.run c.rest c caps k
  | .group number a, c, caps, k =>
    a.run c caps fun c' caps' => k c' ((number, ⟨c.offset, c'.offset, c.textTo c'⟩) :: caps')
  | .boundary, c, caps, k => if c.atBoundary then k c caps else none
  | .first, c, caps, k => if c.before.isNone then k c caps else none
  | .last, c, caps, k => if c.rest.isEmpty then k c caps else none

/-- The preferred match at a cursor. -/
def matchAt? (p : Pattern) (c : Cursor) : Option Match :=
  p.run c [] fun c' caps => some ⟨c.offset, c'.offset, c.textTo c', caps, c'⟩

/-- The **leftmost** match at or after a place. -/
def searchFrom (p : Pattern) (before : Option Char) (offset : Nat) : Text → Option Match
  | [] => p.matchAt? ⟨before, offset, []⟩
  | x :: xs =>
    match p.matchAt? ⟨before, offset, x :: xs⟩ with
    | some m => some m
    | none => searchFrom p (some x) (offset + x.utf8Size) xs

/-- The leftmost match at or after a cursor. -/
def search? (p : Pattern) (c : Cursor) : Option Match :=
  p.searchFrom c.before c.offset c.rest

/-- The leftmost match in a text. -/
def find? (p : Pattern) (t : Text) : Option Match :=
  p.search? ⟨none, 0, t⟩

/-- At most `n` matches from a cursor on, one after the other without overlap. -/
def matchesFrom (p : Pattern) : Nat → Cursor → List Match
  | 0, _ => []
  | n + 1, c =>
    match p.search? c with
    | some m => m :: matchesFrom p n m.after
    | none => []

/-- All matches in a text that is the part of a larger one after byte `offset`. -/
def matchesIn (p : Pattern) (offset : Nat) (t : Text) : List Match :=
  p.matchesFrom t.length ⟨none, offset, t⟩

/-! ## Building patterns -/

/-- Some patterns, one after the other. -/
def all : List Pattern → Pattern
  | [] => .empty
  | [p] => p
  | p :: ps => .seq p (all ps)

/-- One of some patterns, the earlier ones preferred. -/
def oneOf : List Pattern → Pattern
  | [] => .char fun _ => false
  | [p] => p
  | p :: ps => .alt p (oneOf ps)

/-- A pattern or nothing, the pattern preferred. -/
def optional (p : Pattern) : Pattern :=
  .alt p .empty

/-- One or more rounds. -/
def atLeastOne (p : Pattern) : Pattern :=
  .seq p (.many p)

/-- Whether a character is a given small letter up to case. -/
def isLetter (letter c : Char) : Bool :=
  c.toLower == letter || (letter == 's' && c == 'ſ') || (letter == 'k' && c == 'K')

/-- A word given in small letters, matched in any case. -/
def word (w : String) : Pattern :=
  all (w.toList.map fun letter => .char (isLetter letter))

/-- One of some words given in small letters. -/
def words (ws : List String) : Pattern :=
  oneOf (ws.map word)

/-- One given character. -/
def sign (c : Char) : Pattern :=
  .char (· == c)

/-- Any number of blanks. -/
def blanks : Pattern :=
  .many (.char Text.isBlank)

/-- One blank or more. -/
def gap : Pattern :=
  atLeastOne (.char Text.isBlank)

/-- A letter with which a name can begin. -/
def nameStart : Pattern :=
  .char fun c => c.isAlpha || c == '_' || isLetter 's' c || isLetter 'k' c

/-- A name of word characters. -/
def name : Pattern :=
  .seq nameStart (.many (.char Text.isWordChar))

/-- A name of word characters and dots. -/
def dottedName : Pattern :=
  .seq nameStart (.many (.char fun c => Text.isWordChar c || c == '.'))

/-- Any number of any characters. -/
def anything : Pattern :=
  .many (.char fun _ => true)

end Pattern

end PascalAtlas
