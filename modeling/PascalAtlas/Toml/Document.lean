import PascalAtlas.Toml.Draft
import PascalAtlas.Toml.Literal

/-!
# TOML documents

A document is read in two steps. The first reads its **lines**: a section header or a key with its
value, which may go over several lines. The second builds the tables, section by section. A text
that fails in either step is no TOML document.
-/

namespace PascalAtlas.Toml

/-! ## Between the values -/

/-- Skips blanks within a line. -/
def skipBlanks (t : Text) : Text :=
  t.dropWhile isBlank

/-- Skips a comment up to the end of its line. -/
def skipComment : Text → Text
  | '#' :: rest => rest.dropWhile isPlain
  | t => t

/-- What follows the end of a line, after blanks and a comment. The end of the
text ends a line, too. -/
def lineEnd? (t : Text) : Option Text :=
  match skipComment (skipBlanks t) with
  | [] => some []
  | rest => newline? rest

/-- Skips blanks, line ends and comments between the items of an array; `fuel` bounds the lines. -/
def skipLines : Nat → Text → Text
  | 0, t => t
  | fuel + 1, t =>
    match newline? (skipComment (skipBlanks t)) with
    | some rest => skipLines fuel rest
    | none => skipBlanks t

/-! ## Keys -/

/-- The deepest nesting of values, and the greatest number of parts of a key. -/
def depthLimit : Nat :=
  79

/-- The characters of a key without quotes. -/
def isKeyChar (c : Char) : Bool :=
  c.isAlphanum || c == '_' || c == '-'

/-- One part of a key. -/
def keyPart? (t : Text) : Option (Text × Text) :=
  match t with
  | '"' :: _ | '\'' :: _ => lineString? t
  | _ =>
    let bare := t.takeWhile isKeyChar
    if bare.isEmpty then none else some (bare, t.drop bare.length)

/-- The parts of a key with dots between them. -/
def keyParts? : Nat → Text → Option (List Text × Text)
  | 0, _ => none
  | fuel + 1, t => do
    let (part, rest) ← keyPart? (skipBlanks t)
    match skipBlanks rest with
    | '.' :: rest =>
      let (parts, rest) ← keyParts? fuel rest
      return (part :: parts, rest)
    | rest => return ([part], rest)

/-- A **key**: the tables on the way and the name in the last of them. -/
structure Key where
  path : List Text
  name : Text

/-- Reads a key. -/
def key? (t : Text) : Option (Key × Text) := do
  let (parts, rest) ← keyParts? depthLimit t
  let name ← parts.getLast?
  return (⟨parts.dropLast, name⟩, rest)

/-! ## Values -/

/-- A way of reading a value. -/
abbrev Reader := Text → Option (Toml × Text)

/-- A key and its value. -/
def entry? (value : Reader) (t : Text) : Option ((Key × Toml) × Text) := do
  let (key, rest) ← key? t
  let rest ← skip? '=' rest
  let (v, rest) ← value (skipBlanks rest)
  return ((key, v), rest)

/-- The items of an array after a bracket or a comma; `fuel` bounds their number. -/
def items? (value : Reader) : Nat → Text → Option (List Toml × Text)
  | 0, _ => none
  | fuel + 1, t =>
    match skipLines t.length t with
    | ']' :: rest => some ([], rest)
    | t => do
      let (item, rest) ← value t
      match skipLines rest.length rest with
      | ',' :: rest =>
        let (items, rest) ← items? value fuel rest
        return (item :: items, rest)
      | ']' :: rest => return ([item], rest)
      | _ => none

/-- The entries of a table on one line after a brace or a comma; `fuel` bounds their number. -/
def inlineEntries? (value : Reader) : Nat → Draft.Entries → Text → Option (Draft.Entries × Text)
  | 0, _, _ => none
  | fuel + 1, entries, t => do
    let ((key, v), rest) ← entry? value t
    let entries ← Draft.assign key.path key.name v entries
    match skipBlanks rest with
    | ',' :: rest => inlineEntries? value fuel entries rest
    | '}' :: rest => return (entries, rest)
    | _ => none

/-- A **value**, in which arrays and tables are nested to at most a given depth. -/
def value? : Nat → Reader
  | 0, t => scalar? t
  | depth + 1, t =>
    match t with
    | '[' :: rest =>
      (items? (value? depth) (rest.length + 1) rest).map fun (items, rest) => (.arr items, rest)
    | '{' :: rest =>
      match skipBlanks rest with
      | '}' :: rest => some (.table [], rest)
      | rest =>
        (inlineEntries? (value? depth) (rest.length + 1) [] rest).map fun (entries, rest) =>
          (.table (Draft.finishEntries entries), rest)
    | _ => scalar? t

/-! ## Lines -/

/-- A line of a document that says something. -/
inductive Line where
  /-- The header of a section. -/
  | table (key : Key)
  /-- The header of a section that adds a table to an array. -/
  | item (key : Key)
  | entry (key : Key) (value : Toml)

/-- Reads one line that says something. -/
def line? : Text → Option (Line × Text)
  | '[' :: '[' :: t => do
    let (key, rest) ← key? t
    return (.item key, ← skip? ']' (← skip? ']' rest))
  | '[' :: t => do
    let (key, rest) ← key? t
    return (.table key, ← skip? ']' rest)
  | t => do
    let ((key, v), rest) ← entry? (value? depthLimit) t
    return (.entry key v, rest)

/-- The **lines** of a text; `fuel` bounds their number. -/
def lines? : Nat → Text → Option (List Line)
  | 0, _ => none
  | fuel + 1, t =>
    let t := skipBlanks t
    if t.isEmpty then
      some []
    else
      match lineEnd? t with
      | some rest => lines? fuel rest
      | none => do
        let (line, rest) ← line? t
        return line :: (← lines? fuel (← lineEnd? rest))

/-! ## The document -/

/-- Where the entries of a section go. -/
inductive Place where
  | top
  | table (key : Key)
  | item (key : Key)

/-- A document under construction: what is finished, and the section that is
open with its entries. -/
structure Progress where
  root : Draft.Entries := []
  place : Place := .top
  body : Draft.Entries := []

namespace Progress

/-- The document with its open section put in its place. -/
def close (p : Progress) : Option Draft.Entries :=
  match p.place with
  | .top => some p.body
  | .table key => Draft.closeSection key.path key.name p.body p.root
  | .item key => Draft.closeItem key.path key.name p.body p.root

/-- The document after one more line. -/
def step (p : Progress) : Line → Option Progress
  | .entry key v => do
    return { p with body := ← Draft.assign key.path key.name v p.body }
  | .table key => do
    let (root, body) ← Draft.openSection key.path key.name (← p.close)
    return { root, place := .table key, body }
  | .item key => do
    return { root := ← Draft.openItem key.path key.name (← p.close), place := .item key }

end Progress

/-- The entries of a document with given lines. -/
def ofLines? (lines : List Line) : Option (List (Text × Toml)) := do
  let p ← lines.foldlM Progress.step {}
  return Draft.finishEntries (← p.close)

/-- **Reads** a document. A mark of the byte order may stand in front. -/
def ofText? (t : Text) : Option (List (Text × Toml)) := do
  let t := if t.head? = some '\ufeff' then t.drop 1 else t
  ofLines? (← lines? (t.length + 1) t)

end PascalAtlas.Toml
