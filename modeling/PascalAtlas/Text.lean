/-!
# Text

Everything the library reads is a **text**: a list of characters. Recursion on that list is how
every reader here works, so the list itself is the type, and a `String` appears only where a
message or a document is written out.

Positions are **byte offsets** into the UTF-8 form of a text, because that is how tokens,
nodes and errors are reported. `Text.size` is the length in bytes, `Text.drop?` and
`Text.take?` cut at an offset and refuse one that falls inside a character, and `Text.slice?`
takes what lies between two offsets.
-/

namespace PascalAtlas

/-- A text is the list of its characters. -/
abbrev Text := List Char

namespace Text

/-- Whether all characters of a text have a property is decided by **going through the text**, and
not through all characters there are. -/
instance (t : Text) (p : Char → Prop) [DecidablePred p] : Decidable (∀ c ∈ t, p c) :=
  List.decidableBAll p t

/-! ## Bytes and slices -/

/-- The number of bytes of the UTF-8 form. -/
def size : Text → Nat
  | [] => 0
  | c :: cs => c.utf8Size + size cs

/-- What follows the first `n` bytes, if the cut falls between two characters. -/
def drop? : Nat → Text → Option Text
  | 0, cs => some cs
  | _ + 1, [] => none
  | n + 1, c :: cs => if c.utf8Size ≤ n + 1 then drop? (n + 1 - c.utf8Size) cs else none

/-- The first `n` bytes, if the cut falls between two characters. -/
def take? : Nat → Text → Option Text
  | 0, _ => some []
  | _ + 1, [] => none
  | n + 1, c :: cs =>
    if c.utf8Size ≤ n + 1 then (take? (n + 1 - c.utf8Size) cs).map (c :: ·) else none

/-- The part of a text **between two offsets**, if they are in order and both fall between
characters. -/
def slice? (t : Text) (start stop : Nat) : Option Text :=
  if start ≤ stop then (drop? start t).bind (take? (stop - start)) else none

/-! ## Letters

The language of the sources ignores the case of the ASCII letters and of no others, so the case
maps below change the ASCII letters and nothing else. -/

/-- The text with its ASCII capitals made small. -/
def lower (t : Text) : Text :=
  t.map Char.toLower

/-- Equality that ignores ASCII case. -/
def eqIgnoreCase (a b : Text) : Bool :=
  lower a == lower b

/-- Whether some entry of a list of small-letter words is the text, ignoring ASCII case. -/
def isOneOf (t : Text) (words : List Text) : Bool :=
  words.any (eqIgnoreCase t)

/-- The characters of an ASCII identifier: letters, digits and the underscore. -/
def isIdentChar (c : Char) : Bool :=
  c.isAlphanum || c == '_'

/-! ## Searching and cutting -/

/-- The rest of a text after a given beginning, if it has that beginning. -/
def dropPrefix? : Text → Text → Option Text
  | [], t => some t
  | _ :: _, [] => none
  | p :: ps, c :: cs => if p = c then dropPrefix? ps cs else none

/-- Whether a text begins with another. -/
def startsWith (t front : Text) : Bool :=
  (dropPrefix? front t).isSome

/-- The rest of a text before a given ending, if it has that ending. -/
def dropSuffix? (suffix t : Text) : Option Text :=
  (dropPrefix? suffix.reverse t.reverse).map List.reverse

/-- Whether a text ends with another. -/
def endsWith (t back : Text) : Bool :=
  (dropSuffix? back t).isSome

/-- Cuts a text around the **first occurrence** of another: what precedes it and what follows it. -/
def cut? (needle : Text) : Text → Option (Text × Text)
  | [] => if needle.isEmpty then some ([], []) else none
  | c :: cs =>
    match dropPrefix? needle (c :: cs) with
    | some rest => some ([], rest)
    | none => (cut? needle cs).map fun (front, back) => (c :: front, back)

/-- Whether a text occurs inside another. -/
def contains (t needle : Text) : Bool :=
  (cut? needle t).isSome

/-- Cuts a text around the first character that satisfies a test; that character is dropped. -/
def cutAt? (p : Char → Bool) : Text → Option (Text × Text)
  | [] => none
  | c :: cs =>
    if p c then some ([], cs) else (cutAt? p cs).map fun (front, back) => (c :: front, back)

/-- Cuts a text around the last character that satisfies a test; that character is dropped. -/
def cutAtLast? (p : Char → Bool) (t : Text) : Option (Text × Text) :=
  (cutAt? p t.reverse).map fun (back, front) => (front.reverse, back.reverse)

/-- The pieces between the items that satisfy a test. There is always at least one piece. -/
def splitBy {α : Type} (p : α → Bool) : List α → List (List α)
  | [] => [[]]
  | c :: cs =>
    if p c then
      [] :: splitBy p cs
    else
      match splitBy p cs with
      | [] => [[c]]
      | piece :: pieces => (c :: piece) :: pieces

/-- The texts one after the other with a separator between them. -/
def join (sep : Text) : List Text → Text
  | [] => []
  | [t] => t
  | t :: ts => t ++ sep ++ join sep ts

/-- Every occurrence of one character replaced by a text. -/
def replaceChar (old : Char) (new : Text) (t : Text) : Text :=
  t.flatMap fun c => if c = old then new else [c]

end Text

end PascalAtlas
