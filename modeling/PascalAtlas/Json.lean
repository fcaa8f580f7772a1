/-!
# JSON values

Documents are written and read as JSON values. An object keeps its members **in order**, because the
order in which members are written is part of a document's text.

The second half holds what the readers of documents share. A record is read from an object by the
names of its members, whatever their order and whatever else is there, or from an array by their
places. A member that is missing is an error or takes a default, as the reader says; a member that
is there must have the right type.
-/

namespace PascalAtlas

/-- A JSON value. Of the numbers only the natural ones are told apart; no document has any other. -/
inductive Json where
  | null
  | bool (value : Bool)
  | nat (value : Nat)
  /-- A number that is not natural, as it was written. -/
  | number (literal : String)
  | str (value : String)
  | arr (items : List Json)
  | obj (members : List (String × Json))

namespace Json

/-! ## Writing -/

/-- The code of a control character as two digits to base sixteen. -/
def twoHexDigits (n : Nat) : String :=
  String.ofList [Nat.digitChar (n / 16), Nat.digitChar (n % 16)]

/-- One character as it stands in a JSON string. -/
def escapeChar (c : Char) : String :=
  if c = '"' then "\\\""
  else if c = '\\' then "\\\\"
  else if c = '\n' then "\\n"
  else if c = '\r' then "\\r"
  else if c = '\t' then "\\t"
  else if c = '\x08' then "\\b"
  else if c = '\x0c' then "\\f"
  else if c.toNat < 0x20 then "\\u00" ++ twoHexDigits c.toNat
  else c.toString

/-- A JSON string with its quotes. -/
def quote (s : String) : String :=
  "\"" ++ String.join (s.toList.map escapeChar) ++ "\""

/-- The beginning of a line at a depth of nesting. -/
def newline (depth : Nat) : String :=
  "\n" ++ String.ofList (List.replicate (2 * depth) ' ')

mutual

/-- A value as **indented text**, on a line at a depth of nesting. -/
def pretty (depth : Nat) : Json → String
  | .null => "null"
  | .bool true => "true"
  | .bool false => "false"
  | .nat n => toString n
  | .number literal => literal
  | .str s => quote s
  | .arr [] => "[]"
  | .arr (item :: items) =>
    "[" ++ newline (depth + 1) ++ pretty (depth + 1) item ++ prettyItems (depth + 1) items
      ++ newline depth ++ "]"
  | .obj [] => "\x7b\x7d"
  | .obj ((key, value) :: members) =>
    "\x7b" ++ newline (depth + 1) ++ quote key ++ ": " ++ pretty (depth + 1) value
      ++ prettyMembers (depth + 1) members ++ newline depth ++ "\x7d"

/-- The items of an array after the first. -/
def prettyItems (depth : Nat) : List Json → String
  | [] => ""
  | item :: items => "," ++ newline depth ++ pretty depth item ++ prettyItems depth items

/-- The members of an object after the first. -/
def prettyMembers (depth : Nat) : List (String × Json) → String
  | [] => ""
  | (key, value) :: members =>
    "," ++ newline depth ++ quote key ++ ": " ++ pretty depth value ++ prettyMembers depth members

end

/-- A value as indented text. -/
def toText (j : Json) : String :=
  pretty 0 j

/-! ## Reading -/

/-- The value of the first member with a key. -/
def lookup (key : String) : List (String × Json) → Option Json
  | [] => none
  | (k, v) :: members => if k = key then some v else lookup key members

/-- A value that can stand for a record of `n` members: an object, or an array
that is not longer. -/
def record? (n : Nat) : Json → Option Json
  | .obj members => some (.obj members)
  | .arr items => if items.length ≤ n then some (.arr items) else none
  | _ => none

/-- The member of a record that has a place and a key. -/
def member? (place : Nat) (key : String) : Json → Option Json
  | .obj members => lookup key members
  | .arr items => items[place]?
  | _ => none

/-- A member that must be there. -/
def required {α : Type} (j : Json) (place : Nat) (key : String) (read : Json → Option α) :
    Option α :=
  (j.member? place key).bind read

/-- A member that takes a default if it is missing. -/
def defaulted {α : Type} (j : Json) (place : Nat) (key : String) (default : α)
    (read : Json → Option α) : Option α :=
  match j.member? place key with
  | none => some default
  | some value => read value

/-- The text of a string. -/
def string? : Json → Option (List Char)
  | .str s => some s.toList
  | _ => none

/-- A truth value. -/
def bool? : Json → Option Bool
  | .bool b => some b
  | _ => none

/-- A natural number of 32 bits. -/
def word? : Json → Option UInt32
  | .nat n => if n < UInt32.size then some (UInt32.ofNat n) else none
  | _ => none

/-- A list whose items are all read the same way. -/
def list? {α : Type} (read : Json → Option α) : Json → Option (List α)
  | .arr items => items.mapM read
  | _ => none

/-- A value that may be `null`. -/
def nullable? {α : Type} (read : Json → Option α) : Json → Option (Option α)
  | .null => some none
  | j => (read j).map some

/-- A text as a JSON string. -/
def text (t : List Char) : Json :=
  .str (String.ofList t)

/-- A list as a JSON array. -/
def ofList {α : Type} (write : α → Json) (items : List α) : Json :=
  .arr (items.map write)

/-- A member that is left out if there is no value for it. -/
def optionalMember {α : Type} (key : String) (write : α → Json) : Option α → List (String × Json)
  | none => []
  | some a => [(key, write a)]

/-- A member that is left out if the list for it is empty. -/
def nonemptyMember {α : Type} (key : String) (write : α → Json) : List α → List (String × Json)
  | [] => []
  | items => [(key, ofList write items)]

end Json

end PascalAtlas
