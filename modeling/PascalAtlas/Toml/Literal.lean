import PascalAtlas.Toml

/-!
# Strings, numbers and dates in TOML

The values that have no parts. A reader takes what it understands from the beginning of a text and
gives back the rest; it does not look at what follows, because nothing that may follow a value
could also continue it.
-/

namespace PascalAtlas.Toml

/-! ## Characters and line ends -/

/-- Blanks within a line. -/
def isBlank (c : Char) : Bool :=
  c == ' ' || c == '\t'

/-- The characters that may stand in a comment or in a string on one line. -/
def isPlain (c : Char) : Bool :=
  c == '\t' || (' ' ≤ c && c != '\x7f')

/-- What follows the end of a line. -/
def newline? : Text → Option Text
  | '\n' :: rest => some rest
  | '\r' :: '\n' :: rest => some rest
  | _ => none

/-! ## Strings -/

/-- The number that some digits to base sixteen give. -/
def hexNumber? (digits : Text) : Option Nat :=
  digits.foldlM (fun n c =>
    let c := c.toLower
    if c.isDigit then some (16 * n + (c.toNat - '0'.toNat))
    else if 'a' ≤ c && c ≤ 'f' then some (16 * n + (c.toNat - 'a'.toNat + 10))
    else none) 0

/-- The character with a code of a given number of digits. -/
def codePoint? (count : Nat) (t : Text) : Option (Char × Text) := do
  let digits := t.take count
  let n ← if digits.length = count then hexNumber? digits else none
  if h : n.isValidChar then some (Char.ofNatAux n h, t.drop count) else none

/-- The character for what follows a backslash. -/
def escape? : Text → Option (Char × Text)
  | 'b' :: rest => some ('\x08', rest)
  | 't' :: rest => some ('\t', rest)
  | 'n' :: rest => some ('\n', rest)
  | 'f' :: rest => some ('\x0c', rest)
  | 'r' :: rest => some ('\r', rest)
  | '"' :: rest => some ('"', rest)
  | '\\' :: rest => some ('\\', rest)
  | 'u' :: rest => codePoint? 4 rest
  | 'U' :: rest => codePoint? 8 rest
  | _ => none

/-- Puts a character in front of a string that was read. -/
def consRead (c : Char) (r : Text × Text) : Text × Text :=
  (c :: r.1, r.2)

/-- A string in double quotes after the first of them; `fuel` bounds the characters. -/
def basicRest : Nat → Text → Option (Text × Text)
  | 0, _ => none
  | _ + 1, [] => none
  | fuel + 1, c :: rest =>
    if c = '"' then some ([], rest)
    else if c = '\\' then do
      let (c, rest) ← escape? rest
      (basicRest fuel rest).map (consRead c)
    else if isPlain c then (basicRest fuel rest).map (consRead c)
    else none

/-- A string in single quotes after the first of them. -/
def literalRest (t : Text) : Option (Text × Text) :=
  match t.dropWhile fun c => isPlain c && c != '\'' with
  | '\'' :: rest => some (t.takeWhile fun c => isPlain c && c != '\'', rest)
  | _ => none

/-- Skips blanks and line ends. -/
def skipSpace : Text → Text
  | '\r' :: '\n' :: rest => skipSpace rest
  | c :: rest => if isBlank c || c == '\n' then skipSpace rest else c :: rest
  | [] => []

/-- What follows a backslash at the end of a line: all line ends and blanks up to the next text. -/
def skipBreak? (t : Text) : Option Text :=
  (newline? (t.dropWhile isBlank)).map skipSpace

/-- The end of a string of several lines, at a run of its quotes. Up to two quotes before the last
three belong to the string. -/
def closing? (quote : Char) (t : Text) : Option (Text × Text) :=
  let run := (t.takeWhile (· == quote)).length
  if 3 ≤ run then some (List.replicate (min (run - 3) 2) quote, t.drop (min run 5)) else none

/-- A string of several lines after its first three quotes; `fuel` bounds the characters. Only
within double quotes does a backslash mean anything. -/
def multilineRest (quote : Char) : Nat → Text → Option (Text × Text)
  | 0, _ => none
  | _ + 1, [] => none
  | fuel + 1, c :: rest =>
    if c = quote then
      match closing? quote (c :: rest) with
      | some r => some r
      | none => (multilineRest quote fuel rest).map (consRead c)
    else if c = '\\' && quote == '"' then
      match skipBreak? rest with
      | some rest => multilineRest quote fuel rest
      | none => do
        let (c, rest) ← escape? rest
        (multilineRest quote fuel rest).map (consRead c)
    else
      match newline? (c :: rest) with
      | some rest => (multilineRest quote fuel rest).map (consRead '\n')
      | none => if isPlain c then (multilineRest quote fuel rest).map (consRead c) else none

/-- A string of several lines after its first three quotes. A line end right after them does not
count. -/
def multiline? (quote : Char) (t : Text) : Option (Text × Text) :=
  let body := (newline? t).getD t
  multilineRest quote (body.length + 1) body

/-- A string of either kind on one line. -/
def lineString? : Text → Option (Text × Text)
  | '"' :: rest => basicRest (rest.length + 1) rest
  | '\'' :: rest => literalRest rest
  | _ => none

/-- A **string**. -/
def string? : Text → Option (Text × Text)
  | '"' :: '"' :: '"' :: rest => multiline? '"' rest
  | '\'' :: '\'' :: '\'' :: rest => multiline? '\'' rest
  | t => lineString? t

/-! ## Numbers -/

/-- Whether no underscore stands at an end or beside another. -/
def groupsWell (run : Text) : Bool :=
  (Text.splitBy (· == '_') run).all fun group => !group.isEmpty

/-- A run of digits, with single underscores between them. The digits are
given back without them. -/
def digits? (isDigit : Char → Bool) (t : Text) : Option (Text × Text) :=
  let run := t.takeWhile fun c => isDigit c || c == '_'
  if groupsWell run then some (run.filter (· != '_'), t.drop run.length) else none

/-- The digits before the point: no zero in front. -/
def wholeDigits? (t : Text) : Option (Text × Text) := do
  let (digits, rest) ← digits? Char.isDigit t
  if digits.head? = some '0' && digits.length ≠ 1 then none else some (digits, rest)

/-- The value of some digits to base ten. -/
def decimal (digits : Text) : Nat :=
  digits.foldl (fun n c => 10 * n + (c.toNat - '0'.toNat)) 0

/-- A number that fits into 64 bits with a sign. -/
def int? (n : Int) : Option Toml :=
  if -0x8000000000000000 ≤ n && n < 0x8000000000000000 then some (.int n) else none

/-- The digits after the point, if there is a point. -/
def fraction? : Text → Option (Option Text × Text)
  | '.' :: rest => (digits? Char.isDigit rest).map fun (digits, rest) => (some digits, rest)
  | t => some (none, t)

/-- The sign and what follows it. -/
def sign : Text → Bool × Text
  | '+' :: rest => (false, rest)
  | '-' :: rest => (true, rest)
  | t => (false, t)

/-- The exponent, if there is one. -/
def exponent? (t : Text) : Option (Option Int × Text) :=
  match t with
  | 'e' :: rest | 'E' :: rest =>
    let (negative, rest) := sign rest
    (digits? Char.isDigit rest).map fun (digits, rest) =>
      (some (if negative then -(decimal digits : Int) else decimal digits), rest)
  | _ => some (none, t)

/-- A number to base ten after its sign. One that is too large for a number with a fraction is
refused if it is positive. -/
def decimalNumber? (negative : Bool) (t : Text) : Option (Toml × Text) := do
  let (whole, rest) ← wholeDigits? t
  let (fraction, rest) ← fraction? rest
  let (exponent, rest) ← exponent? rest
  if fraction.isNone && exponent.isNone then
    let n : Int := decimal whole
    (int? (if negative then -n else n)).map (·, rest)
  else
    let places := fraction.getD []
    let value := Binary64.ofDecimal negative (decimal (whole ++ places))
      (exponent.getD 0 - places.length)
    if value = .infinity false then none else some (.float value, rest)

/-- A number to another base after the two characters that say which. -/
def basedNumber? (base : Nat) (isDigit : Char → Bool) (t : Text) : Option (Toml × Text) := do
  let (digits, rest) ← digits? isDigit t
  let value (c : Char) : Nat := (hexNumber? [c]).getD 0
  (int? (digits.foldl (fun n c => n * base + value c) 0 : Nat)).map (·, rest)

/-- A **number**. -/
def number? (t : Text) : Option (Toml × Text) :=
  match t with
  | '0' :: 'x' :: rest => basedNumber? 16 (fun c => (hexNumber? [c]).isSome) rest
  | '0' :: 'o' :: rest => basedNumber? 8 (fun c => '0' ≤ c && c ≤ '7') rest
  | '0' :: 'b' :: rest => basedNumber? 2 (fun c => c == '0' || c == '1') rest
  | _ =>
    match sign t with
    | (negative, 'i' :: 'n' :: 'f' :: rest) => some (.float (.infinity negative), rest)
    | (_, 'n' :: 'a' :: 'n' :: rest) => some (.float .nan, rest)
    | (negative, rest) => decimalNumber? negative rest

/-! ## Dates and times -/

/-- A number of exactly so many digits between two bounds. -/
def ranged? (count low high : Nat) (t : Text) : Option (Nat × Text) :=
  let digits := t.take count
  if digits.length = count && digits.all Char.isDigit && low ≤ decimal digits
      && decimal digits ≤ high then
    some (decimal digits, t.drop count)
  else
    none

/-- A character that must come next. -/
def skip? (c : Char) : Text → Option Text
  | d :: rest => if d = c then some rest else none
  | [] => none

/-- The number of days in a month. -/
def daysIn (year month : Nat) : Nat :=
  if month = 2 then
    if year % 4 = 0 && (year % 100 ≠ 0 || year % 400 = 0) then 29 else 28
  else if month ∈ [4, 6, 9, 11] then 30
  else 31

/-- A day: its form is the only one. -/
def day? (t : Text) : Option (Text × Text) := do
  let (year, rest) ← ranged? 4 0 9999 t
  let rest ← skip? '-' rest
  let (month, rest) ← ranged? 2 1 12 rest
  let rest ← skip? '-' rest
  let (_, rest) ← ranged? 2 1 (daysIn year month) rest
  return (t.take 10, rest)

/-- The fraction of a second: nine digits count, and zeros at the end do not. -/
def secondFraction (t : Text) : Text × Text :=
  match t with
  | '.' :: rest =>
    let digits := rest.takeWhile Char.isDigit
    let kept := ((digits.take 9).reverse.dropWhile (· == '0')).reverse
    if digits.isEmpty then ([], t)
    else (if kept.isEmpty then [] else '.' :: kept, rest.drop digits.length)
  | _ => ([], t)

/-- A time of day. -/
def time? (t : Text) : Option (Text × Text) := do
  let (_, rest) ← ranged? 2 0 23 t
  let rest ← skip? ':' rest
  let (_, rest) ← ranged? 2 0 59 rest
  let rest ← skip? ':' rest
  let (_, rest) ← ranged? 2 0 60 rest
  let (fraction, rest) := secondFraction rest
  return (t.take 8 ++ fraction, rest)

/-- The difference from universal time, if it is given. None at all is written with a plus. -/
def offset (t : Text) : Text × Text :=
  match t with
  | 'Z' :: rest | 'z' :: rest => (['Z'], rest)
  | c :: rest =>
    let hours? := do
      let (hours, rest) ← ranged? 2 0 23 rest
      let rest ← skip? ':' rest
      let (minutes, rest) ← ranged? 2 0 59 rest
      return (hours + minutes, rest)
    match hours? with
    | some (total, after) =>
      if c = '+' || c = '-' then ((if total = 0 then '+' else c) :: rest.take 5, after) else ([], t)
    | none => ([], t)
  | [] => ([], t)

/-- The time of a day after the letter or the space between them, if there is one. -/
def timeOfDay (t : Text) : Text × Text :=
  match t with
  | c :: rest =>
    match time? rest with
    | some (time, rest) =>
      if c = 'T' || c = 't' || c = ' ' then
        let (difference, rest) := offset rest
        ('T' :: time ++ difference, rest)
      else
        ([], t)
    | none => ([], t)
  | [] => ([], t)

/-- A **date**: a day, a day with a time, or a time. -/
def date? (t : Text) : Option (Toml × Text) :=
  match day? t with
  | some (day, rest) =>
    let (time, rest) := timeOfDay rest
    some (.date (day ++ time), rest)
  | none => (time? t).map fun (time, rest) => (.date time, rest)

/-! ## All of them -/

/-- A value without parts. -/
def scalar? (t : Text) : Option (Toml × Text) :=
  match t with
  | 't' :: 'r' :: 'u' :: 'e' :: rest => some (.bool true, rest)
  | 'f' :: 'a' :: 'l' :: 's' :: 'e' :: rest => some (.bool false, rest)
  | '"' :: _ | '\'' :: _ => (string? t).map fun (s, rest) => (.str s, rest)
  | _ =>
    match date? t with
    | some r => some r
    | none => number? t

end PascalAtlas.Toml
