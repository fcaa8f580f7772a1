import PascalAtlas.Token

/-!
# Reading tokens

`Token.read` looks at the front of a text and says what stands there: something that is skipped, a
token, or a fault. Whatever it answers, it cuts the text in two: what it `taken` and the `rest`
after it (`Reading.whole_read`), and it takes at least one character. `Token.lex` repeats it to the
end of the text and keeps count of the bytes, so the tokens, the skipped stretches and the text have
one and the same order.

Of all the ways to read on, the **longest** wins: the symbol `:=` before `:`, a comment before the
sign that opens it, all the letters of a word. A string ends at the first quote that is not doubled,
and never goes past the end of its line.
-/

namespace PascalAtlas

/-! ## Faults -/

/-- Why no token can be read. -/
inductive LexFault where
  | unterminatedString
  | unterminatedComment
  | unexpected (c : Char)
  deriving DecidableEq

/-- A place at which no token can be read. -/
structure LexError where
  fault : LexFault
  start : Nat
  stop : Nat
  deriving DecidableEq

/-- What is said about a fault. -/
def LexFault.message : LexFault → String
  | .unterminatedString => "unterminated string literal"
  | .unterminatedComment => "unterminated comment"
  | .unexpected c => "unexpected character " ++ Text.quoted [c]

/-- What is said about an error. -/
def LexError.message (e : LexError) : String :=
  e.fault.message

namespace Token

/-! ## One step -/

/-- What stands at the front of a text. -/
inductive Lexeme where
  | skip
  | token (kind : TokenKind)
  | fault (cause : LexFault)
  deriving DecidableEq

/-- A lexeme together with the text it takes up and the text that follows. -/
structure Reading where
  lexeme : Lexeme
  taken : Text
  rest : Text
  deriving DecidableEq

/-- The characters skipped between tokens. -/
def isSpace (c : Char) : Bool :=
  c == ' ' || c == '\t' || c == '\r' || c == '\n' || c == '\x0c'

/-- The digits of a number to base sixteen. -/
def isHexDigit (c : Char) : Bool :=
  c.isDigit || ('a' ≤ c && c ≤ 'f') || ('A' ≤ c && c ≤ 'F')

/-- The characters with which a name can begin. -/
def isIdentStart (c : Char) : Bool :=
  c.isAlpha || c == '_'

/-- The contents of a string literal after its opening quote: the text it **denotes**, the text it
takes up and the rest, if it is closed before the end of its line. -/
def stringBody? : Text → Option (Text × Text × Text)
  | [] => none
  | '\'' :: '\'' :: cs =>
    (stringBody? cs).map fun (value, taken, rest) => ('\'' :: value, '\'' :: '\'' :: taken, rest)
  | c :: cs =>
    if c = '\'' then
      some ([], ['\''], cs)
    else if c = '\n' then
      none
    else
      (stringBody? cs).map fun (value, taken, rest) => (c :: value, c :: taken, rest)

/-- Reads the longest run of characters that satisfy a test, after a given beginning. -/
def readRun (p : Char → Bool) (kind : Text → TokenKind) (front cs : Text) : Reading :=
  ⟨.token (kind (front ++ cs.takeWhile p)), front ++ cs.takeWhile p, cs.dropWhile p⟩

/-- The kind of a word: a reserved word or a name. -/
def wordKind (word : Text) : TokenKind :=
  match Keyword.ofWord? word with
  | some k => .keyword k
  | none => .ident word

/-- Reads a string literal from its opening quote. -/
def readString (cs : Text) : Reading :=
  match stringBody? cs with
  | some (value, taken, rest) => ⟨.token (.str value), '\'' :: taken, rest⟩
  | none =>
    ⟨.fault .unterminatedString, '\'' :: cs.takeWhile (· != '\n'), cs.dropWhile (· != '\n')⟩

/-- Reads a comment from its opening sign to the first closing one. -/
def readComment (opening closing cs : Text) : Reading :=
  match Text.cut? closing cs with
  | some (inside, rest) => ⟨.skip, opening ++ inside ++ closing, rest⟩
  | none => ⟨.fault .unterminatedComment, opening ++ cs, []⟩

/-- The first symbol with which a text begins, and the rest of the text. -/
def symbol? (t : Text) : Option (Symbol × Text) :=
  Symbol.all.findSome? fun s => (Text.dropPrefix? s.spelling.toList t).map fun rest => (s, rest)

/-- Reads a symbol; a character that begins none is a fault of its own. -/
def readSymbol (c : Char) (cs : Text) : Reading :=
  match symbol? (c :: cs) with
  | some (s, rest) => ⟨.token (.symbol s), s.spelling.toList, rest⟩
  | none => ⟨.fault (.unexpected c), [c], cs⟩

/-- Whether a text begins with a character that satisfies a test. -/
def headIs (p : Char → Bool) : Text → Bool
  | [] => false
  | c :: _ => p c

/-- Reads a character code after its `#`. -/
def readCharCode (cs : Text) : Reading :=
  if headIs Char.isDigit cs then
    readRun Char.isDigit .charCode ['#'] cs
  else
    match cs with
    | '$' :: ds =>
      if headIs isHexDigit ds then
        readRun isHexDigit .charCode ['#', '$'] ds
      else
        ⟨.fault (.unexpected '#'), ['#'], cs⟩
    | _ => ⟨.fault (.unexpected '#'), ['#'], cs⟩

/-- Reads a name after the `&` that keeps it from being a reserved word. -/
def readEscaped (cs : Text) : Reading :=
  if headIs isIdentStart cs then
    ⟨.token (.ident (cs.takeWhile Text.isIdentChar)), '&' :: cs.takeWhile Text.isIdentChar,
      cs.dropWhile Text.isIdentChar⟩
  else
    ⟨.fault (.unexpected '&'), ['&'], cs⟩

/-- Says what stands at the front of a text that begins with `c`. -/
def read (c : Char) (cs : Text) : Reading :=
  if isSpace c then
    ⟨.skip, c :: cs.takeWhile isSpace, cs.dropWhile isSpace⟩
  else if isIdentStart c then
    readRun Text.isIdentChar wordKind [c] cs
  else if c.isDigit then
    readRun Char.isDigit .number [c] cs
  else if c = '\'' then
    readString cs
  else if c = '{' then
    readComment ['{'] ['}'] cs
  else if c = '#' then
    readCharCode cs
  else if c = '&' then
    readEscaped cs
  else if c = '$' && headIs isHexDigit cs then
    readRun isHexDigit .number ['$'] cs
  else
    match c, cs with
    | '(', '*' :: ds => readComment ['(', '*'] ['*', ')'] ds
    | '/', '/' :: ds =>
      ⟨.skip, '/' :: '/' :: ds.takeWhile (· != '\n'), ds.dropWhile (· != '\n')⟩
    | _, _ => readSymbol c cs

/-! ## A reading cuts the text in two -/

/-- The text that a reading looked at. -/
def Reading.whole (r : Reading) : Text :=
  r.taken ++ r.rest

@[simp] theorem Reading.whole_mk (lexeme : Lexeme) (taken rest : Text) :
    (Reading.mk lexeme taken rest).whole = taken ++ rest := rfl

theorem dropPrefix?_eq_some {front t rest : Text} (h : Text.dropPrefix? front t = some rest) :
    front ++ rest = t := by
  fun_induction Text.dropPrefix? front t with
  | case1 t => simpa using h.symm
  | case2 => simp at h
  | case3 ps c cs ih => simpa using ih h
  | case4 => simp at h

theorem cut?_eq_some {needle t front back : Text} (h : Text.cut? needle t = some (front, back)) :
    front ++ needle ++ back = t := by
  induction t generalizing front with
  | nil =>
    simp only [Text.cut?] at h
    split at h <;> simp_all
  | cons c cs ih =>
    simp only [Text.cut?] at h
    split at h
    next rest hrest =>
      obtain ⟨rfl, rfl⟩ : [] = front ∧ rest = back := by simpa using h
      simpa using dropPrefix?_eq_some hrest
    next =>
      obtain ⟨⟨front', back'⟩, hcut, heq⟩ := Option.map_eq_some_iff.1 h
      obtain ⟨rfl, rfl⟩ : c :: front' = front ∧ back' = back := by simpa using heq
      simpa using ih hcut

theorem stringBody?_eq_some {cs value taken rest : Text}
    (h : stringBody? cs = some (value, taken, rest)) : taken ++ rest = cs := by
  fun_induction stringBody? cs generalizing value taken rest with
  | case1 => simp at h
  | case2 cs ih =>
    obtain ⟨⟨v, t, r⟩, hb, heq⟩ := Option.map_eq_some_iff.1 h
    obtain ⟨rfl, rfl, rfl⟩ : '\'' :: v = value ∧ '\'' :: '\'' :: t = taken ∧ r = rest := by
      simpa using heq
    simpa using ih hb
  | case3 cs _ =>
    obtain ⟨rfl, rfl, rfl⟩ : [] = value ∧ ['\''] = taken ∧ cs = rest := by simpa using h
    rfl
  | case4 => simp at h
  | case5 c cs _ _ _ ih =>
    obtain ⟨⟨v, t, r⟩, hb, heq⟩ := Option.map_eq_some_iff.1 h
    obtain ⟨rfl, rfl, rfl⟩ : c :: v = value ∧ c :: t = taken ∧ r = rest := by simpa using heq
    simpa using ih hb

theorem symbol?_eq_some {t rest : Text} {s : Symbol} (h : symbol? t = some (s, rest)) :
    s.spelling.toList ++ rest = t := by
  obtain ⟨s', _, hs⟩ := List.exists_of_findSome?_eq_some h
  obtain ⟨rest', hdrop, heq⟩ := Option.map_eq_some_iff.1 hs
  obtain ⟨rfl, rfl⟩ : s' = s ∧ rest' = rest := by simpa using heq
  exact dropPrefix?_eq_some hdrop

@[simp] theorem whole_readRun (p : Char → Bool) (kind : Text → TokenKind) (front cs : Text) :
    (readRun p kind front cs).whole = front ++ cs := by
  simp [readRun]

@[simp] theorem whole_readString (cs : Text) : (readString cs).whole = '\'' :: cs := by
  unfold readString
  split
  next value taken rest h => simpa using stringBody?_eq_some h
  next => simp

@[simp] theorem whole_readComment (opening closing cs : Text) :
    (readComment opening closing cs).whole = opening ++ cs := by
  unfold readComment
  split
  next inside rest h => simpa using cut?_eq_some h
  next => simp

@[simp] theorem whole_readSymbol (c : Char) (cs : Text) : (readSymbol c cs).whole = c :: cs := by
  unfold readSymbol
  split
  next s rest h => simpa using symbol?_eq_some h
  next => simp

@[simp] theorem whole_readCharCode (cs : Text) : (readCharCode cs).whole = '#' :: cs := by
  unfold readCharCode
  split
  · simp
  · split
    · split <;> simp
    · simp

@[simp] theorem whole_readEscaped (cs : Text) : (readEscaped cs).whole = '&' :: cs := by
  unfold readEscaped
  split <;> simp

/-- A reading gives back **all** the text it looked at. -/
@[simp] theorem whole_read (c : Char) (cs : Text) : (read c cs).whole = c :: cs := by
  unfold read
  repeat' split
  all_goals simp_all

theorem spelling_ne_empty (s : Symbol) : s.spelling ≠ "" := by
  cases s <;> decide

/-- A reading takes **at least one character**. -/
theorem taken_read_ne_nil (c : Char) (cs : Text) : (read c cs).taken ≠ [] := by
  unfold read readRun readString readComment readCharCode readEscaped readSymbol
  repeat' split
  all_goals simp [readRun, spelling_ne_empty]

theorem length_rest_read (c : Char) (cs : Text) :
    (read c cs).rest.length < (c :: cs).length := by
  have whole := congrArg List.length (whole_read c cs)
  have taken := List.length_pos_iff.2 (taken_read_ne_nil c cs)
  simp only [Reading.whole, List.length_append] at whole
  omega

/-! ## The whole text -/

/-- Reads the tokens of a text that begins at byte `pos`. -/
def lexFrom (pos : Nat) (t : Text) : Except LexError (List Token) :=
  match t with
  | [] => .ok [⟨.eof, pos, pos⟩]
  | c :: cs =>
    let r := read c cs
    let stop := pos + Text.size r.taken
    match r.lexeme with
    | .skip => lexFrom stop r.rest
    | .token kind => (lexFrom stop r.rest).map (⟨kind, pos, stop⟩ :: ·)
    | .fault cause => .error ⟨cause, pos, stop⟩
termination_by t.length
decreasing_by all_goals exact length_rest_read c cs

/-- The **tokens** of a text, ended by `eof`, or the first place at which none can be read. -/
def lex (t : Text) : Except LexError (List Token) :=
  lexFrom 0 t

end Token

end PascalAtlas
