import PascalAtlas.Token

/-!
# Scans

Much of what the parser does is to run over tokens up to some boundary while it counts brackets and
blocks. Such a run is a **scan**: a rule that looks at one token, at the one after it and at the
nesting so far, and says whether to stop before the token, to stop after it, or to go on. Every scan
stops at the end of the tokens at the latest, so `Scan.run` is a recursion on the list of tokens and
needs nothing else to end.
-/

namespace PascalAtlas

/-- How deep a scan stands, and whether the token it passed last was `:` or `=`. -/
structure Nesting where
  brackets : Nat := 0
  blocks : Nat := 0
  afterType : Bool := false
  deriving DecidableEq

/-- What a scan does at a token. -/
inductive Move where
  /-- Stop before the token. -/
  | stop
  /-- Pass the token and stop after it. -/
  | last
  /-- Pass the token and go on with a new nesting. -/
  | go (nesting : Nesting)
  deriving DecidableEq

/-- A scan says what to do at a token, given the nesting, its kind and the kind after it. -/
abbrev Scan := Nesting → TokenKind → TokenKind → Move

/-- The kind of the first of some tokens; at their end it is `eof`. -/
def headKind : List Token → TokenKind
  | [] => .eof
  | t :: _ => t.kind

namespace Scan

/-- How many tokens a scan passes, and whether it **stopped by its own rule** and not at the end of
the tokens. -/
def run (scan : Scan) (nesting : Nesting) : List Token → Nat × Bool
  | [] => (0, false)
  | t :: ts =>
    if t.kind = .eof then
      (0, false)
    else
      match scan nesting t.kind (headKind ts) with
      | .stop => (0, true)
      | .last => (1, true)
      | .go nesting' =>
        let (n, stopped) := run scan nesting' ts
        (n + 1, stopped)

/-! ## Runs -/

/-- The kinds at which a **statement ends**. -/
def isTerminator : TokenKind → Bool
  | .symbol .semi => true
  | .keyword .kwEnd | .keyword .kwElse | .keyword .kwUntil | .keyword .kwExcept
  | .keyword .kwFinally => true
  | _ => false

/-- The number of open brackets `(` and `[` after a token. -/
def bracketsAfter (n : Nat) : TokenKind → Nat
  | .symbol .lParen | .symbol .lBracket => n + 1
  | .symbol .rParen | .symbol .rBracket => n - 1
  | _ => n

/-- Passes the tokens of an **expression or simple statement**: up to the end of the statement or
one of the given kinds, outside brackets. -/
def expression (stops : List TokenKind) : Scan := fun n k _ =>
  if n.brackets = 0 && (isTerminator k || stops.any k.sameShape) then
    .stop
  else
    .go { n with brackets := bracketsAfter n.brackets k }

/-- Passes the tokens of a **type** up to a kind that satisfies a test, outside brackets, generic
arguments and records. -/
def typeRef (isStop : TokenKind → Bool) : Scan := fun n k _ =>
  if n.brackets = 0 && isStop k then
    .stop
  else
    match k with
    | .symbol .lParen | .symbol .lBracket | .symbol .lt | .keyword .kwRecord =>
      .go { n with brackets := n.brackets + 1 }
    | .symbol .rParen | .symbol .rBracket | .symbol .gt | .keyword .kwEnd =>
      .go { n with brackets := n.brackets - 1 }
    | _ => .go n

/-- Passes a **bracketed stretch** through the bracket that closes it. -/
def balanced (opening closing : TokenKind) : Scan := fun n k _ =>
  if k.sameShape opening then
    .go { n with brackets := n.brackets + 1 }
  else if k.sameShape closing then
    if n.brackets ≤ 1 then .last else .go { n with brackets := n.brackets - 1 }
  else
    .go n

/-- Passes everything up to a kind that is one of those given. -/
def upTo (stops : List TokenKind) : Scan := fun n k _ =>
  if stops.any k.sameShape then .stop else .go n

/-- Passes the body of a structured type **through its `end`**. The records and variant parts inside
it have an `end` of their own. -/
def throughEnd : Scan := fun n k _ =>
  match k with
  | .keyword .kwRecord | .keyword .kwCase => .go { n with blocks := n.blocks + 1 }
  | .keyword .kwEnd => if n.blocks = 0 then .last else .go { n with blocks := n.blocks - 1 }
  | _ => .go n

/-- Passes everything up to a `;` outside brackets and records. -/
def upToSemi : Scan := fun n k _ =>
  match k with
  | .symbol .semi => if n.brackets = 0 then .stop else .go n
  | .symbol .lParen | .symbol .lBracket | .keyword .kwRecord =>
    .go { n with brackets := n.brackets + 1 }
  | .symbol .rParen | .symbol .rBracket | .keyword .kwEnd =>
    .go { n with brackets := n.brackets - 1 }
  | _ => .go n

/-- The kinds that **end the local declarations** of a routine, outside brackets and records. A
routine keyword after `:` or `=` is a procedural type and ends nothing. -/
def endsLocals (afterType : Bool) (k next : TokenKind) : Bool :=
  match k with
  | .keyword .kwBegin | .keyword .kwAsm | .keyword .kwEnd | .keyword .kwImplementation
  | .keyword .kwInitialization | .keyword .kwFinalization => true
  | .keyword .kwClass => next.isRoutine
  | _ => k.isSection || (k.isRoutine && !afterType)

/-- Passes a section of local declarations. -/
def locals : Scan := fun n k next =>
  if n.brackets = 0 && n.blocks = 0 && endsLocals n.afterType k next then
    .stop
  else
    .go {
      brackets := bracketsAfter n.brackets k
      blocks :=
        match k with
        | .keyword .kwRecord => n.blocks + 1
        | .keyword .kwEnd => n.blocks - 1
        | _ => n.blocks
      afterType :=
        match k with
        | .symbol .colon | .symbol .eq => true
        | _ => false }

/-! ## Recovery -/

/-- The kinds at which a **declaration** of the unit can begin again, and the `end.` of the unit. -/
def startsDeclaration (k next : TokenKind) : Bool :=
  match k with
  | .keyword .kwType | .keyword .kwUses | .keyword .kwInterface | .keyword .kwImplementation
  | .keyword .kwInitialization | .keyword .kwFinalization => true
  | .keyword .kwEnd => next.sameShape (.symbol .dot)
  | _ => k.isSection || k.isRoutine

/-- Passes everything up to the next declaration of the unit. -/
def toDeclaration : Scan := fun n k next =>
  if startsDeclaration k next then .stop else .go n

/-- Passes everything **through** the next `;` of a class body, or up to its `end`. -/
def pastMember : Scan := fun n k _ =>
  match n.brackets, k with
  | 0, .keyword .kwEnd => .stop
  | 0, .symbol .semi => .last
  | d, _ => .go { n with brackets := bracketsAfter d k }

/-- Passes everything up to the end of the statement. The blocks on the way are passed whole: an
`end` or `until` closes one only where one is open, since without an open block it ends the
statement. -/
def toStatementEnd : Scan := fun n k _ =>
  if n.blocks = 0 && isTerminator k then
    .stop
  else
    match k with
    | .keyword .kwBegin | .keyword .kwTry | .keyword .kwCase | .keyword .kwRepeat =>
      .go { n with blocks := n.blocks + 1 }
    | .keyword .kwEnd | .keyword .kwUntil => .go { n with blocks := n.blocks - 1 }
    | _ => .go n

end Scan

end PascalAtlas
