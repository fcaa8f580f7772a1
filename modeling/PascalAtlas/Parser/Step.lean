import PascalAtlas.Parser.State

/-!
# Steps

The grammar is written in a small language of **steps**, and one function runs it. A step looks at
the next tokens, consumes some, opens a node around other steps, or fails; a failure leaves the
frames it had opened where they are, and `guarded` is the one step that takes them up again.

What the running of steps never does (lose a token, move back, leave a frame behind) is then a
property of this one function, by recursion on the step, and not of every rule of the grammar.

Steps call the two recursive rules, a routine and a statement, by name. `Rule.run` allows a number
of calls inside one another; a call beyond it, or a loop that goes round more often than there are
tokens left, makes the outcome `stuck`. A grammar in which every call and every round consumes a
token never gets there.
-/

namespace PascalAtlas

/-! ## Tests -/

/-- A **test** of the next two tokens and of what the state remembers. -/
inductive Test where
  /-- The next token has the shape of a kind. -/
  | here (kind : TokenKind)
  /-- The token after the next one has the shape of a kind. -/
  | ahead (kind : TokenKind)
  /-- The next token is a name with this spelling, ignoring ASCII case. -/
  | word (spelling : Text)
  /-- The heading read last says that its routine has no body. -/
  | bodiless
  /-- The parser stands in the interface part. -/
  | inInterface
  /-- The `end.` of the unit has been consumed. -/
  | closed
  | never
  | or (a b : Test)
  | and (a b : Test)
  | not (a : Test)

namespace Test

/-- Whether a test holds in a state. -/
def holds : Test → State → Bool
  | .here kind, s => s.kind.sameShape kind
  | .ahead kind, s => s.kindAfter.sameShape kind
  | .word spelling, s => s.kind.isWord spelling
  | .bodiless, s => s.bodiless
  | .inInterface, s => s.part == .interface
  | .closed, s => s.closed
  | .never, _ => false
  | .or a b, s => a.holds s || b.holds s
  | .and a b, s => a.holds s && b.holds s
  | .not a, s => !a.holds s

/-- One of some tests holds. -/
def any : List Test → Test
  | [] => .never
  | t :: ts => .or t (any ts)

/-- The next token is a reserved word. -/
def keyword (k : Keyword) : Test := .here (.keyword k)

/-- The next token is a symbol. -/
def symbol (s : Symbol) : Test := .here (.symbol s)

/-- The next token is a name. -/
def ident : Test := .here (.ident [])

/-- No token is left. -/
def eof : Test := .here .eof

/-- The next token is a name out of a list, ignoring ASCII case. -/
def oneOf (words : List Text) : Test := any (words.map .word)

end Test

/-! ## The language of steps -/

/-- The rules that call themselves. -/
inductive Rule where
  | statement
  | routine
  deriving DecidableEq

/-- A **step** of the grammar. -/
inductive Step where
  /-- Do nothing. -/
  | skip
  /-- Consume the next token. -/
  | bump
  /-- Consume what a scan passes. -/
  | take (scan : Scan)
  /-- Consume what a scan passes, and fail if it did not stop by its own rule. -/
  | takeClosed (scan : Scan) (cause : ParseCause)
  /-- Fail at the next token. -/
  | fail (cause : ParseCause)
  /-- Record an error at the next token and go on. -/
  | report (cause : ParseCause)
  /-- One step, then another. -/
  | seq (a b : Step)
  /-- One of two steps, as a test says. -/
  | branch (test : Test) (yes no : Step)
  /-- A step again and again, as long as a test holds. -/
  | loop (test : Test) (body : Step)
  /-- A step, then one of two others, as it **consumed a token** or not. -/
  | ifMoved (body moved still : Step)
  /-- A node around what a step consumes. -/
  | node (kind : NodeKind) (body : Step)
  /-- A step whose failure is recorded and turned into an `error` node. What the scan passes belongs
  to that node, and so does at least one token. -/
  | guarded (recovery : Scan) (body : Step)
  /-- Enter a part of the unit. -/
  | enter (part : UnitPart)
  /-- Remember whether the heading has no body. -/
  | noteBodiless (value : Bool)
  /-- Remember that the unit is closed. -/
  | noteClosed
  /-- Run a rule of the grammar. -/
  | call (rule : Rule)

namespace Step

/-- Some steps, one after the other. -/
def all : List Step → Step
  | [] => .skip
  | [a] => a
  | a :: as => .seq a (all as)

/-- The first step whose test holds, or else the last one. -/
def choose : List (Test × Step) → Step → Step
  | [], otherwise => otherwise
  | (test, a) :: cases, otherwise => .branch test a (choose cases otherwise)

/-- A step if a test holds. -/
def when (test : Test) (a : Step) : Step :=
  .branch test a .skip

/-- Consume the next token, which must have the shape of a kind. -/
def expect (kind : TokenKind) : Step :=
  .branch (.here kind) .bump (.fail (.token kind))

/-- Consume the next token, which must be a name. -/
def expectIdent : Step :=
  .branch .ident .bump (.fail .identifier)

/-- Record an error and put the token that causes it into an `error` node of its own. -/
def errorToken (cause : ParseCause) : Step :=
  .seq (.report cause) (.node .error .bump)

end Step

/-! ## Running steps -/

/-- How a step ends. -/
inductive Outcome where
  | ok (s : State)
  | fail (error : ParseError) (s : State)
  /-- The bound on calls or rounds was reached. -/
  | stuck (s : State)

namespace Outcome

/-- The state in which a step ended. -/
def state : Outcome → State
  | .ok s | .fail _ s | .stuck s => s

/-- Goes on after success. -/
def andThen (o : Outcome) (f : State → Outcome) : Outcome :=
  match o with
  | .ok s => f s
  | .fail e s => .fail e s
  | .stuck s => .stuck s

end Outcome

namespace State

/-- What follows a failure inside a guarded step that began in state `entry`: the error is recorded,
the frames opened since then become one `error` node, and that node takes in what the recovery scan
passes, or one token if nothing at all has been consumed since the step began. -/
def recover (recovery : Scan) (entry : State) (error : ParseError) (s : State) : State :=
  let s := { s with errors := s.errors ++ [error] }.collapse entry.frames.length
  let s := s.advance (recovery.run {} s.rest).1
  let s := if s.rest.length = entry.rest.length then s.bump else s
  s.closeNode

end State

/-- Goes on after a failure inside a guarded step that began in state `entry`. -/
def Outcome.recovered (recovery : Scan) (entry : State) : Outcome → Outcome
  | .ok s => .ok s
  | .fail error s => .ok (State.recover recovery entry error s)
  | .stuck s => .stuck s

namespace Step

/-- Runs a step again and again while a test holds, at most `n` times. -/
def runLoop (test : Test) (body : State → Outcome) : Nat → State → Outcome
  | 0, s => if test.holds s then .stuck s else .ok s
  | n + 1, s => if test.holds s then (body s).andThen (runLoop test body n) else .ok s

/-- **Runs a step**, given how the rules run. -/
def run (call : Rule → State → Outcome) : Step → State → Outcome
  | .skip, s => .ok s
  | .bump, s => .ok s.bump
  | .take scan, s => .ok (s.advance (scan.run {} s.rest).1)
  | .takeClosed scan cause, s =>
    let (n, stopped) := scan.run {} s.rest
    let s' := s.advance n
    if stopped then .ok s' else .fail (s'.errorHere cause) s'
  | .fail cause, s => .fail (s.errorHere cause) s
  | .report cause, s => .ok (s.report cause)
  | .seq a b, s => (a.run call s).andThen (b.run call)
  | .branch test yes no, s => if test.holds s then yes.run call s else no.run call s
  | .loop test body, s => runLoop test (body.run call) s.rest.length s
  | .ifMoved body moved still, s =>
    (body.run call s).andThen fun s' =>
      if s'.rest.length < s.rest.length then moved.run call s' else still.run call s'
  | .node kind body, s => (body.run call (s.openNode kind)).andThen fun s' => .ok s'.closeNode
  | .guarded recovery body, s => (body.run call s).recovered recovery s
  | .enter part, s => .ok { s with part := part }
  | .noteBodiless value, s => .ok { s with bodiless := value }
  | .noteClosed, s => .ok { s with closed := true }
  | .call rule, s => call rule s

end Step

/-- Runs a rule of a grammar with at most `n` calls inside one another. -/
def Rule.run (grammar : Rule → Step) : Nat → Rule → State → Outcome
  | 0, _, s => .stuck s
  | n + 1, rule, s => (grammar rule).run (Rule.run grammar n) s

end PascalAtlas
