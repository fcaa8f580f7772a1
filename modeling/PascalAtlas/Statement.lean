import PascalAtlas.Position
import PascalAtlas.Text.Blank

/-!
# Statements

A statement is a **block**, which holds other statements, or a **simple** one, which is told apart
by its text alone: an assignment, a call, or something else.

An assignment is cut at the first `:=` that stands outside string literals and outside brackets. The
brackets are counted in 32 bits, and the counter begins again when it is full. A call begins with a
dotted name; what stands between its first `(` and its last `)` are the arguments.
-/

namespace PascalAtlas

/-- The kinds of blocks, with the text of their header. -/
inductive BlockShape where
  | compound
  | conditional (condition : Text)
  | whileLoop (condition : Text)
  | forLoop (header : Text)
  | withScope (subject : Text)
  | protected_
  | selection (selector : Text)
  | repeatLoop (condition : Text)
  deriving DecidableEq

/-- The kinds of simple statements, with the texts of their parts. -/
inductive SimpleForm where
  | assign (target value : Text)
  | call (callee arguments : Text)
  | other (text : Text)
  deriving DecidableEq

/-- A statement and the stretch of source it covers. -/
inductive Statement where
  | block (shape : BlockShape) (body : List Statement) (extent : Extent)
  | simple (form : SimpleForm) (extent : Extent)

/-! ## Simple statements -/

namespace SimpleForm

/-- Cuts a text around the first occurrence of another **outside string literals and brackets**,
given the balance of brackets so far, as the counter has it, and whether a string is open. -/
def cutOutside? (needle : Text) (depth : Int32) (inString : Bool) : Text → Option (Text × Text)
  | [] => none
  | c :: cs =>
    let next (depth : Int32) (inString : Bool) :=
      (cutOutside? needle depth inString cs).map fun (front, back) => (c :: front, back)
    if inString then
      next depth (c != '\'')
    else if c = '\'' then
      next depth true
    else if c = '(' || c = '[' then
      next (depth + 1) false
    else if c = ')' || c = ']' then
      next (depth - 1) false
    else if depth = 0 then
      match Text.dropPrefix? needle (c :: cs) with
      | some rest => some ([], rest)
      | none => next depth false
    else
      next depth false

/-- The characters of the dotted name with which a call begins. -/
def isCalleeChar (c : Char) : Bool :=
  c.isAlphanum || c == '_' || c == '.' || c == ' '

/-- The text before the first `(`. -/
def beforeParen (t : Text) : Text :=
  t.takeWhile (· != '(')

/-- Whether a text begins like a call. -/
def isCallShaped (t : Text) : Bool :=
  let head := Text.trim (beforeParen t)
  !head.isEmpty && head.all isCalleeChar

/-- The callee and the arguments of a text that begins like a call. -/
def splitCall (t : Text) : Text × Text :=
  match Text.cutAt? (· == '(') t with
  | none => (t, [])
  | some (callee, rest) =>
    match Text.cutAtLast? (· == ')') rest with
    | none => (t, [])
    | some (arguments, _) => (callee, arguments)

/-- The **form** of a simple statement. -/
def ofText (t : Text) : SimpleForm :=
  let t := Text.trim t
  match cutOutside? ":=".toList 0 false t with
  | some (target, value) => .assign (Text.trim target) (Text.trim value)
  | none =>
    if isCallShaped t then
      let (callee, arguments) := splitCall t
      .call (Text.trim callee) (Text.trim arguments)
    else
      .other t

end SimpleForm

/-! ## Looking into statements -/

namespace Statement

/-- The stretch of source that a statement covers. -/
def extent : Statement → Extent
  | .block _ _ extent | .simple _ extent => extent

/-- The statements directly inside a block. -/
def body? : Statement → Option (List Statement)
  | .block _ body _ => some body
  | .simple .. => none

mutual

/-- A statement and all those inside it, each **before** the ones inside it. -/
def visit : Statement → List Statement
  | .block shape body extent => .block shape body extent :: visitAll body
  | .simple form extent => [.simple form extent]

/-- Some statements and all those inside them. -/
def visitAll : List Statement → List Statement
  | [] => []
  | s :: ss => s.visit ++ visitAll ss

end

end Statement

end PascalAtlas
