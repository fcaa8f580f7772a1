import PascalAtlas.Frontend

/-!
# Blueprints

A **blueprint** is a unit before it has a source text: names, ancestors, fields, headings and
bodies, and nothing that only a text could give it. It can be written down in one canonical way
(`Blueprint.render`), and it says which unit the text should be read as (`Blueprint.unit`).

Names are plain: identifiers that no place of the grammar takes for anything else. A body is any
text that reads as the inside of a block. Both are kept as subtypes, so that a blueprint can
always be written down.
-/

namespace PascalAtlas

/-! ## Plain names -/

/-- The words that are identifiers and yet have a meaning somewhere: visibilities, directives,
modifiers of classes, types and parameters. -/
def reservedNames : List Text :=
  Grammar.visibilities ++ Grammar.directives ++ ["strict", "sealed", "packed"].map String.toList
    ++ Param.modifiers

/-- Whether a text is an identifier **without a meaning of its own**. -/
def Text.isPlain (t : Text) : Bool :=
  Token.headIs Token.isIdentStart t && t.all Text.isIdentChar && (Keyword.ofWord? t).isNone
    && !Text.isOneOf t reservedNames

/-- A plain name. -/
structure PlainName where
  text : Text
  plain : text.isPlain = true

/-- A name with one or more parts. -/
structure DottedName where
  first : PlainName
  others : List PlainName := []

/-- The parts of a dotted name with dots between them. -/
def DottedName.text (d : DottedName) : Text :=
  d.first.text ++ d.others.flatMap fun part => '.' :: part.text

/-! ## Bodies -/

namespace Text

/-- A block with the given inside. -/
def inBlock (body : Text) : Text :=
  "begin\n".toList ++ body ++ "\nend".toList

/-- Whether a text is the **inside of a block**: between `begin` and `end` it is read as statements,
without an error and up to that `end`. -/
def isBody (body : Text) : Bool :=
  match Token.lex (inBlock body) with
  | .error _ => false
  | .ok tokens =>
    match Grammar.compound.run (Rule.run Grammar.rules (tokens.length + 1))
        (State.initial tokens) with
    | .ok s => s.errors.isEmpty && s.kind == .eof
    | _ => false

end Text

/-! ## Bare units

What a unit declares, without the statements and the extents that only a source text gives it. -/

def Routine.bare (r : Routine) : Routine :=
  { r with statements := [], extent := {} }

def FieldDecl.bare (f : FieldDecl) : FieldDecl :=
  { f with extent := {} }

def ClassDecl.bare (c : ClassDecl) : ClassDecl :=
  { c with
    fields := c.fields.map FieldDecl.bare,
    methods := c.methods.map Routine.bare,
    extent := {} }

def SourceUnit.bare (u : SourceUnit) : SourceUnit :=
  { u with classes := u.classes.map ClassDecl.bare, procedures := u.procedures.map Routine.bare }

/-! ## Blueprints -/

namespace Blueprint

/-- A parameter; its type may be left open. -/
structure Parameter where
  name : PlainName
  type : Option PlainName := none

/-- What a routine is; a function has a result. -/
inductive RoutineForm where
  | procedure
  | function (result : PlainName)
  | constructor
  | destructor

/-- A routine with its body. -/
structure Routine where
  form : RoutineForm
  name : PlainName
  parameters : List Parameter := []
  body : Text := []
  isBody : body.isBody = true

/-- A field and its type. -/
structure Field where
  name : PlainName
  type : PlainName

/-- A class. -/
structure Class where
  name : PlainName
  ancestor : Option PlainName := none
  fields : List Field := []
  methods : List Routine := []

end Blueprint

/-- **A unit before it has a source text.** No two classes have the same name. -/
structure Blueprint where
  name : DottedName
  uses : List DottedName := []
  classes : List Blueprint.Class := []
  procedures : List Blueprint.Routine := []
  distinct : classes.Pairwise fun c d => Text.eqIgnoreCase c.name.text d.name.text = false

namespace Blueprint

/-! ## The unit -/

/-- The type of a parameter, which is empty if it is left open. -/
def Parameter.param (p : Parameter) : Param :=
  ⟨p.name.text, (p.type.map PlainName.text).getD []⟩

namespace RoutineForm

def kind : RoutineForm → RoutineKind
  | .procedure => .procedure
  | .function _ => .function
  | .constructor => .constructor
  | .destructor => .destructor

/-- The result of a function. -/
def result? : RoutineForm → Option PlainName
  | .function result => some result
  | _ => none

end RoutineForm

/-- The heading of a routine, before it has a body. -/
def Routine.declared (r : Routine) : PascalAtlas.Routine :=
  { name := r.name.text
    kind := r.form.kind
    parameters := r.parameters.map Parameter.param
    returnType := (r.form.result?.map PlainName.text).getD [] }

/-- The routine with its body, which is trimmed. -/
def Routine.routine (r : Routine) : PascalAtlas.Routine :=
  { r.declared with hasBody := true, body := Text.trim r.body }

/-- The class with its fields and methods. -/
def Class.classDecl (c : Class) : ClassDecl :=
  { name := c.name.text
    ancestor := c.ancestor.map PlainName.text
    fields := c.fields.map fun f => { name := f.name.text, typeName := f.type.text }
    methods := c.methods.map Routine.routine }

/-- The **unit** that a blueprint describes. -/
def unit (u : Blueprint) : SourceUnit :=
  { name := u.name.text
    uses := u.uses.map DottedName.text
    classes := u.classes.map Class.classDecl
    procedures := u.procedures.map Routine.routine }

/-! ## The text -/

/-- The heading of a routine, with the class that owns it if it stands outside of it. -/
def Routine.renderHeading (owner : Option PlainName) (r : Routine) : Text :=
  r.form.kind.word.toList ++ [' '] ++ (owner.map fun c => c.text ++ ['.']).getD [] ++ r.name.text
    ++ ['('] ++ Param.renderList (r.parameters.map Parameter.param) ++ [')']
    ++ (r.form.result?.map fun result => ": ".toList ++ result.text).getD [] ++ [';']

/-- A routine with its body. -/
def Routine.render (owner : Option PlainName) (r : Routine) : Text :=
  r.renderHeading owner ++ [' '] ++ Text.inBlock r.body ++ [';']

def Field.render (f : Field) : Text :=
  f.name.text ++ ": ".toList ++ f.type.text ++ [';']

/-- The declaration of a class: fields and headings. -/
def Class.render (c : Class) : Text :=
  c.name.text ++ " = class".toList ++ (c.ancestor.map fun a => ['('] ++ a.text ++ [')']).getD []
    ++ (c.fields.flatMap fun f => ' ' :: f.render)
    ++ (c.methods.flatMap fun m => ' ' :: m.renderHeading none)
    ++ " end;".toList

/-- The clause that names the used units; there is none if there are none. -/
def renderUses : List DottedName → Text
  | [] => []
  | first :: others =>
    " uses ".toList ++ first.text ++ (others.flatMap fun d => ", ".toList ++ d.text) ++ [';']

/-- The section that declares the classes; there is none if there are none. -/
def renderTypes (classes : List Class) : Text :=
  if classes.isEmpty then [] else " type".toList ++ classes.flatMap fun c => ' ' :: c.render

/-- The **source text** of a blueprint: classes and headings in the interface part, all bodies in
the implementation part, the methods before the other routines. -/
def render (u : Blueprint) : Text :=
  "unit ".toList ++ u.name.text ++ [';'] ++ renderUses u.uses
    ++ " interface".toList ++ renderTypes u.classes
    ++ (u.procedures.flatMap fun r => ' ' :: r.renderHeading none)
    ++ " implementation".toList
    ++ (u.classes.flatMap fun c => c.methods.flatMap fun m => ' ' :: m.render (some c.name))
    ++ (u.procedures.flatMap fun r => ' ' :: r.render none)
    ++ " end.".toList

end Blueprint

end PascalAtlas
