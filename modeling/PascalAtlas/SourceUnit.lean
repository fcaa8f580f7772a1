import PascalAtlas.Params
import PascalAtlas.Statement

/-!
# Units

A **unit** is what one source file declares: the units it uses, its classes with their members, and
its routines. A routine is declared in one place and implemented in another; `SourceUnit.attach`
brings the two together.
-/

namespace PascalAtlas

/-! ## Declarations -/

/-- The four kinds of routines. -/
inductive RoutineKind where
  | procedure | function | constructor | destructor
  deriving DecidableEq

namespace RoutineKind

/-- The word that opens the heading of a routine of this kind. -/
def word : RoutineKind → String
  | .procedure => "procedure"
  | .function => "function"
  | .constructor => "constructor"
  | .destructor => "destructor"

/-- The kind whose word this is, ignoring ASCII case. -/
def ofWord? (t : Text) : Option RoutineKind :=
  [procedure, function, constructor, destructor].find? fun k =>
    Text.eqIgnoreCase t k.word.toList

end RoutineKind

/-- A routine. Without a body its `body` is empty and it has no statements; the result type is empty
for everything but functions. -/
structure Routine where
  name : Text := []
  kind : RoutineKind := .procedure
  parameters : List Param := []
  returnType : Text := []
  hasBody : Bool := false
  /-- The text between the outermost `begin` and its `end`. -/
  body : Text := []
  statements : List Statement := []
  extent : Extent := {}

namespace Routine

/-- A routine without a body. -/
def heading (name : Text) (kind : RoutineKind) (params returnType : Text) : Routine :=
  { name, kind, parameters := Param.parseList params, returnType := Text.trim returnType }

/-- The routine with a body. -/
def withBody (r : Routine) (body : Text) (statements : List Statement) : Routine :=
  { r with hasBody := true, body := Text.trim body, statements }

/-- The routine with the stretch of source that it covers. -/
def withExtent (r : Routine) (extent : Extent) : Routine :=
  { r with extent }

/-- A declared routine **completed** by its implementation, which may leave out the parameters and
the result type. -/
def completeWith (declared implementation : Routine) : Routine :=
  { implementation with
    name := declared.name
    parameters :=
      if implementation.parameters.isEmpty then declared.parameters else implementation.parameters
    returnType :=
      if implementation.returnType.isEmpty then declared.returnType else implementation.returnType }

end Routine

/-- A field of a class or record. -/
structure FieldDecl where
  name : Text
  typeName : Text
  extent : Extent := {}
  deriving DecidableEq

/-- A property of a class, with what it reads and writes. -/
structure PropertyDecl where
  name : Text
  typeName : Text
  read : Option Text := none
  write : Option Text := none
  deriving DecidableEq

/-- A class or record. -/
structure ClassDecl where
  name : Text
  ancestor : Option Text := none
  isRecord : Bool := false
  fields : List FieldDecl := []
  properties : List PropertyDecl := []
  methods : List Routine := []
  extent : Extent := {}

/-- What one source file declares. -/
structure SourceUnit where
  name : Text
  uses : List Text := []
  classes : List ClassDecl := []
  procedures : List Routine := []

/-! ## Implementations -/

namespace Routine

/-- Whether a routine is declared without a body under a name, ignoring ASCII case. -/
def awaits (name : Text) (declared : Routine) : Bool :=
  !declared.hasBody && Text.eqIgnoreCase declared.name name

/-- Completes the **first** routine that awaits an implementation; `none` if there is no such. -/
def fill? (implementation : Routine) : List Routine → Option (List Routine)
  | [] => none
  | r :: rs =>
    if awaits implementation.name r then
      some (r.completeWith implementation :: rs)
    else
      (fill? implementation rs).map (r :: ·)

/-- Brings a routine into a list: one with a body completes the first declaration that awaits it,
every other is added at the end. -/
def attachTo (slots : List Routine) (r : Routine) : List Routine :=
  if r.hasBody then (fill? r slots).getD (slots ++ [r]) else slots ++ [r]

end Routine

namespace SourceUnit

/-- Whether the unit declares neither classes nor routines. -/
def isEmpty (u : SourceUnit) : Bool :=
  u.classes.isEmpty && u.procedures.isEmpty

/-- The first class with a name, ignoring ASCII case. -/
def class? (u : SourceUnit) (name : Text) : Option ClassDecl :=
  u.classes.find? fun c => Text.eqIgnoreCase c.name name

/-- The routines of a unit: those at the top level, then the methods of each class. -/
def routines (u : SourceUnit) : List (Option ClassDecl × Routine) :=
  u.procedures.map (fun r => (none, r))
    ++ u.classes.flatMap fun c => c.methods.map fun m => (some c, m)

/-- Changes the first class with a name; `none` if there is no such. -/
def updateClass? (name : Text) (f : ClassDecl → ClassDecl) :
    List ClassDecl → Option (List ClassDecl)
  | [] => none
  | c :: cs =>
    if Text.eqIgnoreCase c.name name then
      some (f c :: cs)
    else
      (updateClass? name f cs).map (c :: ·)

/-- Brings an **implementation** into the unit. A method goes to its class; the method of a class
that is declared elsewhere becomes a routine of the unit under its full name. -/
def attach (u : SourceUnit) (owner : Option Text) (r : Routine) : SourceUnit :=
  match owner with
  | none => { u with procedures := r.attachTo u.procedures }
  | some owner =>
    let addMethod (c : ClassDecl) := { c with methods := r.attachTo c.methods }
    match updateClass? owner addMethod u.classes with
    | some classes => { u with classes }
    | none =>
      { u with procedures := u.procedures ++ [{ r with name := owner ++ ['.'] ++ r.name }] }

end SourceUnit

end PascalAtlas
