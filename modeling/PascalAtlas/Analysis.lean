import PascalAtlas.Effect
import PascalAtlas.SemanticType
import PascalAtlas.SourceUnit

/-!
# Analysis of a batch

The units of a batch are analyzed together, in three steps: the classes are registered under their
qualified names, the routines are collected with their parameter types resolved, and the effects of
each routine are inferred from its body. Each step **replaces** what it produces, so a full analysis
depends on the units and the rules alone.
-/

namespace PascalAtlas

/-- A routine of the batch: where it comes from, its resolved parameters and its effects. -/
structure Procedure where
  name : Text
  unit : Text
  /-- The class that declares it. -/
  owner : Option Text
  kind : RoutineKind
  returnType : Text
  parameters : Table Text SemanticType
  hasBody : Bool
  body : Text
  effects : Effects := {}
  deriving DecidableEq

namespace Procedure

/-- A routine of a unit with its parameter types resolved and no effects yet. -/
def ofRoutine (registry : Registry) (unit : SourceUnit) (owner : Option ClassDecl)
    (r : Routine) : Procedure where
  name := r.name
  unit := unit.name
  owner := owner.map ClassDecl.name
  kind := r.kind
  returnType := r.returnType
  parameters := .ofList (r.parameters.map fun p => (p.name, registry.resolve p.typeName))
  hasBody := r.hasBody
  body := r.body

/-- The name with the unit and, for a method, the class before it. -/
def qualifiedName (p : Procedure) : Text :=
  match p.owner with
  | some owner => p.unit ++ ['.'] ++ owner ++ ['.'] ++ p.name
  | none => p.unit ++ ['.'] ++ p.name

/-- What the body reads: the parameters that are followed by a dot in it. -/
def readsIn (parameters : List Text) (body : Text) : List Text :=
  (parameters.filter fun p => Text.contains body (p ++ ['.'])).map fun p => p ++ ".*".toList

/-- The classes whose constructor is called in a body. -/
def createsIn (classes : List Text) (body : Text) : List Text :=
  classes.filter fun c => Text.contains body (c ++ ".Create".toList)

/-- The routines other than its own that are called in a body. -/
def callsIn (own : Text) (known : List Text) (body : Text) : List Text :=
  known.filter fun name => name ≠ own && Text.contains body (name ++ ['('])

/-- The **effects** of a routine, given the names of the classes and routines of the batch. Those it
had are cleared first, and a routine without a body gets no others. -/
def infer (rules : List EffectRule) (classes known : List Text) (p : Procedure) : Effects :=
  if p.hasBody then
    let e := Effects.applyRules rules p.body p.effects.clear
    { e with
      reads := OrderedSet.insertAll e.reads (readsIn p.parameters.keys p.body)
      creates := OrderedSet.insertAll e.creates (createsIn classes p.body)
      calls := OrderedSet.insertAll e.calls (callsIn p.name known p.body) }
  else
    p.effects.clear

end Procedure

/-- The units of a batch and what has been found out about them. -/
structure Analysis where
  rules : List EffectRule := EffectRule.defaults
  units : List SourceUnit := []
  registry : Registry := {}
  procedures : List Procedure := []

namespace Analysis

/-! ## Steps -/

/-- Adds a unit to the batch. -/
def load (a : Analysis) (unit : SourceUnit) : Analysis :=
  { a with units := a.units ++ [unit] }

/-- The entry of a class in the registry. -/
def registryEntry (unit : SourceUnit) (c : ClassDecl) : Text × SemanticType :=
  (unit.name ++ ['.'] ++ c.name,
    .class_ c.name (.ofList (c.fields.map fun f => (f.name, f.typeName))))

/-- Registers the classes of all units, after the registry has been cleared. -/
def collectTypes (a : Analysis) : Analysis :=
  { a with
    registry := a.registry.clear.insertAll
      (a.units.flatMap fun u => u.classes.map (registryEntry u)) }

/-- Collects the routines of all units. -/
def collectProcedures (a : Analysis) : Analysis :=
  { a with
    procedures := a.units.flatMap fun u =>
      u.routines.map fun (owner, r) => .ofRoutine a.registry u owner r }

/-- The names of the registered classes, each once. -/
def classNames (a : Analysis) : List Text :=
  OrderedSet.ofList (a.registry.values.filterMap fun t =>
    match t with
    | .class_ name _ => some name
    | _ => none)

/-- The names of the routines, each once. -/
def procedureNames (a : Analysis) : List Text :=
  OrderedSet.ofList (a.procedures.map Procedure.name)

/-- Infers the effects of all routines. -/
def inferEffects (a : Analysis) : Analysis :=
  let classes := a.classNames
  let known := a.procedureNames
  { a with
    procedures := a.procedures.map fun p =>
      { p with effects := p.infer a.rules classes known } }

/-- The **full analysis**. -/
def analyze (a : Analysis) : Analysis :=
  a.collectTypes.collectProcedures.inferEffects

/-! ## Questions -/

/-- The first routine with a name. -/
def procedure? (a : Analysis) (name : Text) : Option Procedure :=
  a.procedures.find? fun p => p.name = name

/-- Whether a call by this name makes an object: it is `Create`, or some
constructor has the name. -/
def isConstructorCall (a : Analysis) (name : Text) : Bool :=
  Text.eqIgnoreCase name "Create".toList
    || a.procedures.any fun p => p.name = name && p.kind = .constructor

end Analysis

end PascalAtlas
