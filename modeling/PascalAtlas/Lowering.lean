import PascalAtlas.Analysis
import PascalAtlas.Document

/-!
# From analysis to documents

An analyzed batch **lowered** to the three documents. A class becomes an entity unless its name says
that it is a form or a view; a routine that writes to a resource becomes a procedure of the backend;
a routine that belongs to the user interface becomes an action. The documents follow the order of
the registry and of the routines.
-/

namespace PascalAtlas

/-! ## Names and types of fields -/

/-- The name of an entity's field. One small letter before a capital is dropped; then the leading
capitals become small, except the last of several when a small letter follows it, because it begins
the next word. -/
def fieldName (name : Text) : Text :=
  let stripped :=
    match name with
    | a :: b :: rest => if a.isLower && b.isUpper then b :: rest else name
    | _ => name
  let run := (stripped.takeWhile Char.isUpper).length
  let startsWord := 1 < run && (stripped.drop run).head?.any Char.isLower
  let capitals := if startsWord then run - 1 else run
  Text.lower (stripped.take capitals) ++ stripped.drop capitals

/-- The types of fields in documents, for types of the source in small letters. -/
structure TypeMap where
  entries : Table Text Text := {}
  deriving DecidableEq

namespace TypeMap

/-- The type of a field whose type has no entry. -/
def fallback : Text :=
  "string".toList

/-- Adds an entry or replaces it. -/
def insert (m : TypeMap) (source target : Text) : TypeMap :=
  ⟨m.entries.insert (Text.lower source) target⟩

/-- The type for a type of the source, ignoring ASCII case and blanks around it. -/
def map (m : TypeMap) (source : Text) : Text :=
  (m.entries.get? (Text.lower (Text.trim source))).getD fallback

/-- Adds entries one after the other. -/
def insertAll (m : TypeMap) (entries : List (Text × Text)) : TypeMap :=
  entries.foldl (fun m (source, target) => m.insert source target) m

/-- The types of the source that are numbers without and with a fraction, and dates. -/
def defaults : TypeMap :=
  let entries (target : String) (sources : List String) :=
    sources.map fun s => (s.toList, target.toList)
  insertAll {} (
    entries "int" ["Integer", "Int64", "SmallInt", "ShortInt", "LongInt", "Cardinal", "Word",
      "Byte", "LongWord", "UInt64"]
    ++ entries "date" ["TDateTime", "TDate", "TTime"]
    ++ entries "decimal" ["Currency", "Double", "Extended", "Real", "Single", "Comp"])

end TypeMap

/-- What lowering depends on besides the analysis. -/
structure LoweringOptions where
  /-- A class whose qualified name contains one of these is no entity. -/
  exclusions : List Text := ["Form", "View"].map String.toList
  typeMap : TypeMap := TypeMap.defaults
  /-- The actions for each resource that is written. -/
  actions : Table Text (List Text) := .ofList
    [("Module.mtPerson".toList,
      ["open mtPerson", "append row", "write Person fields", "commit"].map String.toList)]
  /-- The fields that a form leaves out. -/
  identityFields : List Text := ["cID", "cClient"].map String.toList
  deriving DecidableEq

namespace LoweringOptions

/-- A field of a class as a field of a document. -/
def field (o : LoweringOptions) (f : Text × Text) : TypedName :=
  ⟨fieldName f.1, o.typeMap.map f.2⟩

/-! ## Entities -/

/-- Whether a class is no entity. -/
def excludes (o : LoweringOptions) (qualified : Text) : Bool :=
  o.exclusions.any (Text.contains qualified)

/-- The entity for an entry of the registry. -/
def entity? (o : LoweringOptions) (entry : Text × SemanticType) : Option Entity :=
  if o.excludes entry.1 then
    none
  else
    entry.2.fields?.map fun fields => ⟨simpleName entry.1, fields.entries.map o.field⟩

/-- The document of **entities**. -/
def entities (o : LoweringOptions) (a : Analysis) : EntityDocument :=
  ⟨a.registry.entries.filterMap o.entity?⟩

/-! ## Backend -/

/-- The procedure of the backend for a routine. -/
def backendProcedure (o : LoweringOptions) (p : Procedure) : BackendProcedure where
  name := p.name
  params := p.parameters.entries.map fun (name, type) => ⟨name, type.typeName⟩
  actions := p.effects.writes.flatMap fun resource => (o.actions.get? resource).getD []

/-- The document of the **backend**: the routines that write and do not belong to the user
interface. -/
def backend (o : LoweringOptions) (a : Analysis) : BackendDocument :=
  let writers := a.procedures.filter fun p => !p.effects.isUi && !p.effects.writes.isEmpty
  ⟨writers.map o.backendProcedure⟩

/-! ## User interface -/

/-- The source of an argument that comes from the form. -/
def formSource : Text :=
  "form".toList

/-- The form of an action: the entity that the routine creates first, with the fields of its class
that are not identities. -/
def form (o : LoweringOptions) (a : Analysis) (p : Procedure) : Form :=
  match p.effects.creates.head? with
  | none => ⟨unknown, []⟩
  | some created =>
    match a.registry.findClass? created with
    | none => ⟨created, []⟩
    | some (qualified, type) =>
      let fields := ((type.fields?.map Table.entries).getD []).filter fun f =>
        !o.identityFields.contains f.1
      ⟨simpleName qualified, fields.map o.field⟩

/-- The argument for a parameter. It comes from the form if its type is the form's entity. -/
def argument (entity : Text) (type : SemanticType) : CallArgument :=
  let name := type.simpleTypeName
  ⟨name, if name = entity then formSource else unknown⟩

/-- The call of an action: the **first** routine it calls that makes no object. -/
def backendCall (a : Analysis) (p : Procedure) (entity : Text) : BackendCall :=
  match (p.effects.calls.find? fun n => !a.isConstructorCall n).bind a.procedure? with
  | none => ⟨unknown, [⟨entity, formSource⟩]⟩
  | some callee => ⟨callee.name, callee.parameters.values.map (argument entity)⟩

/-- The action for a routine. -/
def uiAction (o : LoweringOptions) (a : Analysis) (p : Procedure) : UiAction :=
  let form := o.form a p
  let call := backendCall a p form.entity
  ⟨p.name, (if call.isBound then "submit" else "event").toList, form, call⟩

/-- The document of the **user interface**. -/
def ui (o : LoweringOptions) (a : Analysis) : UiDocument :=
  ⟨(a.procedures.filter fun p => p.effects.isUi).map (o.uiAction a)⟩

/-- The three documents of an analyzed batch. -/
def documents (o : LoweringOptions) (a : Analysis) : Documents :=
  ⟨o.entities a, o.backend a, o.ui a⟩

end LoweringOptions

end PascalAtlas
