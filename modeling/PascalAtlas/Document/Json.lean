import PascalAtlas.Document
import PascalAtlas.Json

/-!
# Documents as JSON

How the three documents are written and read. Every member is always written, so reading what was
written gives the same document back.
-/

namespace PascalAtlas

open Json (ofList)

namespace TypedName

/-- A typed name as JSON. -/
def toJson (t : TypedName) : Json :=
  .obj [("name", .text t.name), ("type", .text t.typeName)]

/-- Reads a typed name. -/
def ofJson? (j : Json) : Option TypedName := do
  let r ← j.record? 2
  let name ← r.required 0 "name" Json.string?
  let typeName ← r.required 1 "type" Json.string?
  return ⟨name, typeName⟩

end TypedName

/-! ## Entities -/

namespace Entity

/-- An entity as JSON. -/
def toJson (e : Entity) : Json :=
  .obj [("name", .text e.name), ("fields", ofList TypedName.toJson e.fields)]

/-- Reads an entity. -/
def ofJson? (j : Json) : Option Entity := do
  let r ← j.record? 2
  let name ← r.required 0 "name" Json.string?
  let fields ← r.required 1 "fields" (Json.list? TypedName.ofJson?)
  return ⟨name, fields⟩

end Entity

namespace EntityDocument

/-- The document of entities as JSON. -/
def toJson (d : EntityDocument) : Json :=
  .obj [("entities", ofList Entity.toJson d.entities)]

/-- Reads a document of entities. -/
def ofJson? (j : Json) : Option EntityDocument := do
  let r ← j.record? 1
  let entities ← r.required 0 "entities" (Json.list? Entity.ofJson?)
  return ⟨entities⟩

end EntityDocument

/-! ## Backend -/

namespace BackendProcedure

/-- A procedure of the backend as JSON. -/
def toJson (p : BackendProcedure) : Json :=
  .obj [("name", .text p.name), ("params", ofList TypedName.toJson p.params),
    ("actions", ofList Json.text p.actions)]

/-- Reads a procedure of the backend. -/
def ofJson? (j : Json) : Option BackendProcedure := do
  let r ← j.record? 3
  let name ← r.required 0 "name" Json.string?
  let params ← r.required 1 "params" (Json.list? TypedName.ofJson?)
  let actions ← r.required 2 "actions" (Json.list? Json.string?)
  return ⟨name, params, actions⟩

end BackendProcedure

namespace BackendDocument

/-- The document of the backend as JSON. -/
def toJson (d : BackendDocument) : Json :=
  .obj [("procedures", ofList BackendProcedure.toJson d.procedures)]

/-- Reads a document of the backend. -/
def ofJson? (j : Json) : Option BackendDocument := do
  let r ← j.record? 1
  let procedures ← r.required 0 "procedures" (Json.list? BackendProcedure.ofJson?)
  return ⟨procedures⟩

end BackendDocument

/-! ## User interface -/

namespace CallArgument

/-- An argument as JSON. -/
def toJson (a : CallArgument) : Json :=
  .obj [("type", .text a.typeName), ("source", .text a.source)]

/-- Reads an argument. -/
def ofJson? (j : Json) : Option CallArgument := do
  let r ← j.record? 2
  let typeName ← r.required 0 "type" Json.string?
  let source ← r.required 1 "source" Json.string?
  return ⟨typeName, source⟩

end CallArgument

namespace BackendCall

/-- A call as JSON. -/
def toJson (c : BackendCall) : Json :=
  .obj [("procedure", .text c.procedure), ("arguments", ofList CallArgument.toJson c.arguments)]

/-- Reads a call. -/
def ofJson? (j : Json) : Option BackendCall := do
  let r ← j.record? 2
  let procedure ← r.required 0 "procedure" Json.string?
  let arguments ← r.required 1 "arguments" (Json.list? CallArgument.ofJson?)
  return ⟨procedure, arguments⟩

end BackendCall

namespace Form

/-- A form as JSON. -/
def toJson (f : Form) : Json :=
  .obj [("entity", .text f.entity), ("fields", ofList TypedName.toJson f.fields)]

/-- Reads a form. -/
def ofJson? (j : Json) : Option Form := do
  let r ← j.record? 2
  let entity ← r.required 0 "entity" Json.string?
  let fields ← r.required 1 "fields" (Json.list? TypedName.ofJson?)
  return ⟨entity, fields⟩

end Form

namespace UiAction

/-- An action as JSON. -/
def toJson (a : UiAction) : Json :=
  .obj [("name", .text a.name), ("kind", .text a.kind), ("form", a.form.toJson),
    ("backendCall", a.backendCall.toJson)]

/-- Reads an action. -/
def ofJson? (j : Json) : Option UiAction := do
  let r ← j.record? 4
  let name ← r.required 0 "name" Json.string?
  let kind ← r.required 1 "kind" Json.string?
  let form ← r.required 2 "form" Form.ofJson?
  let backendCall ← r.required 3 "backendCall" BackendCall.ofJson?
  return ⟨name, kind, form, backendCall⟩

end UiAction

namespace UiDocument

/-- The document of the user interface as JSON. -/
def toJson (d : UiDocument) : Json :=
  .obj [("uiActions", ofList UiAction.toJson d.actions)]

/-- Reads a document of the user interface. -/
def ofJson? (j : Json) : Option UiDocument := do
  let r ← j.record? 1
  let actions ← r.required 0 "uiActions" (Json.list? UiAction.ofJson?)
  return ⟨actions⟩

end UiDocument

end PascalAtlas
