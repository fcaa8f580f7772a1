import PascalAtlas.Text

/-!
# Documents

The three documents that describe an application to a generator: its **entities**, the procedures of
its **backend**, and the actions of its **user interface**. They refer to one another by name.
-/

namespace PascalAtlas

/-- A name with a type: a field or a parameter. -/
structure TypedName where
  name : Text
  typeName : Text
  deriving DecidableEq

/-! ## Entities -/

/-- A kind of thing that the application stores. -/
structure Entity where
  name : Text
  fields : List TypedName
  deriving DecidableEq

/-- The document of entities. -/
structure EntityDocument where
  entities : List Entity := []
  deriving DecidableEq

/-- The first entity with a name. -/
def EntityDocument.entity? (d : EntityDocument) (name : Text) : Option Entity :=
  d.entities.find? fun e => e.name = name

/-! ## Backend -/

/-- A procedure that changes stored data, with the actions it takes. -/
structure BackendProcedure where
  name : Text
  params : List TypedName
  actions : List Text
  deriving DecidableEq

/-- The document of the backend. -/
structure BackendDocument where
  procedures : List BackendProcedure := []
  deriving DecidableEq

/-- The first procedure with a name. -/
def BackendDocument.procedure? (d : BackendDocument) (name : Text) : Option BackendProcedure :=
  d.procedures.find? fun p => p.name = name

/-! ## User interface -/

/-- What stands where a name is not known. -/
def unknown : Text :=
  "Unknown".toList

/-- An argument of a call: its type and where its value comes from. -/
structure CallArgument where
  typeName : Text
  source : Text
  deriving DecidableEq

/-- A call of a procedure of the backend. -/
structure BackendCall where
  procedure : Text
  arguments : List CallArgument
  deriving DecidableEq

/-- Whether a call names a procedure. -/
def BackendCall.isBound (c : BackendCall) : Bool :=
  !c.procedure.isEmpty && c.procedure != unknown

/-- The form that an action fills in. -/
structure Form where
  entity : Text
  fields : List TypedName
  deriving DecidableEq

/-- An action of the user interface. -/
structure UiAction where
  name : Text
  kind : Text
  form : Form
  backendCall : BackendCall
  deriving DecidableEq

/-- The document of the user interface. -/
structure UiDocument where
  actions : List UiAction := []
  deriving DecidableEq

/-- The three documents. -/
structure Documents where
  entities : EntityDocument := {}
  backend : BackendDocument := {}
  ui : UiDocument := {}
  deriving DecidableEq

end PascalAtlas
