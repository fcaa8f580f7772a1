import PascalAtlas.Text.Quoted
import PascalAtlas.Toml.Document

/-!
# Settings

What a configuration file says, before anything is made of it. The file must fit a fixed **schema**:
six sections, each with the fields below and no others. A section or a rule is a table with the
fields by name, or an array with the fields in order. The first thing that does not fit is the
error; that a field is missing shows only at the end of its table.
-/

namespace PascalAtlas

/-! ## The settings -/

/-- A marker for a resource that is written, or for a class of which an object is created. -/
structure MarkerSetting where
  marker : Text := []
  target : Text := []
  deriving DecidableEq

/-- What a configuration file says. A list that is `none` was not given. -/
structure Settings where
  strategy : Option Text := none
  extensions : Option (List Text) := none
  writes : List MarkerSetting := []
  creates : List MarkerSetting := []
  uiMarkers : List Text := []
  exclusions : Option (List Text) := none
  types : List (Text × Text) := []
  actions : List (Text × List Text) := []
  identityFields : Option (List Text) := none
  outputDir : Option Text := none
  deriving DecidableEq

/-! ## What does not fit -/

/-- What should have been there. -/
inductive SchemaShape where
  | string
  | sequence
  | map
  | record (name : String)
  deriving DecidableEq

/-- What is said about a shape. -/
def SchemaShape.describe : SchemaShape → String
  | .string => "a string"
  | .sequence => "a sequence"
  | .map => "a map"
  | .record name => "struct " ++ name

/-- What does not fit the schema. -/
inductive SchemaError where
  | unknownField (name : Text) (known : List String)
  | missingField (name : String)
  | wrongType (found : Toml) (expected : SchemaShape)
  /-- An array that is too short for a record with a number of fields. -/
  | tooShort (length : Nat) (record : String) (size : Nat)

namespace SchemaError

/-- A name between backticks. -/
def named (name : String) : String :=
  "`" ++ name ++ "`"

/-- The names of the fields that are allowed. -/
def choices : List String → String
  | [a] => named a
  | [a, b] => named a ++ " or " ++ named b
  | names => "one of " ++ String.intercalate ", " (names.map named)

/-- What is said about a value of the wrong type. -/
def describe : Toml → String
  | .str value => "string " ++ Text.quoted value
  | .int value => "integer " ++ named (toString value)
  | .float value => "floating point " ++ named (String.ofList value.toText)
  | .bool value => "boolean " ++ named (if value then "true" else "false")
  | .arr _ => "sequence"
  | .date _ | .table _ => "map"

/-- What is said about an error. -/
def message : SchemaError → String
  | .unknownField name known =>
    "unknown field " ++ named (String.ofList name) ++ ", expected " ++ choices known
  | .missingField name => "missing field " ++ named name
  | .wrongType found expected =>
    "invalid type: " ++ describe found ++ ", expected " ++ expected.describe
  | .tooShort length record size =>
    "invalid length " ++ toString length ++ ", expected struct " ++ record ++ " with "
      ++ toString size ++ (if size = 1 then " element" else " elements")

end SchemaError

/-! ## Reading values -/

/-- A way of reading a value. -/
abbrev SchemaReader (α : Type) := Toml → Except SchemaError α

namespace Toml

/-- The error for a value that should have had a shape. -/
def misfit {α : Type} (v : Toml) (shape : SchemaShape) : Except SchemaError α :=
  .error (.wrongType v shape)

/-- The name under which a date is the only entry of a table. -/
def dateKey : Text :=
  "$__toml_private_datetime".toList

/-- The entries of a value that counts as a table. -/
def entries? : Toml → Option (List (Text × Toml))
  | .table entries => some entries
  | .date written => some [(dateKey, .str written)]
  | _ => none

/-- Reads a string. -/
def asString : SchemaReader Text
  | .str value => .ok value
  | v => v.misfit .string

/-- Reads a list. -/
def asList {α : Type} (item : SchemaReader α) : SchemaReader (List α)
  | .arr items => items.mapM item
  | v => v.misfit .sequence

/-- Reads a table with any keys. -/
def asMap {α : Type} (item : SchemaReader α) : SchemaReader (List (Text × α)) := fun v =>
  match v.entries? with
  | some entries => entries.mapM fun (key, v) => (item v).map (key, ·)
  | none => v.misfit .map

end Toml

/-! ## Reading records -/

/-- When a field may be left out. -/
inductive Presence where
  | required
  /-- It may be left out of a table, but it has a place in an array. -/
  | optional
  | defaulted
  deriving DecidableEq

/-- A **field** of a record: its name and what reading it adds to the record. -/
structure SchemaField (σ : Type) where
  name : String
  presence : Presence
  read : Toml → σ → Except SchemaError σ

namespace SchemaField

variable {σ : Type}

/-- Reads the entries of a table. -/
def readEntries (fields : List (SchemaField σ)) (s : σ) (entries : List (Text × Toml)) :
    Except SchemaError σ := do
  let s ← entries.foldlM (fun s (key, v) =>
    match fields.find? fun f => f.name.toList == key with
    | some f => f.read v s
    | none => .error (.unknownField key (fields.map (·.name)))) s
  let missing := fields.find? fun f =>
    f.presence = .required && entries.all fun (key, _) => key != f.name.toList
  match missing with
  | some f => .error (.missingField f.name)
  | none => .ok s

/-- Reads the items of an array from a place on. Items after the last field do not count. -/
def readItems (record : String) (size : Nat) :
    Nat → List (SchemaField σ) → List Toml → σ → Except SchemaError σ
  | _, [], _, s => .ok s
  | place, f :: fields, [], s =>
    if f.presence = .defaulted then readItems record size (place + 1) fields [] s
    else .error (.tooShort place record size)
  | place, f :: fields, v :: items, s => do
    readItems record size (place + 1) fields items (← f.read v s)

/-- Reads a **record**. -/
def readRecord (record : String) (fields : List (SchemaField σ)) (v : Toml) (s : σ) :
    Except SchemaError σ :=
  match v with
  | .arr items => readItems record fields.length 0 fields items s
  | _ =>
    match v.entries? with
    | some entries => readEntries fields s entries
    | none => v.misfit (.record record)

/-- A field that is read by itself and then put into the record. -/
def of {α : Type} (name : String) (presence : Presence) (reader : SchemaReader α)
    (put : α → σ → σ) :
    SchemaField σ :=
  ⟨name, presence, fun v s => (reader v).map (put · s)⟩

end SchemaField

/-! ## The schema -/

namespace Settings

open SchemaField

/-- The fields of a marker, whose second one is named for what it marks. -/
def markerFields (target : String) : List (SchemaField MarkerSetting) :=
  [.of "marker" .required Toml.asString fun t m => { m with marker := t },
   .of target .required Toml.asString fun t m => { m with target := t }]

/-- A list of markers. -/
def asMarkers (record target : String) : SchemaReader (List MarkerSetting) :=
  Toml.asList fun v => readRecord record (markerFields target) v {}

/-- The section on sources. -/
def frontendFields : List (SchemaField Settings) :=
  [.of "strategy" .optional Toml.asString fun t s => { s with strategy := some t },
    .of "extensions" .optional (Toml.asList Toml.asString) fun ts s =>
    { s with extensions := some ts }]

/-- The section on effects. -/
def effectFields : List (SchemaField Settings) :=
  [.of "writes" .defaulted (asMarkers "RawWrite" "resource") fun ms s => { s with writes := ms },
   .of "creates" .defaulted (asMarkers "RawCreate" "class") fun ms s => { s with creates := ms },
   .of "ui_markers" .defaulted (Toml.asList Toml.asString) fun ts s => { s with uiMarkers := ts }]

/-- The section on entities. -/
def entityFields : List (SchemaField Settings) :=
  [.of "exclusions" .optional (Toml.asList Toml.asString)
    fun ts s => { s with exclusions := some ts }, .of "types" .defaulted (Toml.asMap Toml.asString)
    fun ts s => { s with types := ts }]

/-- The section on the backend. -/
def backendFields : List (SchemaField Settings) :=
  [.of "actions" .defaulted (Toml.asMap (Toml.asList Toml.asString)) fun as s =>
    { s with actions := as }]

/-- The section on the user interface. -/
def uiFields : List (SchemaField Settings) :=
  [.of "identity_fields" .optional (Toml.asList Toml.asString) fun ts s =>
    { s with identityFields := some ts }]

/-- The section on the output. -/
def outputFields : List (SchemaField Settings) :=
  [.of "dir" .optional Toml.asString fun t s => { s with outputDir := some t }]

/-- All sections. -/
def sections : List (SchemaField Settings) :=
  [⟨"frontend", .defaulted, readRecord "RawFrontend" frontendFields⟩,
   ⟨"effects", .defaulted, readRecord "RawEffects" effectFields⟩,
   ⟨"entities", .defaulted, readRecord "RawEntities" entityFields⟩,
   ⟨"backend", .defaulted, readRecord "RawBackend" backendFields⟩,
   ⟨"ui", .defaulted, readRecord "RawUi" uiFields⟩,
   ⟨"output", .defaulted, readRecord "RawOutput" outputFields⟩]

/-- The **settings** of a document. -/
def ofDocument (entries : List (Text × Toml)) : Except SchemaError Settings :=
  readEntries sections {} entries

end Settings

end PascalAtlas
