import PascalAtlas.FilePath
import PascalAtlas.Frontend
import PascalAtlas.Lowering
import PascalAtlas.Settings

/-!
# Configuration

A **configuration** is what a run depends on besides its sources. Settings change the defaults:
rules, types and actions are added to, lists are replaced. A marker must not be empty, because an
empty one would be found in every body, and a list of extensions must name at least one.
-/

namespace PascalAtlas

/-- The place of a setting that must not be empty. -/
inductive MarkerPlace where
  | writes
  | creates
  | ui
  deriving DecidableEq

/-- The name of a place. -/
def MarkerPlace.name : MarkerPlace → String
  | .writes => "effects.writes.marker"
  | .creates => "effects.creates.marker"
  | .ui => "effects.ui_markers"

/-- Why settings cannot be used. -/
inductive SettingError where
  | strategy (error : StrategyError)
  | noExtension
  | emptyMarker (place : MarkerPlace)
  deriving DecidableEq

/-- What is said about such settings. -/
def SettingError.message : SettingError → String
  | .strategy e => e.message
  | .noExtension => "frontend.extensions must name at least one extension"
  | .emptyMarker place => place.name ++ " must not be empty"

/-- Why there is no configuration. -/
inductive ConfigError where
  /-- The file cannot be read as text. -/
  | unreadable (path : FilePath)
  /-- The text is no TOML document. -/
  | noDocument
  | schema (error : SchemaError)
  | setting (error : SettingError)

/-- What is said about it. -/
def ConfigError.message : ConfigError → String
  | .unreadable path => "failed to read " ++ String.ofList path.spelling
  | .noDocument => "not a TOML document"
  | .schema e => e.message
  | .setting e => e.message

/-- What a run depends on besides its sources. -/
structure Config where
  configPath : Option FilePath := none
  projectRoot : FilePath
  strategy : Strategy := .auto
  /-- The extensions of source files, without the dot and in small letters. -/
  extensions : List Text := ["pas".toList]
  rules : List EffectRule := EffectRule.defaults
  lowering : LoweringOptions := {}
  outputDir : FilePath
  deriving DecidableEq

namespace Config

/-- The configuration of a project without settings. -/
def defaults (projectRoot : FilePath) : Config :=
  { projectRoot, outputDir := projectRoot.join (.ofName "ir") }

/-- Whether a file is a source by its **extension**, ignoring ASCII case. -/
def accepts (c : Config) (p : FilePath) : Bool :=
  p.extension?.any fun e => c.extensions.any (Text.eqIgnoreCase e)

/-! ## From settings to configuration -/

/-- An extension as it is compared: without blanks around it and dots before it. -/
def cleanExtension (t : Text) : Text :=
  Text.lower ((Text.trim t).dropWhile (· == '.'))

/-- The strategy of some settings. -/
def strategyOf (s : Settings) : Except SettingError Strategy :=
  match s.strategy with
  | none => .ok .auto
  | some word => (Strategy.ofText word).mapError .strategy

/-- The extensions of some settings. -/
def extensionsOf (s : Settings) : Except SettingError (List Text) :=
  match s.extensions with
  | none => .ok ["pas".toList]
  | some given =>
    let named := (given.map cleanExtension).filter fun e => !e.isEmpty
    if named.isEmpty then .error .noExtension else .ok named

/-- The rules that some markers of one kind give. -/
def markerRules (place : MarkerPlace) (rule : Text → Text → EffectRule)
    (given : List MarkerSetting) :
    Except SettingError (List EffectRule) :=
  given.mapM fun m => if m.marker.isEmpty then .error (.emptyMarker place)
    else .ok (rule m.marker m.target)

/-- The rule that the markers of the user interface give, if there are any. -/
def uiRule (markers : List Text) : Except SettingError (List EffectRule) :=
  if markers.isEmpty then .ok []
  else if markers.any List.isEmpty then .error (.emptyMarker .ui)
  else .ok [.ui markers]

/-- The **rules** of some settings: the defaults, then those that were given. -/
def rulesOf (s : Settings) : Except SettingError (List EffectRule) := do
  let writes ← markerRules .writes .write s.writes
  let creates ← markerRules .creates .create s.creates
  let ui ← uiRule s.uiMarkers
  return EffectRule.defaults ++ writes ++ creates ++ ui

/-- The options for lowering of some settings. -/
def loweringOf (s : Settings) : LoweringOptions :=
  let base : LoweringOptions := {}
  { exclusions := s.exclusions.getD base.exclusions
    typeMap := base.typeMap.insertAll s.types
    actions := base.actions.insertAll s.actions
    identityFields := s.identityFields.getD base.identityFields }

/-- The configuration for some **settings** of a project. -/
def ofSettings (projectRoot : FilePath) (s : Settings) : Except SettingError Config := do
  let strategy ← strategyOf s
  let extensions ← extensionsOf s
  let rules ← rulesOf s
  return {
    projectRoot, strategy, extensions, rules
    lowering := loweringOf s
    outputDir := projectRoot.join ⟨s.outputDir.getD "ir".toList⟩ }

/-- The configuration for the **text** of a configuration file. -/
def ofText (projectRoot : FilePath) (t : Text) : Except ConfigError Config :=
  match Toml.ofText? t with
  | none => .error .noDocument
  | some document =>
    match Settings.ofDocument document with
    | .error e => .error (.schema e)
    | .ok settings => (ofSettings projectRoot settings).mapError .setting

end Config

end PascalAtlas
