import PascalAtlas.Text.Blank

/-!
# Parameter lists

A formal parameter list is groups separated by `;`, each with names separated by `,` and a type
after the first `:`. Reading gives every name its own **parameter**; modifiers and default values
are dropped. Writing puts every parameter into a group of its own.
-/

namespace PascalAtlas

/-- A parameter: its name and its type, which is empty if none is declared. -/
structure Param where
  name : Text
  typeName : Text
  deriving DecidableEq

namespace Param

/-- The words that say how a parameter is passed. -/
def modifiers : List Text :=
  ["var", "const", "out", "constref"].map String.toList

/-- A group without its leading **modifier**. A word followed by `:` or `,` is a parameter's name,
not a modifier. -/
def dropModifier (group : Text) : Text :=
  match Text.cutAt? Text.isBlank group with
  | none => group
  | some (first, rest) =>
    let rest := Text.trimStart rest
    let named :=
      match rest with
      | ':' :: _ | ',' :: _ => true
      | _ => false
    if !named && Text.isOneOf first modifiers then rest else group

/-- A type without the default value after `=`. -/
def dropDefault (type : Text) : Text :=
  match Text.cutAt? (· == '=') type with
  | some (type, _) => Text.trim type
  | none => Text.trim type

/-- The parameters of one group. -/
def ofGroup (group : Text) : List Param :=
  let group := dropModifier (Text.trim group)
  let (names, type) :=
    match Text.cutAt? (· == ':') group with
    | some (names, type) => (names, dropDefault type)
    | none => (group, [])
  let names := (Text.splitBy (· == ',') names).map Text.trim
  (names.filter fun name => !name.isEmpty).map fun name => ⟨name, type⟩

/-- The parameters of a **parameter list**. -/
def parseList (raw : Text) : List Param :=
  (Text.splitBy (· == ';') raw).flatMap ofGroup

/-- One parameter as a group of its own. -/
def render (p : Param) : Text :=
  if p.typeName.isEmpty then p.name else p.name ++ " : ".toList ++ p.typeName

/-- Parameters written as a parameter list. -/
def renderList (params : List Param) : Text :=
  Text.join "; ".toList (params.map render)

end Param

end PascalAtlas
