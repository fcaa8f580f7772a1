import PascalAtlas.Json
import PascalAtlas.SourceUnit

/-!
# Units as JSON

How units and their parts are written and read. Lists that are empty and values that are absent are
left out where the reader has a default for them, so reading what was written gives the same value
back.

A statement is one object: the member `kind` tells what it is, its parts follow, and
its extent comes last.
-/

namespace PascalAtlas

open Json (ofList optionalMember nonemptyMember)

/-! ## Positions -/

namespace Position

/-- A position as JSON. -/
def toJson (p : Position) : Json :=
  .obj [("line", .nat p.line.toNat), ("column", .nat p.column.toNat)]

/-- Reads a position. -/
def ofJson? (j : Json) : Option Position := do
  let r ← j.record? 2
  let line ← r.required 0 "line" Json.word?
  let column ← r.required 1 "column" Json.word?
  return ⟨line, column⟩

end Position

namespace Extent

/-- An extent as JSON. -/
def toJson (e : Extent) : Json :=
  .obj [("start", e.start.toJson), ("end", e.stop.toJson)]

/-- Reads an extent. -/
def ofJson? (j : Json) : Option Extent := do
  let r ← j.record? 2
  let start ← r.required 0 "start" Position.ofJson?
  let stop ← r.required 1 "end" Position.ofJson?
  return ⟨start, stop⟩

end Extent

/-! ## Statements -/

namespace BlockShape

/-- The members that say what a block is: its kind and its header. -/
def members : BlockShape → List (String × Json)
  | .compound => [("kind", .str "compound")]
  | .conditional t => [("kind", .str "if"), ("condition", .text t)]
  | .whileLoop t => [("kind", .str "while"), ("condition", .text t)]
  | .forLoop t => [("kind", .str "for"), ("header", .text t)]
  | .withScope t => [("kind", .str "with"), ("subject", .text t)]
  | .protected_ => [("kind", .str "try")]
  | .selection t => [("kind", .str "case"), ("selector", .text t)]
  | .repeatLoop t => [("kind", .str "repeat"), ("condition", .text t)]

end BlockShape

namespace SimpleForm

/-- The members of a simple statement. -/
def members : SimpleForm → List (String × Json)
  | .assign target value =>
    [("kind", .str "assign"), ("target", .text target), ("value", .text value)]
  | .call callee arguments =>
    [("kind", .str "call"), ("callee", .text callee), ("arguments", .text arguments)]
  | .other text => [("kind", .str "other"), ("text", .text text)]

end SimpleForm

namespace Statement

mutual

/-- A statement as JSON. -/
def toJson : Statement → Json
  | .block shape body extent =>
    .obj (shape.members ++ [("body", .arr (toJsonAll body)), ("span", extent.toJson)])
  | .simple form extent => .obj (form.members ++ [("span", extent.toJson)])

/-- Some statements as JSON. -/
def toJsonAll : List Statement → List Json
  | [] => []
  | s :: ss => s.toJson :: toJsonAll ss

end

/-- The words for the kinds of statements. A kind is given by its word or by its place here. -/
def kindWords : List String :=
  ["compound", "if", "while", "for", "with", "try", "case", "repeat", "assign", "call", "other"]

/-- The word for the kind of a statement. -/
def kindWord? : Json → Option String
  | .str s => some s
  | .nat n => kindWords[n]?
  | _ => none

/-- A text member that a statement must have. -/
def textMember? (members : List (String × Json)) (key : String) : Option Text :=
  (Json.lookup key members).bind Json.string?

/-- The shape of a block of a kind. -/
def shape? (members : List (String × Json)) (kind : String) : Option BlockShape :=
  let text := textMember? members
  match kind with
  | "compound" => some .compound
  | "if" => (text "condition").map .conditional
  | "while" => (text "condition").map .whileLoop
  | "for" => (text "header").map .forLoop
  | "with" => (text "subject").map .withScope
  | "try" => some .protected_
  | "case" => (text "selector").map .selection
  | "repeat" => (text "condition").map .repeatLoop
  | _ => none

/-- The form of a simple statement of a kind. -/
def form? (members : List (String × Json)) (kind : String) : Option SimpleForm :=
  let text := textMember? members
  match kind with
  | "assign" => do return .assign (← text "target") (← text "value")
  | "call" => do return .call (← text "callee") (← text "arguments")
  | "other" => do return .other (← text "text")
  | _ => none

/-- The statement that some members describe, given the statements of its body. -/
def ofMembers? (members : List (String × Json)) (body : Option (List Statement)) :
    Option Statement := do
  let kind ← (Json.lookup "kind" members).bind kindWord?
  let extent ←
    match Json.lookup "span" members with
    | none => some {}
    | some j => Extent.ofJson? j
  match form? members kind with
  | some form => return .simple form extent
  | none => return .block (← shape? members kind) (← body) extent

mutual

/-- Reads a statement. -/
def ofJson? : Json → Option Statement
  | .obj members => ofMembers? members (bodyOf? members)
  | _ => none

/-- The statements under the first member `body`. -/
def bodyOf? : List (String × Json) → Option (List Statement)
  | [] => none
  | (key, value) :: members => if key = "body" then listOf? value else bodyOf? members

/-- Reads a list of statements. -/
def listOf? : Json → Option (List Statement)
  | .arr items => allOf? items
  | _ => none

/-- Reads statements one after the other. -/
def allOf? : List Json → Option (List Statement)
  | [] => some []
  | item :: items =>
    match ofJson? item, allOf? items with
    | some s, some ss => some (s :: ss)
    | _, _ => none

end

end Statement

/-! ## Routines and classes -/

namespace Param

/-- A parameter as JSON. -/
def toJson (p : Param) : Json :=
  .obj [("name", .text p.name), ("typeName", .text p.typeName)]

/-- Reads a parameter. -/
def ofJson? (j : Json) : Option Param := do
  let r ← j.record? 2
  let name ← r.required 0 "name" Json.string?
  let typeName ← r.required 1 "typeName" Json.string?
  return ⟨name, typeName⟩

end Param

namespace RoutineKind

/-- A kind of routine as JSON. -/
def toJson (k : RoutineKind) : Json :=
  .str k.word

/-- The kind of routine with this very word. -/
def ofExactWord? (s : String) : Option RoutineKind :=
  [procedure, function, constructor, destructor].find? fun k => k.word == s

/-- Reads a kind of routine: its word, or an object with the word as its only key and `null`
under it. -/
def ofJson? : Json → Option RoutineKind
  | .str s => ofExactWord? s
  | .obj [(s, .null)] => ofExactWord? s
  | _ => none

end RoutineKind

namespace Routine

/-- A routine as JSON. -/
def toJson (r : Routine) : Json :=
  .obj (
    [("name", .text r.name), ("kind", r.kind.toJson),
     ("parameters", ofList Param.toJson r.parameters), ("returnType", .text r.returnType),
     ("hasBody", .bool r.hasBody), ("body", .text r.body)]
    ++ nonemptyMember "statements" Statement.toJson r.statements
    ++ [("span", r.extent.toJson)])

/-- Reads a routine. -/
def ofJson? (j : Json) : Option Routine := do
  let r ← j.record? 8
  let name ← r.required 0 "name" Json.string?
  let kind ← r.required 1 "kind" RoutineKind.ofJson?
  let parameters ← r.required 2 "parameters" (Json.list? Param.ofJson?)
  let returnType ← r.required 3 "returnType" Json.string?
  let hasBody ← r.required 4 "hasBody" Json.bool?
  let body ← r.required 5 "body" Json.string?
  let statements ← r.defaulted 6 "statements" [] (Json.list? Statement.ofJson?)
  let extent ← r.defaulted 7 "span" {} Extent.ofJson?
  return { name, kind, parameters, returnType, hasBody, body, statements, extent }

end Routine

namespace FieldDecl

/-- A field as JSON. -/
def toJson (f : FieldDecl) : Json :=
  .obj [("name", .text f.name), ("typeName", .text f.typeName), ("span", f.extent.toJson)]

/-- Reads a field. -/
def ofJson? (j : Json) : Option FieldDecl := do
  let r ← j.record? 3
  let name ← r.required 0 "name" Json.string?
  let typeName ← r.required 1 "typeName" Json.string?
  let extent ← r.defaulted 2 "span" {} Extent.ofJson?
  return { name, typeName, extent }

end FieldDecl

namespace PropertyDecl

/-- A property as JSON. -/
def toJson (p : PropertyDecl) : Json :=
  .obj (
    [("name", .text p.name), ("typeName", .text p.typeName)]
    ++ optionalMember "read" Json.text p.read
    ++ optionalMember "write" Json.text p.write)

/-- Reads a property. -/
def ofJson? (j : Json) : Option PropertyDecl := do
  let r ← j.record? 4
  let name ← r.required 0 "name" Json.string?
  let typeName ← r.required 1 "typeName" Json.string?
  let read ← r.defaulted 2 "read" none (Json.nullable? Json.string?)
  let write ← r.defaulted 3 "write" none (Json.nullable? Json.string?)
  return { name, typeName, read, write }

end PropertyDecl

namespace ClassDecl

/-- A class as JSON. -/
def toJson (c : ClassDecl) : Json :=
  .obj (
    [("name", .text c.name)]
    ++ optionalMember "ancestor" Json.text c.ancestor
    ++ [("isRecord", .bool c.isRecord), ("fields", ofList FieldDecl.toJson c.fields)]
    ++ nonemptyMember "properties" PropertyDecl.toJson c.properties
    ++ [("methods", ofList Routine.toJson c.methods), ("span", c.extent.toJson)])

/-- Reads a class. -/
def ofJson? (j : Json) : Option ClassDecl := do
  let r ← j.record? 7
  let name ← r.required 0 "name" Json.string?
  let ancestor ← r.defaulted 1 "ancestor" none (Json.nullable? Json.string?)
  let isRecord ← r.defaulted 2 "isRecord" false Json.bool?
  let fields ← r.required 3 "fields" (Json.list? FieldDecl.ofJson?)
  let properties ← r.defaulted 4 "properties" [] (Json.list? PropertyDecl.ofJson?)
  let methods ← r.required 5 "methods" (Json.list? Routine.ofJson?)
  let extent ← r.defaulted 6 "span" {} Extent.ofJson?
  return { name, ancestor, isRecord, fields, properties, methods, extent }

end ClassDecl

/-! ## Units -/

namespace SourceUnit

/-- A unit as JSON. -/
def toJson (u : SourceUnit) : Json :=
  .obj (
    [("name", .text u.name)]
    ++ nonemptyMember "uses" Json.text u.uses
    ++ [("classes", ofList ClassDecl.toJson u.classes),
        ("procedures", ofList Routine.toJson u.procedures)])

/-- Reads a unit. -/
def ofJson? (j : Json) : Option SourceUnit := do
  let r ← j.record? 4
  let name ← r.required 0 "name" Json.string?
  let uses ← r.defaulted 1 "uses" [] (Json.list? Json.string?)
  let classes ← r.required 2 "classes" (Json.list? ClassDecl.ofJson?)
  let procedures ← r.required 3 "procedures" (Json.list? Routine.ofJson?)
  return { name, uses, classes, procedures }

end SourceUnit

end PascalAtlas
