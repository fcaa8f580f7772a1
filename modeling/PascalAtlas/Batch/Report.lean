import PascalAtlas.Batch
import PascalAtlas.Document.Json

/-!
# The report of a batch

A **report** is a document that tells what became of each file, what was wrong with the batch as a
whole, and how much came out of it. Beside the three documents it is what a run leaves behind.
-/

namespace PascalAtlas

namespace FilePath

/-- A path as reports write it: with slashes only. -/
def forReport (p : FilePath) : Json :=
  .text (Text.replaceChar '\\' ['/'] p.spelling)

end FilePath

/-- What is said about an error in a source. -/
def SourceError.report (e : SourceError) : Json :=
  .str ("parse error: " ++ e.message)

/-- What is reported about a unit. -/
def BatchUnit.report (u : BatchUnit) : Json :=
  .obj ([
    ("name", .text u.built.unit.name),
    ("path", u.path.forReport),
    ("strategy", .str u.built.strategy.name),
    ("classes", .nat u.built.unit.classes.length),
    ("procedures", .nat u.built.unit.routines.length)]
    ++ Json.nonemptyMember "parseErrors" SourceError.report u.built.errors)

/-- What is reported about a failure. -/
def UnitFailure.report (f : UnitFailure) : Json :=
  .obj [("path", f.path.forReport), ("unit", .text f.unit), ("message", .text f.cause.message)]

/-- What is reported about the batch as a whole. -/
def BatchDiagnostic.report (d : BatchDiagnostic) : Json :=
  .obj [("code", .str d.code), ("message", .text d.message)]

namespace BatchOutcome

/-- How much came out of a batch. -/
def counts (o : BatchOutcome) : Json :=
  let actions := o.documents.ui.actions
  .obj [
    ("units", .nat o.units.length),
    ("failures", .nat o.failures.length),
    ("entities", .nat o.documents.entities.entities.length),
    ("backendProcedures", .nat o.documents.backend.procedures.length),
    ("uiActions", .nat actions.length),
    ("unboundUiActions", .nat (actions.filter fun a => !a.backendCall.isBound).length)]

/-- The **report**. -/
def report (o : BatchOutcome) : Json :=
  .obj [
    ("schema", .str "pasport.batch-report.v1"),
    ("ok", .bool o.isOk),
    ("units", .ofList BatchUnit.report o.units),
    ("failures", .ofList UnitFailure.report o.failures),
    ("diagnostics", .ofList BatchDiagnostic.report o.diagnostics),
    ("counts", o.counts)]

/-- The **files** that a run leaves in a directory, in the order of writing. -/
def files (o : BatchOutcome) (dir : FilePath) (withReport : Bool) : List (FilePath × Text) :=
  let documents := [
    ("entities.json", o.documents.entities.toJson),
    ("backend.json", o.documents.backend.toJson),
    ("ui.json", o.documents.ui.toJson)]
  let all := documents ++ if withReport then [("report.json", o.report)] else []
  all.map fun (name, json) => (dir.join (.ofName name), json.toText.toList)

end BatchOutcome

end PascalAtlas
