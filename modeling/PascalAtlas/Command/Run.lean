import PascalAtlas.Batch.Report
import PascalAtlas.Command
import PascalAtlas.Config.Find
import PascalAtlas.SourceUnit.Json

/-!
# Running a command

A command reads files, prints, and writes files. The **exit code** is 0 for success, 2 for a usage
error and 1 for any other failure; a source on which the front end gives up when it is the only one
ends the program with 101.
-/

namespace PascalAtlas

/-- What comes of a command. -/
structure Reply where
  code : UInt8 := 0
  output : Text := []
  /-- What is said about a failure. -/
  problem : Option String := none
  /-- The files that the command writes, in order, up to the first that cannot be written. -/
  files : List (FilePath × Text) := []
  /-- The files afterwards. -/
  system : FileSystem

/-- The reply that something failed. -/
def Reply.failed (fs : FileSystem) (problem : String) : Reply :=
  { code := 1, problem := some problem, system := fs }

/-- What is said if no unit was kept. -/
def Reply.noUnit : String :=
  "no unit was processed successfully"

namespace Command

/-- The version of this program. -/
def versionLine : Text :=
  "pasport 0.1.0\n".toList

/-- The configuration for a batch. A strategy on the command line comes before that of the file. -/
def config (fs : FileSystem) (r : BatchRequest) : Except ConfigError Config := do
  let c ← match r.config with
    | some p => Config.loadFile fs p
    | none => Config.load fs (r.inputs.headD (.ofName "."))
  return { c with strategy := r.strategy.getD c.strategy }

/-- Prints one unit. -/
def runAst (fs : FileSystem) (file : FilePath) (strategy : Strategy) : Reply :=
  match fs.text? file with
  | none => .failed fs ("cannot read " ++ String.ofList file.spelling)
  | some src =>
    match BuiltUnit.ofSource src (unitName file) strategy with
    | .error _ => { code := 101, problem := some "the front end gave up", system := fs }
    | .ok built => { output := built.unit.toJson.toText.toList ++ ['\n'], system := fs }

/-- Writes the documents of a batch. If no unit was kept, nothing is written. -/
def runBuild (fs : FileSystem) (r : BatchRequest) (out : Option FilePath) (report : Bool) : Reply :=
  match config fs r with
  | .error e => .failed fs ("config error: " ++ e.message)
  | .ok c =>
    let outcome := c.run .standard fs r.inputs
    if outcome.isOk then
      let files := outcome.files (out.getD c.outputDir) report
      let (written, all) := fs.writeFiles files
      if all then { files, system := written }
      else { Reply.failed written "cannot write the documents" with files }
    else
      .failed fs Reply.noUnit

/-- Prints the report of a batch. -/
def runCheck (fs : FileSystem) (r : BatchRequest) : Reply :=
  match config fs r with
  | .error e => .failed fs ("config error: " ++ e.message)
  | .ok c =>
    let outcome := c.run .standard fs r.inputs
    let reply : Reply := if outcome.isOk then { system := fs } else .failed fs Reply.noUnit
    { reply with output := outcome.report.toText.toList ++ ['\n'] }

/-- **Runs** a command. -/
def run (fs : FileSystem) : Command → Reply
  | .version => { output := versionLine, system := fs }
  | .build r out report => runBuild fs r out report
  | .ast file strategy => runAst fs file strategy
  | .check r => runCheck fs r

/-- The paths that a command may have to look at: its inputs, and the configuration files that may
apply to them. -/
def sources : Command → List FilePath
  | .version => []
  | .build r _ _ | .check r =>
    let start := r.inputs.headD (.ofName ".")
    r.inputs ++ r.config.toList ++ start.ancestors.map fun d => d.join Config.fileName
  | .ast file _ => [file]

/-- Whether a command may have to look at what some names lead to from the root, if it runs
in the directory to which `here` leads: it lies on the way of a path that the command
reads, or below it. -/
def mayRead (command : Command) (here names : List Text) : Bool :=
  command.sources.any fun p =>
    let places := FilePath.placesFrom here p.components
    places.any names.isPrefixOf || places.getLast?.any (·.isPrefixOf names)

/-- Runs a command line. -/
def runArgs (fs : FileSystem) (args : List Text) : Reply :=
  match ofArgs? args with
  | none => { code := 2, problem := some "these arguments make no command", system := fs }
  | some command => run fs command

end Command

end PascalAtlas
