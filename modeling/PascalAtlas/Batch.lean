import PascalAtlas.Config
import PascalAtlas.FileSystem

/-!
# Batches

A **batch** is everything found at some paths: the files themselves and all sources below a
directory. Each file is taken by itself, and a file that fails does not disturb the others. Units
are told apart by their names, ignoring ASCII case; of two with the same name the first is kept, and
the other is reported. What is kept is analyzed together and lowered to the documents.
-/

namespace PascalAtlas

/-! ## What can go wrong -/

/-- Something wrong with the batch as a whole. -/
inductive BatchDiagnostic where
  | missingInput (path : FilePath)
  | emptyInput
  | noSources
  | duplicateUnit (unit : Text) (path first : FilePath)
  deriving DecidableEq

namespace BatchDiagnostic

/-- What is said about it. -/
def message : BatchDiagnostic → Text
  | .missingInput path => "input path ".toList ++ path.spelling ++ " does not exist".toList
  | .emptyInput => "no input paths given".toList
  | .noSources => "no source files found".toList
  | .duplicateUnit unit path first =>
    "duplicate unit `".toList ++ unit ++ "` in ".toList ++ path.spelling
      ++ "; first defined in ".toList ++ first.spelling

/-- The code under which it is known. -/
def code : BatchDiagnostic → String
  | .missingInput _ => "pasport::batch::missing_input"
  | .emptyInput => "pasport::batch::empty_input"
  | .noSources => "pasport::batch::no_sources"
  | .duplicateUnit _ _ _ => "pasport::batch::duplicate_unit"

end BatchDiagnostic

/-- Why a file gives no unit. -/
inductive FailureCause where
  | unreadable
  /-- The front end gave up, perhaps with a reason. -/
  | gaveUp (reason : Option Text)
  deriving DecidableEq

/-- What is said about a cause. -/
def FailureCause.message : FailureCause → Text
  | .unreadable => "cannot read file".toList
  | .gaveUp reason => "front end panicked: ".toList ++ reason.getD "unknown panic payload".toList

/-- A file that gives no unit. The unit is named for the file. -/
structure UnitFailure where
  path : FilePath
  unit : Text
  cause : FailureCause
  deriving DecidableEq

/-- What is said about a failure. -/
def UnitFailure.message (f : UnitFailure) : Text :=
  "unit `".toList ++ f.unit ++ "` (".toList ++ f.path.spelling ++ ") failed: ".toList
    ++ f.cause.message

/-! ## Which files -/

/-- The sources below a directory with given entries, in the **order** of paths. -/
def sourcesBelow (c : Config) (dir : FilePath) (entries : List (Text × FileTree)) : List FilePath :=
  (FileTree.filesBelow c.accepts dir entries).mergeSort FilePath.le

/-- The files for one input, or `none` if it leads nowhere. A file is taken
whatever its extension. -/
def filesOfInput? (c : Config) (fs : FileSystem) (input : FilePath) : Option (List FilePath) :=
  match fs.lookup? input with
  | some (.directory entries) => some (sourcesBelow c input entries)
  | some (.file _) => some [input]
  | none => none

/-- The **files** of a batch in order, and what is wrong with its inputs. -/
def expandInputs (c : Config) (fs : FileSystem) (inputs : List FilePath) :
    List FilePath × List BatchDiagnostic :=
  if inputs.isEmpty then
    ([], [.emptyInput])
  else
    let found := inputs.map fun input => (input, filesOfInput? c fs input)
    let files := found.flatMap fun (_, files) => files.getD []
    let missing := found.filterMap fun (input, files) =>
      if files.isNone then some (.missingInput input) else none
    (files, missing ++ if files.isEmpty then [.noSources] else [])

/-! ## File by file -/

/-- How a source with a fallback name becomes a unit, or gives up, perhaps with a reason. -/
abbrev FrontEnd := Text → Text → Strategy → Except (Option Text) BuiltUnit

/-- The front end of this library. -/
def FrontEnd.standard : FrontEnd := fun src fallback strategy =>
  (BuiltUnit.ofSource src fallback strategy).mapError fun _ => none

/-- A unit of a batch and where it comes from. -/
structure BatchUnit where
  path : FilePath
  built : BuiltUnit

/-- The name that a file gives to a unit without one. -/
def unitName (p : FilePath) : Text :=
  p.stem?.getD "Unnamed".toList

/-- What becomes of one file. -/
def buildFile (frontEnd : FrontEnd) (strategy : Strategy) (fs : FileSystem) (p : FilePath) :
    Except UnitFailure BatchUnit :=
  match fs.text? p with
  | none => .error ⟨p, unitName p, .unreadable⟩
  | some src =>
    match frontEnd src (unitName p) strategy with
    | .error reason => .error ⟨p, unitName p, .gaveUp reason⟩
    | .ok built => .ok ⟨p, built⟩

/-! ## All together -/

/-- What has become of the files so far. -/
structure Tally where
  units : List BatchUnit := []
  failures : List UnitFailure := []
  duplicates : List BatchDiagnostic := []

namespace Tally

/-- The unit that has a name already, ignoring ASCII case. -/
def holder? (units : List BatchUnit) (name : Text) : Option BatchUnit :=
  units.find? fun u => Text.eqIgnoreCase u.built.unit.name name

/-- The tally after one more file. -/
def add (t : Tally) : Except UnitFailure BatchUnit → Tally
  | .error failure => { t with failures := t.failures ++ [failure] }
  | .ok u =>
    match holder? t.units u.built.unit.name with
    | some first =>
      { t with duplicates := t.duplicates ++ [.duplicateUnit u.built.unit.name u.path first.path] }
    | none => { t with units := t.units ++ [u] }

/-- The tally of some **results** in the order of their files. -/
def ofResults (results : List (Except UnitFailure BatchUnit)) : Tally :=
  results.foldl add {}

end Tally

/-- What has become of a batch. -/
structure BatchOutcome where
  units : List BatchUnit
  failures : List UnitFailure
  diagnostics : List BatchDiagnostic
  analysis : Analysis
  documents : Documents

namespace BatchOutcome

/-- Whether any unit was kept. -/
def isOk (o : BatchOutcome) : Bool :=
  !o.units.isEmpty

/-- The units of a batch analyzed together. -/
def analyzed (rules : List EffectRule) (units : List BatchUnit) : Analysis :=
  (units.foldl (fun a u => a.load u.built.unit) ({ rules } : Analysis)).analyze

/-- The outcome of a batch whose files had some **results**. -/
def ofResults (c : Config) (diagnostics : List BatchDiagnostic)
    (results : List (Except UnitFailure BatchUnit)) : BatchOutcome :=
  let tally := Tally.ofResults results
  let analysis := analyzed c.rules tally.units
  { units := tally.units
    failures := tally.failures
    diagnostics := diagnostics ++ tally.duplicates
    analysis
    documents := c.lowering.documents analysis }

end BatchOutcome

/-- **Runs** a batch. -/
def Config.run (c : Config) (frontEnd : FrontEnd) (fs : FileSystem) (inputs : List FilePath) :
    BatchOutcome :=
  let (files, diagnostics) := expandInputs c fs inputs
  .ofResults c diagnostics (files.map (buildFile frontEnd c.strategy fs))

end PascalAtlas
