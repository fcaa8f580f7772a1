import PascalAtlas.Config
import PascalAtlas.FileSystem

/-!
# Finding the configuration

The configuration file that applies to a place is the nearest one: in that directory, or else in the
nearest directory **above** it. A project without one has the defaults.
-/

namespace PascalAtlas.Config

/-- The name of a configuration file. -/
def fileName : FilePath :=
  .ofName "pasport.toml"

/-- The directory in which a search begins: that of a file, or the path itself. -/
def searchStart? (fs : FileSystem) (start : FilePath) : Option FilePath :=
  if fs.hasFile start then start.parent? else some start

/-- The nearest **configuration file**. -/
def find? (fs : FileSystem) (start : FilePath) : Option FilePath := do
  let dir ← searchStart? fs start
  (dir.ancestors.map fun d => d.join fileName).find? fs.hasFile

/-- The configuration in a given file. -/
def loadFile (fs : FileSystem) (p : FilePath) : Except ConfigError Config :=
  match fs.utf8Text? p with
  | none => .error (.unreadable p)
  | some text =>
    (ofText (p.parent?.getD (.ofName ".")) text).map fun c => { c with configPath := some p }

/-- The configuration that **applies** to a place. -/
def load (fs : FileSystem) (start : FilePath) : Except ConfigError Config :=
  match find? fs start with
  | some p => loadFile fs p
  | none => .ok (defaults ((searchStart? fs start).getD (.ofName ".")))

end PascalAtlas.Config
