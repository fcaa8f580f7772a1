import PascalAtlas.Command.Run

/-!
# The program

The files are read as far as the command may need them, the command is run on what was read, and
what it prints and writes is printed and written. Nothing is decided here.
-/

namespace PascalAtlas

/-- Reads an entry of a directory with all that is wanted below it, given the names that lead to the
directory; or nothing if that is not allowed. -/
partial def readEntry (wanted : List Text → Bool) (above : List Text) (entry : IO.FS.DirEntry) :
    IO (List (Text × FileTree)) := do
  let name := entry.fileName.toList
  let names := above ++ [name]
  if !wanted names then
    return []
  try
    let path := entry.path
    if ← path.isDir then
      let entries ← path.readDir
      return [(name, .directory (← entries.toList.mapM (readEntry wanted names)).flatten)]
    else
      return [(name, .file (← IO.FS.readBinFile path).data.toList)]
  catch _ => return []

/-- Reads the wanted files from the root on, for a program that runs in the directory to which some
names lead. -/
def readFiles (wanted : List Text → Bool) (here : List Text) : IO FileSystem := do
  let entries ← ((← IO.currentDir) / "/").readDir
  return ⟨.directory (← entries.toList.mapM (readEntry wanted [])).flatten, here⟩

/-- Writes a file and makes the directories above it. -/
def writeText (p : FilePath) (text : Text) : IO Unit := do
  if let some above := p.parent? then
    if !above.spelling.isEmpty then
      IO.FS.createDirAll (String.ofList above.spelling)
  IO.FS.writeFile (String.ofList p.spelling) (String.ofList text)

/-- Says what failed. -/
def complain (problem : String) : IO Unit :=
  IO.eprintln ("Error: " ++ problem)

/-- Prints and writes what came of a command, and gives the exit code. -/
def Reply.deliver (r : Reply) : IO UInt32 := do
  IO.print (String.ofList r.output)
  r.problem.forM complain
  try
    r.files.forM fun (p, text) => writeText p text
    return r.code.toUInt32
  catch e =>
    complain (toString e)
    return 1

end PascalAtlas

open PascalAtlas in
/-- Runs the command line in the working directory. -/
def main (args : List String) : IO UInt32 := do
  let args := args.map String.toList
  let here := ((← IO.currentDir).components.filter fun name => !name.isEmpty).map String.toList
  let wanted (names : List Text) : Bool :=
    (Command.ofArgs? args).any fun command => command.mayRead here names
  (Command.runArgs (← readFiles wanted here) args).deliver
