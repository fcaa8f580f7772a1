import PascalAtlas.FileTree

/-!
# Where paths lead

All files are below one **root**, and the program runs in one of its directories. An absolute path
begins at the root and any other path in the working directory; `..` leads back out of a directory,
also out of the working directory, up to the root. A path through a file leads nowhere, even if only
a slash follows the file's name, and the empty path leads nowhere.
-/

namespace PascalAtlas

/-- The files that there are, and where the program runs. -/
structure FileSystem where
  /-- What is at the root. -/
  root : FileTree
  /-- The names that lead from the root to the **working directory**. -/
  here : List Text := []

namespace FileSystem

/-! ## Looking up -/

/-- The names from the root to the place where a path begins, from the inside out. -/
def origin (fs : FileSystem) (p : FilePath) : List Text :=
  if p.isAbsolute then [] else fs.here.reverse

/-- The names from the root that a path leads to. The last of them need not be there. -/
def locate? (fs : FileSystem) (p : FilePath) : Option (List Text) :=
  if p.spelling.isEmpty then none else fs.root.locateFrom? (fs.origin p) p.segments

/-- What a **path** leads to. -/
def lookup? (fs : FileSystem) (p : FilePath) : Option FileTree :=
  (fs.locate? p).bind fun names => fs.root.at? names

/-- Whether a path leads to a file. -/
def hasFile (fs : FileSystem) (p : FilePath) : Bool :=
  (fs.lookup? p).any FileTree.isFile

/-- The bytes of the file to which a path leads. -/
def bytes? (fs : FileSystem) (p : FilePath) : Option (List UInt8) :=
  match fs.lookup? p with
  | some (.file bytes) => some bytes
  | _ => none

/-- The text of a file. What is not UTF-8 is replaced. -/
def text? (fs : FileSystem) (p : FilePath) : Option Text :=
  (fs.bytes? p).map Utf8.decode

/-- The text of a file that is **all** UTF-8. -/
def utf8Text? (fs : FileSystem) (p : FilePath) : Option Text :=
  (fs.bytes? p).bind fun bytes =>
    let text := Utf8.decode bytes
    if Utf8.encode text = bytes then some text else none

/-! ## Writing -/

/-- Puts something where some names lead from the root. -/
def put (fs : FileSystem) (names : List Text) (new : FileTree) : FileSystem :=
  { fs with root := FileTree.put names new fs.root }

/-- The files with a directory at a path, which must not lead to a file. -/
def makeDirectory? (fs : FileSystem) (p : FilePath) : Option FileSystem := do
  let names ← fs.locate? p
  match fs.root.at? names with
  | none => some (fs.put names .empty)
  | some (.directory _) => some fs
  | some (.file _) => none

/-- The files with a directory at a path and with all directories **above** it. -/
def makeDirectories? (fs : FileSystem) (p : FilePath) : Option FileSystem :=
  (p.ancestors.reverse.filter fun q => !q.spelling.isEmpty).foldlM makeDirectory? fs

/-- The files with one more **file** at a path, and with the directories above it. -/
def writeFile? (fs : FileSystem) (p : FilePath) (bytes : List UInt8) : Option FileSystem := do
  let fs ← match p.parent? with
    | none => some fs
    | some above => fs.makeDirectories? above
  let names ← fs.locate? p
  match fs.root.at? names with
  | some (.directory _) => none
  | _ => some (fs.put names (.file bytes))

/-- Writes files one after the other up to the first that cannot be written, and tells whether all
are. -/
def writeFiles (fs : FileSystem) : List (FilePath × Text) → FileSystem × Bool
  | [] => (fs, true)
  | (p, text) :: files =>
    match fs.writeFile? p (Utf8.encode text) with
    | some fs => writeFiles fs files
    | none => (fs, false)

end FileSystem

end PascalAtlas
