import PascalAtlas.FilePath
import PascalAtlas.Text.Utf8

/-!
# Trees of files

Files as a value: a file has its bytes, and a directory has entries with names, in whatever
**order** they are listed. Names lead into the tree one by one, and a walk through it lists the
paths of the files it finds.
-/

namespace PascalAtlas

/-- A file or a directory. -/
inductive FileTree where
  | file (bytes : List UInt8)
  | directory (entries : List (Text × FileTree))

namespace FileTree

/-- A directory without entries. -/
def empty : FileTree :=
  .directory []

/-! ## Looking up -/

/-- The entry with a name. -/
def child? (name : Text) : FileTree → Option FileTree
  | .file _ => none
  | .directory entries => (entries.find? fun (n, _) => n = name).map (·.2)

/-- What some names lead to, one after the other. -/
def at? : List Text → FileTree → Option FileTree
  | [], t => some t
  | name :: names, t => (t.child? name).bind (at? names)

/-- Whether this is a directory. -/
def isDirectory : FileTree → Bool
  | .directory _ => true
  | .file _ => false

/-- Whether this is a file. -/
def isFile : FileTree → Bool
  | .directory _ => false
  | .file _ => true

/-- The names that some segments of a path lead to from a place, which is given by its
names from the inside out. All but the last name must be that of a directory. From the
root, `..` leads to the root. -/
def locateFrom? (t : FileTree) : List Text → List Text → Option (List Text)
  | place, [] => some place.reverse
  | place, segment :: segments =>
    if (t.at? place.reverse).any isDirectory then
      if FilePath.isIdle segment then locateFrom? t place segments
      else if segment = ['.', '.'] then locateFrom? t place.tail segments
      else locateFrom? t (segment :: place) segments
    else
      none

/-! ## Listing -/

mutual

/-- The paths of the files at or below a path that satisfy a test, in the order of listing. -/
def filesAt (accepts : FilePath → Bool) (p : FilePath) : FileTree → List FilePath
  | .file _ => if accepts p then [p] else []
  | .directory entries => filesBelow accepts p entries

/-- The paths of such files **below** a directory with given entries. -/
def filesBelow (accepts : FilePath → Bool) (p : FilePath) : List (Text × FileTree) → List FilePath
  | [] => []
  | (name, t) :: entries => filesAt accepts (p.join ⟨name⟩) t ++ filesBelow accepts p entries

end

/-! ## Writing -/

/-- Some entries with one of them changed, in its place or at the end. -/
def changeEntry (name : Text) (f : Option FileTree → FileTree) :
    List (Text × FileTree) → List (Text × FileTree)
  | [] => [(name, f none)]
  | (n, t) :: entries =>
    if n = name then (n, f (some t)) :: entries else (n, t) :: changeEntry name f entries

/-- The tree with something put where some names lead. -/
def put : List Text → FileTree → FileTree → FileTree
  | [], new, _ => new
  | name :: names, new, .directory entries =>
    .directory (changeEntry name (fun t => put names new (t.getD empty)) entries)
  | _ :: _, _, .file bytes => .file bytes

end FileTree

end PascalAtlas
