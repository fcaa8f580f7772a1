import PascalAtlas.Text

/-!
# Paths of files

A path keeps the **spelling** it was given: `./src//a.pas` stays as it is in every report. What the
path means is read off its **components**, which leave out repeated slashes and every `.` but a
leading one. Paths are ordered by their components and not by their spelling, so that what lies in a
directory `a` comes before a file `a-b`, although `-` comes before `/`.
-/

namespace PascalAtlas

/-- A path as it was written. -/
structure FilePath where
  spelling : Text
  deriving DecidableEq

namespace FilePath

/-! ## Components -/

/-- What a path is made of. -/
inductive Component where
  | root
  | current
  | parent
  | name (text : Text)
  deriving DecidableEq

/-- The component for what stands between two slashes. -/
def Component.ofSegment (segment : Text) : Component :=
  if segment = ['.'] then .current
  else if segment = ['.', '.'] then .parent
  else .name segment

/-- The place of a component in the order: first the root, then `.`, then `..`, then names by the
codes of their characters. -/
def Component.key : Component → List Nat
  | .root => [0]
  | .current => [1]
  | .parent => [2]
  | .name text => 3 :: text.map Char.toNat

/-- The pieces between slashes. -/
def segments (p : FilePath) : List Text :=
  Text.splitBy (· == '/') p.spelling

/-- Whether a segment after the first leads nowhere. -/
def isIdle (segment : Text) : Bool :=
  segment.isEmpty || segment == ['.']

/-- The first component, given the first segment and whether others follow. -/
def firstComponent (segment : Text) (alone : Bool) : List Component :=
  if segment.isEmpty then
    if alone then [] else [.root]
  else
    [.ofSegment segment]

/-- The **components** of a path. -/
def components (p : FilePath) : List Component :=
  match p.segments with
  | [] => []
  | first :: rest =>
    firstComponent first rest.isEmpty ++ (rest.filter fun s => !isIdle s).map .ofSegment

/-- The place of a path in the order of paths. -/
def key (p : FilePath) : List (List Nat) :=
  p.components.map Component.key

/-- The **order** of paths, component by component. -/
def le (p q : FilePath) : Bool :=
  (compare p.key q.key).isLE

/-! ## Going up and down -/

/-- Whether a path begins at the root. -/
def isAbsolute (p : FilePath) : Bool :=
  p.spelling.head? == some '/'

/-- One path after another. An absolute path stands for itself. -/
def join (p q : FilePath) : FilePath :=
  if q.isAbsolute || p.spelling.isEmpty then q
  else if p.spelling.getLast? = some '/' then ⟨p.spelling ++ q.spelling⟩
  else ⟨p.spelling ++ '/' :: q.spelling⟩

/-- Some segments without those at the end that lead nowhere. -/
def trimIdle (segments : List Text) : List Text :=
  (segments.reverse.dropWhile isIdle).reverse

/-- The path without its last component, in the spelling that is left. The empty path and the root
have no parent. -/
def parent? (p : FilePath) : Option FilePath :=
  match p.segments with
  | [] => none
  | first :: rest =>
    match trimIdle rest with
    | [] => if first.isEmpty then none else some ⟨[]⟩
    | kept =>
      match trimIdle kept.dropLast with
      | [] => some ⟨if first.isEmpty then ['/'] else first⟩
      | above => some ⟨Text.join ['/'] (first :: above)⟩

/-- A path and the paths above it, at most a given number of them. -/
def ancestorsUpTo : Nat → FilePath → List FilePath
  | 0, _ => []
  | n + 1, p =>
    match p.parent? with
    | none => [p]
    | some above => p :: ancestorsUpTo n above

/-- A path and all paths **above** it, from the inside out. -/
def ancestors (p : FilePath) : List FilePath :=
  ancestorsUpTo (p.spelling.length + 1) p

/-- Where a component leads from the place that some names lead to. -/
def Component.leadFrom (names : List Text) : Component → List Text
  | .root => []
  | .current => names
  | .parent => names.dropLast
  | .name text => names ++ [text]

/-- The places to which some components lead one after the other, the first place included. -/
def placesFrom (names : List Text) : List Component → List (List Text)
  | [] => [names]
  | c :: cs => names :: placesFrom (c.leadFrom names) cs

/-! ## Names -/

/-- The **name** at the end of a path. A path that ends in `..` has none. -/
def name? (p : FilePath) : Option Text :=
  match p.components.getLast? with
  | some (.name text) => some text
  | _ => none

/-- A name cut at its last dot. A dot at the beginning of a name does not count. -/
def cutName? (name : Text) : Option (Text × Text) :=
  (Text.cutAtLast? (· == '.') name).filter fun (stem, _) => !stem.isEmpty

/-- What follows the last dot of the name. -/
def extension? (p : FilePath) : Option Text :=
  (p.name?.bind cutName?).map (·.2)

/-- The name without its extension. -/
def stem? (p : FilePath) : Option Text :=
  p.name?.map fun name => ((cutName? name).map (·.1)).getD name

/-- The path of something in the current directory. -/
def ofName (name : String) : FilePath :=
  ⟨name.toList⟩

end FilePath

end PascalAtlas
