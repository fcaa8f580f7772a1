import PascalAtlas.Toml

/-!
# Tables under construction

While a document is read its tables still grow, and what may be added to a table depends on how it
came about. A table is **implied** if it was only named on the way to another one, and **dotted** if
it came from the dots of a key. A section header may give a body to an implied table, once; the dots
of a key may lead only through tables that came from dots.
-/

namespace PascalAtlas

/-- A value that is finished or a table that may still grow. -/
inductive Draft where
  | value (v : Toml)
  | table (implied dotted : Bool) (entries : List (Text × Draft))
  /-- The tables of an array, the last of which may still grow. -/
  | tables (items : List (List (Text × Draft)))

namespace Draft

/-- The entries of a table under construction. -/
abbrev Entries := List (Text × Draft)

/-! ## Finding a place -/

/-- Changes the entry of a key, in its place or at the end, and gives something back. -/
def change {α : Type} (key : Text) (f : Option Draft → Option (Draft × α)) :
    Entries → Option (Entries × α)
  | [] => (f none).map fun (d, a) => ([(key, d)], a)
  | (k, d) :: entries =>
    if k = key then
      (f (some d)).map fun (d, a) => ((k, d) :: entries, a)
    else
      (change key f entries).map fun (entries, a) => ((k, d) :: entries, a)

/-- Changes the table at the end of a path and gives something back. Tables that are missing on the
way are implied, and **dotted** if the path comes from a key. What is done to the table may depend
on whether it is dotted itself. -/
def descend {α : Type} (byKey : Bool) (f : Bool → Entries → Option (Entries × α)) :
    List Text → Bool → Entries → Option (Entries × α)
  | [], dotted, entries => f dotted entries
  | key :: path, _, entries =>
    change key (fun
      | none =>
        (descend byKey f path byKey []).map fun (inner, a) => (.table true byKey inner, a)
      | some (.value _) => none
      | some (.table implied dotted inner) =>
        if byKey && !implied then
          none
        else
          (descend byKey f path dotted inner).map fun (inner, a) => (.table implied dotted inner, a)
      | some (.tables items) =>
        items.getLast?.bind fun last =>
          (descend byKey f path false last).map fun (last, a) =>
            (.tables (items.dropLast ++ [last]), a))
      entries

/-! ## Adding to it -/

/-- Adds an entry with a new key. -/
def addNew (key : Text) (d : Draft) (entries : Entries) : Option Entries :=
  if entries.any fun (k, _) => k = key then none else some (entries ++ [(key, d)])

/-- Gives a value to a **dotted key**. -/
def assign (path : List Text) (key : Text) (v : Toml) (entries : Entries) : Option Entries :=
  let add (dotted : Bool) (inner : Entries) : Option (Entries × Unit) :=
    if dotted == path.isEmpty then none else (addNew key (.value v) inner).map (·, ())
  (descend true add path false entries).map (·.1)

/-- Takes the entries that a table has already when its **section** begins: those that other headers
implied. -/
def openSection (path : List Text) (key : Text) (root : Entries) : Option (Entries × Entries) :=
  let take (_ : Bool) (inner : Entries) : Option (Entries × Entries) :=
    match inner.find? fun (k, _) => k = key with
    | none => some (inner, [])
    | some (_, .table true false given) => some (inner.filter fun (k, _) => k ≠ key, given)
    | some _ => none
  descend false take path false root

/-- Puts the table of a finished section into its place. -/
def closeSection (path : List Text) (key : Text) (body root : Entries) : Option Entries :=
  let put (_ : Bool) (inner : Entries) : Option (Entries × Unit) :=
    (addNew key (.table false false body) inner).map (·, ())
  (descend false put path false root).map (·.1)

/-- Makes sure that there is an array for the tables of a section. -/
def openItem (path : List Text) (key : Text) (root : Entries) : Option Entries :=
  let prepare (_ : Bool) (inner : Entries) : Option (Entries × Unit) :=
    change key (fun
      | none => some (.tables [], ())
      | some (.tables items) => some (.tables items, ())
      | some _ => none) inner
  (descend false prepare path false root).map (·.1)

/-- Adds the table of a finished section to its array. -/
def closeItem (path : List Text) (key : Text) (body root : Entries) : Option Entries :=
  let push (_ : Bool) (inner : Entries) : Option (Entries × Unit) :=
    change key (fun
      | some (.tables items) => some (.tables (items ++ [body]), ())
      | _ => none) inner
  (descend false push path false root).map (·.1)

/-! ## The finished value -/

mutual

/-- The value that a draft has come to. -/
def finish : Draft → Toml
  | .value v => v
  | .table _ _ entries => .table (finishEntries entries)
  | .tables items => .arr (finishItems items)

/-- The entries of a finished table. -/
def finishEntries : List (Text × Draft) → List (Text × Toml)
  | [] => []
  | (key, d) :: entries => (key, finish d) :: finishEntries entries

/-- The tables of a finished array. -/
def finishItems : List (List (Text × Draft)) → List Toml
  | [] => []
  | entries :: items => .table (finishEntries entries) :: finishItems items

end

end Draft

end PascalAtlas
