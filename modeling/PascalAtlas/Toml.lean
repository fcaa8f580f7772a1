import PascalAtlas.Binary64

/-!
# TOML values

A configuration file is a TOML document: a table of values by name, in the order in which
the names come in the file. The order matters, because of several things wrong with a file
the first is reported.
-/

namespace PascalAtlas

/-- A TOML value. -/
inductive Toml where
  | str (value : Text)
  | int (value : Int)
  | float (value : Binary64)
  | bool (value : Bool)
  /-- A date, a time of day or both, in its usual form. -/
  | date (written : Text)
  | arr (items : List Toml)
  | table (entries : List (Text × Toml))

end PascalAtlas
