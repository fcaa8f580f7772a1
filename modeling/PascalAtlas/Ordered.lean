/-!
# Tables and sets that keep their order

A **table** maps keys to values and remembers the order in which the keys first came: a key that
comes again keeps its place and takes the new value. A **set** is a list to which an item is added
only if it is not there yet. Which entry comes first decides what the documents say, so the order
is part of both types.
-/

namespace PascalAtlas

/-- A table with its entries in the order of their keys' first appearance. -/
structure Table (α β : Type) where
  entries : List (α × β) := []
  deriving DecidableEq

namespace Table

variable {α β : Type} [DecidableEq α]

/-- Some entries with one key set to a value: in its place if it is there, else at the end. -/
def insertEntry (key : α) (value : β) : List (α × β) → List (α × β)
  | [] => [(key, value)]
  | (k, v) :: entries =>
    if k = key then (k, value) :: entries else (k, v) :: insertEntry key value entries

/-- Sets a key to a value. -/
def insert (t : Table α β) (key : α) (value : β) : Table α β :=
  ⟨insertEntry key value t.entries⟩

/-- Sets some keys to their values, one after the other. -/
def insertAll (t : Table α β) (entries : List (α × β)) : Table α β :=
  entries.foldl (fun t (key, value) => t.insert key value) t

/-- The table of some entries; of several with the same key the **last** gives the value. -/
def ofList (entries : List (α × β)) : Table α β :=
  insertAll {} entries

/-- Takes out all entries. -/
def clear (t : Table α β) : Table α β :=
  { t with entries := [] }

/-- The value of a key. -/
def get? (t : Table α β) (key : α) : Option β :=
  (t.entries.find? fun (k, _) => k = key).map (·.2)

/-- The keys in order. -/
def keys (t : Table α β) : List α :=
  t.entries.map (·.1)

/-- The values in order. -/
def values (t : Table α β) : List β :=
  t.entries.map (·.2)

/-- The number of entries. -/
def size (t : Table α β) : Nat :=
  t.entries.length

end Table

namespace OrderedSet

variable {α : Type} [DecidableEq α]

/-- A list with an item added at the end, unless it is there already. -/
def insert (items : List α) (item : α) : List α :=
  if item ∈ items then items else items ++ [item]

/-- A list with some items added one after the other, each unless it is there already. -/
def insertAll (items new : List α) : List α :=
  new.foldl insert items

/-- The items of a list without repetition, in the order of their first appearance. -/
def ofList (items : List α) : List α :=
  insertAll [] items

end OrderedSet

end PascalAtlas
