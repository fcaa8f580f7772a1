import PascalAtlas.Text

/-!
# Positions

A **position** is a line and a column, both counted from one; columns count bytes. `LineIndex` finds
the position of a byte offset from the offsets at which the lines begin. The position of line zero,
column zero stands for "unknown".
-/

namespace PascalAtlas

/-- A line and a column, counted from one. -/
structure Position where
  line : UInt32 := 0
  column : UInt32 := 0
  deriving DecidableEq

/-- The stretch between two positions. -/
structure Extent where
  start : Position := {}
  stop : Position := {}
  deriving DecidableEq

/-- The offsets at which the lines of a text begin, and its size. -/
structure LineIndex where
  starts : List Nat
  size : Nat

namespace LineIndex

/-- The offsets just after the line breaks of a text that begins at byte `pos`. -/
def startsAfter (pos : Nat) : Text → List Nat
  | [] => []
  | c :: cs =>
    if c = '\n' then
      (pos + 1) :: startsAfter (pos + 1) cs
    else
      startsAfter (pos + c.utf8Size) cs

/-- The line index of a text. Its first line begins at zero. -/
def ofText (t : Text) : LineIndex :=
  ⟨0 :: startsAfter 0 t, Text.size t⟩

/-- A count as a word of 32 bits; one that does not fit gives the greatest word. -/
def clamp (n : Nat) : UInt32 :=
  UInt32.ofNat (min n (UInt32.size - 1))

/-- The **position** of a byte offset: the last line that begins at or before it, and the distance
from there. An offset past the end counts as the end. -/
def position (index : LineIndex) (offset : Nat) : Position :=
  let offset := min offset index.size
  let before := index.starts.takeWhile (· ≤ offset)
  let start := before.getLast?.getD 0
  ⟨clamp (max before.length 1), clamp (offset - start + 1)⟩

/-- The stretch between two byte offsets. -/
def extent (index : LineIndex) (start stop : Nat) : Extent :=
  ⟨index.position start, index.position stop⟩

end LineIndex

end PascalAtlas
