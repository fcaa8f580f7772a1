import PascalAtlas.Text

/-!
# Blanks

A **blank** is a character with the Unicode property White_Space. Trimming removes blanks at the two
ends of a text, and `words` gives the maximal runs of other characters, so a text squeezed to
single spaces is its words joined again.
-/

namespace PascalAtlas.Text

/-- The characters with the Unicode property **White_Space**. -/
def isBlank (c : Char) : Bool :=
  let n := c.toNat
  (9 ≤ n && n ≤ 13) || n == 0x20 || n == 0x85 || n == 0xa0 || n == 0x1680
    || (0x2000 ≤ n && n ≤ 0x200a) || n == 0x2028 || n == 0x2029 || n == 0x202f || n == 0x205f
    || n == 0x3000

/-- The text without the blanks at its beginning. -/
def trimStart (t : Text) : Text :=
  t.dropWhile isBlank

/-- The text without the blanks at its end. -/
def trimEnd (t : Text) : Text :=
  (t.reverse.dropWhile isBlank).reverse

/-- The text without the blanks at either end. -/
def trim (t : Text) : Text :=
  trimEnd (trimStart t)

/-- The **words** of a text: its maximal runs without blanks. -/
def words (t : Text) : List Text :=
  (splitBy isBlank t).filter fun piece => !piece.isEmpty

/-- The words of a text with one space between them. -/
def squeeze (t : Text) : Text :=
  join [' '] (words t)

end PascalAtlas.Text
