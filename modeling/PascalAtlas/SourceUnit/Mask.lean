import PascalAtlas.Text.Utf8

/-!
# Masked text

The **mask** of a source text has blanks in place of its comments and of the contents of its string
literals, so that no word inside them can be mistaken for a declaration. It works on bytes: every
byte of what is masked becomes one blank, except that line breaks stay, so an offset in the masked
text is the same offset in the source.
-/

namespace PascalAtlas.Mask

/-- The byte of an ASCII character. -/
def byte (c : Char) : UInt8 :=
  c.toUInt8

/-- A byte as it stands in a masked stretch. -/
def blankByte (b : UInt8) : UInt8 :=
  if b = byte '\n' then b else byte ' '

/-- A masked stretch. -/
def blank (bytes : List UInt8) : List UInt8 :=
  bytes.map blankByte

/-- A cut with some bytes put before its first part. -/
def onto (front : List UInt8) (cut : List UInt8 × List UInt8) : List UInt8 × List UInt8 :=
  (front ++ cut.1, cut.2)

@[simp] theorem onto_snd (front : List UInt8) (cut : List UInt8 × List UInt8) :
    (onto front cut).2 = cut.2 := rfl

/-- The bytes through the first occurrence of some others, and the bytes after it. Without such an
occurrence that is everything and nothing. -/
def through (needle : List UInt8) : List UInt8 → List UInt8 × List UInt8
  | [] => ([], [])
  | b :: bs =>
    if needle.isPrefixOf (b :: bs) then
      ((b :: bs).take needle.length, (b :: bs).drop needle.length)
    else
      onto [b] (through needle bs)

/-- The contents of a string literal after its opening quote, with doubled quotes, and what follows
them: a closing quote, the end of the line, or nothing. -/
def literal : List UInt8 → List UInt8 × List UInt8
  | [] => ([], [])
  | [b] => if b = byte '\n' || b = byte '\'' then ([], [b]) else ([b], [])
  | b :: b' :: bs =>
    if b = byte '\n' then
      ([], b :: b' :: bs)
    else if b = byte '\'' then
      if b' = byte '\'' then
        onto [b, b'] (literal bs)
      else
        ([], b :: b' :: bs)
    else
      onto [b] (literal (b' :: bs))

/-- Masks the front of bytes that begin with `b`: the masked stretch and the bytes after it. -/
def step (b : UInt8) (rest : List UInt8) : List UInt8 × List UInt8 :=
  if b = byte '{' then
    let cut := through [byte '}'] rest
    (blank (b :: cut.1), cut.2)
  else if b = byte '(' && rest.head? == some (byte '*') then
    let cut := through [byte '*', byte ')'] rest.tail
    (blank (b :: byte '*' :: cut.1), cut.2)
  else if b = byte '/' && rest.head? == some (byte '/') then
    (blank (b :: rest.takeWhile (· != byte '\n')), rest.dropWhile (· != byte '\n'))
  else if b = byte '\'' then
    let cut := literal rest
    (b :: blank cut.1 ++ cut.2.take 1, cut.2.drop 1)
  else
    ([b], rest)

theorem length_through (needle bytes : List UInt8) :
    (through needle bytes).2.length ≤ bytes.length := by
  induction bytes with
  | nil => simp [through]
  | cons b bs ih =>
    unfold through
    split
    · simp only [List.length_drop]
      omega
    · simpa using Nat.le_succ_of_le ih

theorem length_literal (bytes : List UInt8) : (literal bytes).2.length ≤ bytes.length := by
  fun_induction literal bytes <;> simp_all <;> omega

theorem length_step (b : UInt8) (rest : List UInt8) : (step b rest).2.length ≤ rest.length := by
  unfold step
  repeat' split
  · exact length_through _ _
  · exact Nat.le_trans (length_through _ _) (by simp)
  · exact (List.dropWhile_sublist _).length_le
  · simp only [List.length_drop]
    exact Nat.le_trans (Nat.sub_le _ _) (length_literal rest)
  · exact Nat.le_refl _

/-- The masked bytes of some bytes. -/
def maskBytes (bytes : List UInt8) : List UInt8 :=
  match bytes with
  | [] => []
  | b :: rest => (step b rest).1 ++ maskBytes (step b rest).2
termination_by bytes.length
decreasing_by exact Nat.lt_succ_of_le (length_step b rest)

/-- The **masked text** of a source text. -/
def mask (t : Text) : Text :=
  Utf8.decode (maskBytes (Utf8.encode t))

end PascalAtlas.Mask
