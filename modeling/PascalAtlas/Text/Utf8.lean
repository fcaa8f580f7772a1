import PascalAtlas.Text

/-!
# UTF-8

Texts as bytes and back. Decoding accepts **any** bytes: where they are not well-formed UTF-8,
the longest stretch that could have begun a character becomes one replacement character, and
decoding goes on after it.
-/

namespace PascalAtlas.Utf8

/-- The bytes of a text. -/
def encode (t : Text) : List UInt8 :=
  t.flatMap String.utf8EncodeChar

/-- The character that stands for bytes that cannot be decoded. -/
def replacement : Char := '�'

/-- Whether a byte can follow the first byte of a character. -/
def isTail (b : UInt8) : Bool :=
  0x80 ≤ b && b ≤ 0xBF

/-- Whether `b` can be the **second** byte of a character of three or more bytes that begins with
`a`. This rules out overlong forms, surrogates and codes that are too large. -/
def isSecond (a b : UInt8) : Bool :=
  if a = 0xE0 then 0xA0 ≤ b && b ≤ 0xBF
  else if a = 0xED then 0x80 ≤ b && b ≤ 0x9F
  else if a = 0xF0 then 0x90 ≤ b && b ≤ 0xBF
  else if a = 0xF4 then 0x80 ≤ b && b ≤ 0x8F
  else isTail b

/-- The six payload bits of a byte that is not the first. -/
def tailBits (b : UInt8) : Nat :=
  b.toNat % 0x40

/-- The character at the front of bytes that begin with `a`, and the bytes after it. -/
def decodeStep (a : UInt8) (rest : List UInt8) : Char × List UInt8 :=
  if a < 0x80 then
    (Char.ofNat a.toNat, rest)
  else if 0xC2 ≤ a && a ≤ 0xDF then
    match rest with
    | b :: r =>
      if isTail b then (Char.ofNat (a.toNat % 0x20 * 0x40 + tailBits b), r)
      else (replacement, b :: r)
    | [] => (replacement, [])
  else if 0xE0 ≤ a && a ≤ 0xEF then
    match rest with
    | b :: r =>
      if isSecond a b then
        match r with
        | c :: r' =>
          if isTail c then
            (Char.ofNat (a.toNat % 0x10 * 0x1000 + tailBits b * 0x40 + tailBits c), r')
          else
            (replacement, c :: r')
        | [] => (replacement, [])
      else
        (replacement, b :: r)
    | [] => (replacement, [])
  else if 0xF0 ≤ a && a ≤ 0xF4 then
    match rest with
    | b :: r =>
      if isSecond a b then
        match r with
        | c :: r' =>
          if isTail c then
            match r' with
            | d :: r'' =>
              if isTail d then
                (Char.ofNat
                  (a.toNat % 8 * 0x40000 + tailBits b * 0x1000 + tailBits c * 0x40 + tailBits d),
                  r'')
              else
                (replacement, d :: r'')
            | [] => (replacement, [])
          else
            (replacement, c :: r')
        | [] => (replacement, [])
      else
        (replacement, b :: r)
    | [] => (replacement, [])
  else
    (replacement, rest)

theorem length_decodeStep (a : UInt8) (rest : List UInt8) :
    (decodeStep a rest).2.length ≤ rest.length := by
  unfold decodeStep
  repeat' split
  all_goals simp
  all_goals omega

/-- The text that some bytes stand for. -/
def decode (bytes : List UInt8) : Text :=
  match bytes with
  | [] => []
  | a :: rest => (decodeStep a rest).1 :: decode (decodeStep a rest).2
termination_by bytes.length
decreasing_by exact Nat.lt_succ_of_le (length_decodeStep a rest)

end PascalAtlas.Utf8
