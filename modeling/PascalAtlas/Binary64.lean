import PascalAtlas.Text

/-!
# Numbers with a binary fraction

A decimal number is kept as the nearest number `m · 2 ^ q` with `m < 2 ^ 53` and `-1074 ≤ q ≤ 971`;
of two that are equally near the one with an even `m` is taken. Such a number is written with the
**fewest decimal digits** that are still nearer to it than to any other, and of several such
decimals the nearest. All arithmetic is on natural numbers.
-/

namespace PascalAtlas

/-- A number with a binary fraction, or what stands for one. -/
inductive Binary64 where
  | nan
  | infinity (negative : Bool)
  /-- The number `mantissa · 2 ^ exponent`. -/
  | finite (negative : Bool) (mantissa : Nat) (exponent : Int)
  deriving DecidableEq

namespace Binary64

/-! ## The nearest number -/

/-- A quotient rounded to the nearest natural number, a half to the **even** one. -/
def roundDiv (num den : Nat) : Nat :=
  let q := num / den
  let twice := 2 * (num % den)
  if twice < den then q
  else if den < twice then q + 1
  else q + q % 2

/-- The numerator and the denominator of `num / den · base ^ exponent`. -/
def scale (base : Nat) (exponent : Int) (num den : Nat) : Nat × Nat :=
  if 0 ≤ exponent then (num * Nat.pow base exponent.toNat, den)
  else (num, den * Nat.pow base (-exponent).toNat)

/-- The number `2 ^ 53`, which no mantissa reaches. -/
def mantissaBound : Nat :=
  0x20000000000000

/-- The least exponent. -/
def leastExponent : Int :=
  -1074

/-- The number nearest to a fraction that is not zero. -/
def ofRatio (negative : Bool) (num den : Nat) : Binary64 :=
  -- With this exponent the quotient is at least `2 ^ 52` and less than `2 ^ 54`.
  let low : Int := (num.log2 : Int) - den.log2 - 53
  let atLow := scale 2 (-low) num den
  let fit := if atLow.1 < mantissaBound * atLow.2 then low else low + 1
  let exponent := max fit leastExponent
  let scaled := scale 2 (-exponent) num den
  let mantissa := roundDiv scaled.1 scaled.2
  let carried := if mantissa = mantissaBound then (mantissaBound / 2, exponent + 1)
    else (mantissa, exponent)
  if 971 < carried.2 then .infinity negative else .finite negative carried.1 carried.2

/-- The number nearest to `digits · 10 ^ exponent`. -/
def ofDecimal (negative : Bool) (digits : Nat) (exponent : Int) : Binary64 :=
  let magnitude : Int := exponent + (Nat.toDigits 10 digits).length
  if digits = 0 || magnitude < -400 then .finite negative 0 leastExponent
  else if 400 < magnitude then .infinity negative
  else
    let scaled := scale 10 exponent digits 1
    ofRatio negative scaled.1 scaled.2

/-! ## The fewest digits -/

/-- Whether a fraction `num / den` lies between the ends `low / den` and `high / den`. -/
def within (closed : Bool) (low num high : Nat) : Bool :=
  if closed then low ≤ num && num ≤ high else low < num && num < high

/-- The decimal with `digits` digits that is nearest to a number between two ends, if one lies
between them. The number and the ends are given as numerators over `den`, and the number is less
than `10 ^ magnitude` and at least a tenth of it. -/
def withDigits? (closed : Bool) (low value high den : Nat) (magnitude : Int) (digits : Nat) :
    Option (Nat × Int) :=
  let exponent := magnitude - digits
  -- In units of `10 ^ exponent` everything is over `unit.2`.
  let unit := scale 10 (-exponent) 1 den
  let floor := value * unit.1 / unit.2
  let hits (n : Nat) := within closed (low * unit.1) (n * unit.2) (high * unit.1)
  let down := value * unit.1 - floor * unit.2
  let up := (floor + 1) * unit.2 - value * unit.1
  if hits floor && (down ≤ up || !hits (floor + 1)) then some (floor, exponent)
  else if hits (floor + 1) then some (floor + 1, exponent)
  else none

/-- The number of decimal places before the point of `num / den`; minus the number of zeros after
the point if there are none before it. -/
def magnitude (num den : Nat) : Int :=
  if den ≤ num then
    (Nat.toDigits 10 (num / den)).length
  else
    -(((List.range 400).takeWhile fun j => num * Nat.pow 10 (j + 1) < den).length : Int)

/-- The decimal with the **fewest digits** that reads back as a number that is not zero, as
digits and an exponent. -/
def shortest (mantissa : Nat) (exponent : Int) : Nat × Int :=
  let below := if mantissa = mantissaBound / 2 && leastExponent < exponent then 1 else 2
  let ends := scale 2 (exponent - 2) 1 1
  let value := 4 * mantissa * ends.1
  let low := (4 * mantissa - below) * ends.1
  let high := (4 * mantissa + 2) * ends.1
  let places := magnitude value ends.2
  let tries := (List.range 17).filterMap fun n =>
    withDigits? (mantissa % 2 == 0) low value high ends.2 places (n + 1)
  let best := tries.headD (0, 0)
  -- Rounding up a lone nine gives a one with a zero behind it.
  if best.1 % 10 = 0 then (best.1 / 10, best.2 + 1) else best

/-- A decimal in **positional** notation, with at least one digit on either side of the point. -/
def positional (digits : Nat) (exponent : Int) : Text :=
  let written := Nat.toDigits 10 digits
  if 0 ≤ exponent then
    written ++ List.replicate exponent.toNat '0' ++ ['.', '0']
  else
    let places := (-exponent).toNat
    let padded := List.replicate (places + 1 - written.length) '0' ++ written
    padded.take (padded.length - places) ++ '.' :: padded.drop (padded.length - places)

/-- A number as text. -/
def toText : Binary64 → Text
  | .nan => "NaN".toList
  | .infinity negative => (if negative then ['-'] else []) ++ "inf".toList
  | .finite negative mantissa exponent =>
    let decimal := if mantissa = 0 then (0, 0) else shortest mantissa exponent
    (if negative then ['-'] else []) ++ positional decimal.1 decimal.2

end Binary64

end PascalAtlas
