import ClojureBuild.Text.Fields

/-!
# Decimal numbers and their binary neighbours

A decimal number is a sign, digits and a power of ten.  It is rounded to the nearest binary number
with 53 significant bits, a tie going to the even neighbour, and a binary number is written with
the fewest digits that round back to it.  All of this is exact arithmetic on natural numbers.
-/

namespace ClojureBuild

/-- The number `± digits · 10 ^ exponent`. -/
structure Decimal where
  negative : Bool
  digits : Nat
  exponent : Int
  deriving DecidableEq, Repr

/-- A binary number: `± mantissa · 2 ^ exponent`, an infinity, or no number at all. -/
inductive Binary64 where
  | finite (negative : Bool) (mantissa : Nat) (exponent : Int)
  | infinite (negative : Bool)
  | notANumber
  deriving DecidableEq, Repr

namespace Decimal

/-- The fraction `numerator / denominator` with a power added to the numerator or denominator. -/
def scale (base : Nat) (power : Int) (fraction : Nat × Nat) : Nat × Nat :=
  if 0 ≤ power then
    (fraction.1 * Nat.pow base power.toNat, fraction.2)
  else
    (fraction.1, fraction.2 * Nat.pow base (-power).toNat)

/-- The quotient rounded to the nearest whole number, a tie to the even one. -/
def roundQuotient (fraction : Nat × Nat) : Nat :=
  let whole := fraction.1 / fraction.2
  let twice := 2 * (fraction.1 % fraction.2)
  if twice < fraction.2 then whole
  else if fraction.2 < twice then whole + 1
  else whole + whole % 2

/-- The number of binary digits. -/
def bitLength (number : Nat) : Nat :=
  if number = 0 then 0 else number.log2 + 1

/-- The least power of two between neighbours. -/
def leastExponent : Int := -1074

/-- The greatest power of two between neighbours. -/
def greatestExponent : Int := 971

/-- The power of two between the neighbours of a positive fraction. -/
def binaryExponent (fraction : Nat × Nat) : Int :=
  let guess := (bitLength fraction.1 : Int) - bitLength fraction.2 - 53
  let first := max guess leastExponent
  let scaled := scale 2 (-first) fraction
  if scaled.1 / scaled.2 < Nat.pow 2 53 then first else first + 1

/-- The nearest binary number of a positive fraction. -/
def nearestOfFraction (negative : Bool) (fraction : Nat × Nat) : Binary64 :=
  let exponent := binaryExponent fraction
  let mantissa := roundQuotient (scale 2 (-exponent) fraction)
  let (mantissa, exponent) :=
    if mantissa = Nat.pow 2 53 then (Nat.pow 2 52, exponent + 1) else (mantissa, exponent)
  if greatestExponent < exponent then
    .infinite negative
  else
    .finite negative mantissa exponent

/-- The nearest binary number.  Magnitudes far outside the binary range are decided by their number
of digits alone. -/
def nearest (number : Decimal) : Binary64 :=
  let magnitude := (Nat.toDigits 10 number.digits).length + number.exponent
  if number.digits = 0 ∨ magnitude < -400 then .finite number.negative 0 leastExponent
  else if 400 < magnitude then .infinite number.negative
  else nearestOfFraction number.negative (scale 10 number.exponent (number.digits, 1))

end Decimal

namespace Binary64

/-- Whether a fraction rounds to the binary number `mantissa · 2 ^ exponent`. -/
def isRoundedTo (mantissa : Nat) (exponent : Int) (fraction : Nat × Nat) : Bool :=
  decide (Decimal.nearestOfFraction false fraction = .finite false mantissa exponent)

/-- The number of decimal digits in front of the point of a positive fraction, or minus the number
of zeros behind it. -/
def decimalPoint (fraction : Nat × Nat) : Int :=
  let whole := fraction.1 / fraction.2
  let isZeroAt := fun count => fraction.1 * Nat.pow 10 (count + 1) / fraction.2 = 0
  if 0 < whole then
    (Nat.toDigits 10 whole).length
  else
    0 - ((List.range 400).takeWhile isZeroAt).length

/-- The digits, with a power of ten, of the shortest decimal number with at most `more` further
digits that rounds to the binary number of the given value.  Of two such numbers the nearer one is
taken; when both are equally near, `tieGoesUp` decides by the digits of the lower one. -/
def shortestFrom (tieGoesUp : Nat → Bool) (mantissa : Nat) (exponent : Int) (value : Nat × Nat)
    (point : Int) : Nat → Nat → Nat × Int
  | _, 0 => (mantissa, exponent)
  | count, more + 1 =>
      let power := point - count
      let scaled := Decimal.scale 10 (-power) value
      let below := scaled.1 / scaled.2
      let fits := fun digits =>
        isRoundedTo mantissa exponent (Decimal.scale 10 power (digits, 1))
      let twice := 2 * (scaled.1 % scaled.2)
      let isUpperNearer := decide (scaled.2 < twice) || (scaled.2 == twice && tieGoesUp below)
      if fits below && (!fits (below + 1) || !isUpperNearer) then
        (below, power)
      else if fits (below + 1) then
        (below + 1, power)
      else
        shortestFrom tieGoesUp mantissa exponent value point (count + 1) more

/-- The fewest digits that round back to a finite number, with a power of ten. -/
def shortest (tieGoesUp : Nat → Bool) (mantissa : Nat) (exponent : Int) : Nat × Int :=
  if mantissa = 0 then
    (0, 0)
  else
    let value := Decimal.scale 2 exponent (mantissa, 1)
    shortestFrom tieGoesUp mantissa exponent value (decimalPoint value) 0 18

/-- The digits with a point in front of the last `-power`, or with zeros added. -/
def positional (digits : Nat) (power : Int) : String :=
  let letters := Nat.toDigits 10 digits
  if 0 ≤ power then
    String.ofList (letters ++ List.replicate power.toNat '0') ++ ".0"
  else
    let places := (-power).toNat
    let padded := List.replicate (places + 1 - letters.length) '0' ++ letters
    String.ofList (padded.take (padded.length - places)) ++ "." ++
      String.ofList (padded.drop (padded.length - places))

/-- The digits with a point after the first one, and an exponent. -/
def scientific (digits : Nat) (power : Int) : String :=
  let letters := Nat.toDigits 10 digits
  let fraction := if letters.length ≤ 1 then [] else '.' :: letters.drop 1
  String.ofList (letters.take 1 ++ fraction) ++ "e" ++
    toString (power + (letters.length : Int) - 1)

/-- The digits in positional notation while the point falls near them, else with an exponent. -/
def adaptive (digits : Nat) (power : Int) : String :=
  let point := power + (Nat.toDigits 10 digits).length
  if -5 < point ∧ point ≤ 16 then positional digits power else scientific digits power

/-- How numbers are written: which of two equally near decimal numbers is taken, and how digits
are laid out. -/
structure Style where
  tieGoesUp : Nat → Bool
  layout : Nat → Int → String

/-- Positional notation; a tie goes up. -/
def plainStyle : Style :=
  ⟨fun _ => true, positional⟩

/-- Positional notation while it is short; a tie goes to the even digit. -/
def shortStyle : Style :=
  ⟨fun below => below % 2 == 1, adaptive⟩

/-- The text of a number, with the fewest digits that round back to it. -/
def display (style : Style) : Binary64 → String
  | .notANumber => "NaN"
  | .infinite negative => if negative then "-inf" else "inf"
  | .finite negative mantissa exponent =>
      let (digits, power) := shortest style.tieGoesUp mantissa exponent
      (if negative then "-" else "") ++ style.layout digits power

end Binary64

end ClojureBuild
