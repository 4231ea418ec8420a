import ClojureBuild.Setting
import ClojureBuild.Text.Digits
import ClojureBuild.Toml.Gap

/-!
# Numbers

An integer is decimal, or hexadecimal, octal or binary with a mark in front, and has to fit into 64
bits.  A number with a fraction or an exponent is rounded to its binary neighbour; one too large
is refused, while a negative one becomes minus infinity.  Single underscores may separate digits.
-/

namespace ClojureBuild.Toml

/-- A number, before its place is known. -/
inductive Number where
  | integer (value : Int)
  | decimal (value : Binary64)

/-- Whether a letter that is no digit ends a run of digits: a separator does not. -/
def readMoreDigits (base : Nat) : Reader (List Char)
  | [] => some ([], [])
  | '_' :: digit :: rest =>
      if Text.isDigitTo base digit then
        (readMoreDigits base rest).map fun (digits, left) => (digit :: digits, left)
      else
        none
  | letter :: rest =>
      if Text.isDigitTo base letter then
        (readMoreDigits base rest).map fun (digits, left) => (letter :: digits, left)
      else if letter = '_' then
        none
      else
        some ([], letter :: rest)

/-- Read at least one digit, with separators between digits. -/
def readDigits (base : Nat) : Reader (List Char)
  | [] => none
  | letter :: rest =>
      if Text.isDigitTo base letter then
        (readMoreDigits base rest).map fun (digits, left) => (letter :: digits, left)
      else
        none

/-- Read the whole part of a decimal number: one zero, or digits that start with another one. -/
def readWhole : Reader (List Char)
  | '0' :: rest => some (['0'], rest)
  | letters => readDigits 10 letters

/-- The sign in front of a number: whether it is a minus, and the letters after it. -/
def readSign : List Char → Bool × List Char
  | '-' :: rest => (true, rest)
  | '+' :: rest => (false, rest)
  | letters => (false, letters)

/-- The number with a sign. -/
def signed (negative : Bool) (value : Nat) : Int :=
  if negative then -(value : Int) else value

/-- The integer with a sign, if it fits into 64 bits. -/
def integer? (negative : Bool) (value : Nat) : Option Number :=
  if value < Nat.pow 2 63 + (if negative then 1 else 0) then
    some (.integer (signed negative value))
  else
    none

/-- Read the digits of an integer to a base other than ten. -/
def readBased (base : Nat) : Reader Number := fun letters => do
  let (digits, rest) ← readDigits base letters
  let number ← integer? false (Text.valueOfDigits base digits)
  return (number, rest)

/-- Read the fraction of a number: its digits, none if there is no point. -/
def readFraction : Reader (List Char)
  | '.' :: rest => readDigits 10 rest
  | letters => some ([], letters)

/-- Read the exponent of a number, if there is one. -/
def readExponent : Reader (Option Int)
  | letter :: rest =>
      if letter = 'e' || letter = 'E' then do
        let (negative, unsigned) := readSign rest
        let (digits, left) ← readDigits 10 unsigned
        return (some (signed negative (Text.valueOfDigits 10 digits)), left)
      else
        some (none, letter :: rest)
  | [] => some (none, [])

/-- The binary neighbour of a decimal number, unless it is too large. -/
def decimal? (number : Decimal) : Option Number :=
  match number.nearest with
  | .infinite false => none
  | value => some (.decimal value)

/-- Read a decimal number after its sign. -/
def readUnsigned (negative : Bool) : Reader Number := fun letters => do
  let (whole, afterWhole) ← readWhole letters
  let (fraction, afterFraction) ← readFraction afterWhole
  let (exponent, rest) ← readExponent afterFraction
  let digits := Text.valueOfDigits 10 (whole ++ fraction)
  if fraction.isEmpty && exponent.isNone then
    let number ← integer? negative digits
    return (number, rest)
  else
    let number ← decimal? ⟨negative, digits, exponent.getD 0 - fraction.length⟩
    return (number, rest)

/-- Read a number. -/
def readNumber : Reader Number
  | '0' :: 'x' :: rest => readBased 16 rest
  | '0' :: 'o' :: rest => readBased 8 rest
  | '0' :: 'b' :: rest => readBased 2 rest
  | letters =>
      match readSign letters with
      | (negative, 'i' :: 'n' :: 'f' :: rest) => some (.decimal (.infinite negative), rest)
      | (_, 'n' :: 'a' :: 'n' :: rest) => some (.decimal .notANumber, rest)
      | (negative, unsigned) => readUnsigned negative unsigned

end ClojureBuild.Toml
