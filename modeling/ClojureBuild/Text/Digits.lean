/-!
# Digits

The value of digits to a base, and the number that a list of them writes.
-/

namespace ClojureBuild.Text

/-- The value of a hexadecimal digit. -/
def hexValue? (letter : Char) : Option Nat :=
  let code := letter.toNat
  if letter.isDigit then some (code - 0x30)
  else if 0x61 ≤ code && code ≤ 0x66 then some (code - 0x57)
  else if 0x41 ≤ code && code ≤ 0x46 then some (code - 0x37)
  else none

/-- Whether a character is a digit to a base of at most sixteen. -/
def isDigitTo (base : Nat) (letter : Char) : Bool :=
  match hexValue? letter with
  | some value => decide (value < base)
  | none => false

/-- The number that digits write. -/
def valueOfDigits (base : Nat) (digits : List Char) : Nat :=
  digits.foldl (fun value digit => value * base + (hexValue? digit).getD 0) 0

/-- The character whose number hexadecimal digits write. -/
def charOfHex? (digits : List Char) : Option Char :=
  let number := valueOfDigits 16 digits
  if digits.all (isDigitTo 16) && number.isValidChar then some (Char.ofNat number) else none

end ClojureBuild.Text
