import ClojureBuild.Json
import ClojureBuild.Text.Digits

/-!
# Reading JSON

A text is read as one value with blanks around it.  Integers are kept exactly as far as they fit
into 64 bits; other numbers are decimal.  Every reader takes the letters still to come and gives
back what is left of them.
-/

namespace ClojureBuild.Json

/-- Whether a character may stand between the parts of a text. -/
def isSpace (letter : Char) : Bool :=
  letter = ' ' || letter = '\n' || letter = '\t' || letter = '\r'

/-- The letters after leading blanks. -/
def skipSpaces (letters : List Char) : List Char :=
  letters.dropWhile isSpace

/-- The number that four hexadecimal digits write. -/
def hexQuad? (first second third fourth : Char) : Option Nat :=
  let digits := [first, second, third, fourth]
  if digits.all (Text.isDigitTo 16) then some (Text.valueOfDigits 16 digits) else none

/-- The character that a letter after a backslash stands for. -/
def plainEscape? (letter : Char) : Option Char :=
  if letter = '"' then some '"'
  else if letter = '\\' then some '\\'
  else if letter = '/' then some '/'
  else if letter = 'b' then some '\x08'
  else if letter = 'f' then some '\x0c'
  else if letter = 'n' then some '\n'
  else if letter = 'r' then some '\r'
  else if letter = 't' then some '\t'
  else none

/-- The character of a pair of surrogates. -/
def surrogatePair? (high low : Nat) : Option Char :=
  if 0xD800 ≤ high && high ≤ 0xDBFF && 0xDC00 ≤ low && low ≤ 0xDFFF then
    some (Char.ofNat (0x10000 + (high - 0xD800) * 0x400 + (low - 0xDC00)))
  else
    none

/-- The character of a number that is no surrogate. -/
def plainUnit? (unit : Nat) : Option Char :=
  if 0xD800 ≤ unit && unit ≤ 0xDFFF then none else some (Char.ofNat unit)

/-- The rest of a text after its opening quote. -/
def readQuoted : List Char → Option (List Char × List Char)
  | [] => none
  | '"' :: rest => some ([], rest)
  | '\\' :: 'u' :: a :: b :: c :: d :: rest => do
      let unit ← hexQuad? a b c d
      match plainUnit? unit with
      | some letter =>
          let (letters, left) ← readQuoted rest
          return (letter :: letters, left)
      | none =>
          match rest with
          | '\\' :: 'u' :: e :: f :: g :: h :: later =>
              let low ← hexQuad? e f g h
              let letter ← surrogatePair? unit low
              let (letters, left) ← readQuoted later
              return (letter :: letters, left)
          | _ => none
  | '\\' :: letter :: rest => do
      let meant ← plainEscape? letter
      let (letters, left) ← readQuoted rest
      return (meant :: letters, left)
  | letter :: rest =>
      if letter.toNat < 0x20 || letter = '\\' then
        none
      else do
        let (letters, left) ← readQuoted rest
        return (letter :: letters, left)

/-- The digits of a whole part: one zero, or digits that start with another one. -/
def readWhole (letters : List Char) : Option (List Char × List Char) :=
  match letters.takeWhile Char.isDigit with
  | [] => none
  | '0' :: _ => some (['0'], letters.drop 1)
  | digits => some (digits, letters.dropWhile Char.isDigit)

/-- The digits after a point, if there is one. -/
def readFraction (letters : List Char) : Option (Option (List Char) × List Char) :=
  match letters with
  | '.' :: rest =>
      let digits := rest.takeWhile Char.isDigit
      if digits.isEmpty then none else some (some digits, rest.dropWhile Char.isDigit)
  | _ => some (none, letters)

/-- The exponent after an `e`, if there is one. -/
def readExponent (letters : List Char) : Option (Option Int × List Char) :=
  let ofDigits := fun (negative : Bool) (rest : List Char) =>
    let digits := rest.takeWhile Char.isDigit
    let value : Int := Text.valueOfDigits 10 digits
    if digits.isEmpty then none
    else some (some (if negative then -value else value), rest.dropWhile Char.isDigit)
  match letters with
  | letter :: rest =>
      if letter = 'e' || letter = 'E' then
        match rest with
        | '-' :: digits => ofDigits true digits
        | '+' :: digits => ofDigits false digits
        | digits => ofDigits false digits
      else
        some (none, letters)
  | [] => some (none, letters)

/-- The number with the given parts: an integer if it is written as one and fits. -/
def ofNumberParts (negative : Bool) (whole : List Char) (fraction : Option (List Char))
    (exponent : Option Int) : Json :=
  let digits := Text.valueOfDigits 10 (whole ++ fraction.getD [])
  let power := exponent.getD 0 - (fraction.getD []).length
  let fits := if negative then 0 < digits && digits ≤ Nat.pow 2 63 else digits < Nat.pow 2 64
  if fraction.isNone && exponent.isNone && fits then
    .integer (if negative then -(digits : Int) else digits)
  else
    .decimal ⟨negative, digits, power⟩

/-- Read a number. -/
def readNumber (letters : List Char) : Option (Json × List Char) := do
  let (negative, unsigned) :=
    match letters with
    | '-' :: rest => (true, rest)
    | _ => (false, letters)
  let (whole, afterWhole) ← readWhole unsigned
  let (fraction, afterFraction) ← readFraction afterWhole
  let (exponent, rest) ← readExponent afterFraction
  return (ofNumberParts negative whole fraction exponent, rest)

/-- Read items with commas between them up to a closing mark. -/
def readItems {α : Type} (readItem : List Char → Option (α × List Char)) (closing : Char) :
    Nat → List Char → Option (List α × List Char)
  | 0, _ => none
  | fuel + 1, letters => do
      let (item, afterItem) ← readItem letters
      match skipSpaces afterItem with
      | ',' :: rest =>
          let (items, left) ← readItems readItem closing fuel rest
          return (item :: items, left)
      | mark :: rest => if mark = closing then some ([item], rest) else none
      | [] => none

/-- Read the items between an opening mark, which is gone, and a closing one. -/
def readBetween {α : Type} (readItem : List Char → Option (α × List Char)) (closing : Char)
    (letters : List Char) : Option (List α × List Char) :=
  match skipSpaces letters with
  | [] => none
  | mark :: rest =>
      if mark = closing then some ([], rest)
      else readItems readItem closing letters.length letters

/-- Read the name of a field, the colon after it and its value. -/
def readField (readItem : List Char → Option (Json × List Char)) (letters : List Char) :
    Option ((String × Json) × List Char) :=
  match skipSpaces letters with
  | '"' :: rest => do
      let (name, afterName) ← readQuoted rest
      match skipSpaces afterName with
      | ':' :: afterColon =>
          let (value, left) ← readItem afterColon
          return ((String.ofList name, value), left)
      | _ => none
  | _ => none

/-- Read a value that nests at most as deep as the bound. -/
def readValue : Nat → List Char → Option (Json × List Char)
  | 0, _ => none
  | depth + 1, letters =>
      match skipSpaces letters with
      | [] => none
      | '"' :: rest => do
          let (letters, left) ← readQuoted rest
          return (.text (String.ofList letters), left)
      | '[' :: rest => do
          let (elements, left) ← readBetween (readValue depth) ']' rest
          return (.array elements, left)
      | '\x7b' :: rest => do
          let (fields, left) ← readBetween (readField (readValue depth)) '\x7d' rest
          return (ofFields fields, left)
      | 'n' :: 'u' :: 'l' :: 'l' :: rest => some (.null, rest)
      | 't' :: 'r' :: 'u' :: 'e' :: rest => some (.boolean true, rest)
      | 'f' :: 'a' :: 'l' :: 's' :: 'e' :: rest => some (.boolean false, rest)
      | other => readNumber other

/-- Read a text as one JSON value. -/
def parse? (text : String) : Option Json :=
  match readValue (text.length + 1) text.toList with
  | some (value, rest) => if (skipSpaces rest).isEmpty then some value else none
  | none => none

end ClojureBuild.Json
