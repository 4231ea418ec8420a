import ClojureBuild.Text.Digits
import ClojureBuild.Toml.Gap

/-!
# Moments

A date, a time of day, or both, the time perhaps with its distance to universal time.  Dates follow
the Gregorian calendar and times have seconds, up to a leap second.
-/

namespace ClojureBuild.Toml

/-- Read a number of two digits in a range. -/
def readPair (least greatest : Nat) : Reader Nat
  | first :: second :: rest =>
      let value := Text.valueOfDigits 10 [first, second]
      if first.isDigit && second.isDigit && least ≤ value && value ≤ greatest then
        some (value, rest)
      else
        none
  | _ => none

/-- Read a mark. -/
def readMark (mark : Char) : Reader Unit
  | letter :: rest => if letter = mark then some ((), rest) else none
  | [] => none

/-- Whether a year has a leap day. -/
def isLeapYear (year : Nat) : Bool :=
  year % 4 == 0 && (year % 100 != 0 || year % 400 == 0)

/-- The number of days of a month. -/
def daysOfMonth (year month : Nat) : Nat :=
  if month = 2 then (if isLeapYear year then 29 else 28)
  else if month = 4 ∨ month = 6 ∨ month = 9 ∨ month = 11 then 30
  else 31

/-- Read what follows the year of a date. -/
def readMonthAndDay (year : Nat) : Reader Unit := fun letters => do
  let (month, rest) ← readPair 1 12 letters
  let ((), rest) ← readMark '-' rest
  let (_, rest) ← readPair 1 (daysOfMonth year month) rest
  return ((), rest)

/-- The letters after the fraction of a second, if there is one. -/
def skipSecondFraction (letters : List Char) : List Char :=
  match letters with
  | '.' :: digit :: rest => if digit.isDigit then rest.dropWhile Char.isDigit else letters
  | _ => letters

/-- Read a time of day. -/
def readTime : Reader Unit := fun letters => do
  let (_, rest) ← readPair 0 23 letters
  let ((), rest) ← readMark ':' rest
  let (_, rest) ← readPair 0 59 rest
  let ((), rest) ← readMark ':' rest
  let (_, rest) ← readPair 0 60 rest
  return ((), skipSecondFraction rest)

/-- Read the distance to universal time, if there is one. -/
def readOffset : Reader Unit
  | 'Z' :: rest => some ((), rest)
  | 'z' :: rest => some ((), rest)
  | letter :: rest =>
      if letter = '+' || letter = '-' then do
        let (_, later) ← readPair 0 23 rest
        let ((), later) ← readMark ':' later
        let (_, later) ← readPair 0 59 later
        return ((), later)
      else
        some ((), letter :: rest)
  | [] => some ((), [])

/-- Whether letters start like a time of day. -/
def startsTime : List Char → Bool
  | first :: second :: ':' :: _ => first.isDigit && second.isDigit
  | _ => false

/-- The year at the start of a date. -/
def startsDate? : List Char → Option (Nat × List Char)
  | a :: b :: c :: d :: '-' :: rest =>
      if [a, b, c, d].all Char.isDigit then
        some (Text.valueOfDigits 10 [a, b, c, d], rest)
      else
        none
  | _ => none

/-- Read the time after a date, if there is one. -/
def readTimeOfDate : Reader Unit
  | [] => some ((), [])
  | letter :: rest =>
      if (letter = 'T' || letter = 't' || letter = ' ') && startsTime rest then do
        let ((), later) ← readTime rest
        readOffset later
      else
        some ((), letter :: rest)

/-- Whether letters start like a moment. -/
def startsMoment (letters : List Char) : Bool :=
  startsTime letters || (startsDate? letters).isSome

/-- Read a moment. -/
def readMoment : Reader Unit := fun letters =>
  match startsDate? letters with
  | some (year, rest) => do
      let ((), later) ← readMonthAndDay year rest
      readTimeOfDate later
  | none => readTime letters

end ClojureBuild.Toml
