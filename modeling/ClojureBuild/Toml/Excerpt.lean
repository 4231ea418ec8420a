import ClojureBuild.Setting
import ClojureBuild.Text.Fields

/-!
# Excerpts

A message about a place in a document shows the line that the place starts on and marks the letters
that belong to it.
-/

namespace ClojureBuild.Toml

/-- The number of bytes of letters. -/
def byteLength (letters : List Char) : Nat :=
  (String.ofList letters).utf8ByteSize

/-- The number of lines that end before a place, and the number of letters between the start of its
line and the place. -/
def lineAndColumn (before : List Char) : Nat × Nat :=
  (before.count '\n', (before.reverse.takeWhile (· ≠ '\n')).length)

/-- The number of marks under a line: as many as the place has bytes, but no more than the line
has left, and at least one. -/
def markCount (line : String) (column : Nat) (marked : List Char) : Nat :=
  max 1 (min (byteLength marked) (line.utf8ByteSize - column))

/-- A letter several times. -/
def repeated (count : Nat) (letter : Char) : String :=
  String.ofList (List.replicate count letter)

/-- The reason for refusing a document, with the place that it is about. -/
def excerpt (document : String) (place : Extent) (reason : String) : String :=
  let letters := document.toList
  let start := letters.length - place.atStart
  let (row, column) := lineAndColumn (letters.take start)
  let line := (Text.fields '\n' document).getD row ""
  let number := toString (row + 1)
  let margin := repeated (number.length + 1) ' ' ++ "|"
  let marked := (letters.drop start).take (place.atStart - place.atEnd)
  Text.asLines [
    "TOML parse error at line " ++ number ++ ", column " ++ toString (column + 1),
    margin,
    number ++ " | " ++ line,
    margin ++ repeated (column + 1) ' ' ++ repeated (markCount line column marked) '^',
    reason]

end ClojureBuild.Toml
