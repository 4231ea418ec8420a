/-!
# Edit distance

The least number of single-byte insertions, deletions and substitutions between two texts, found
row by row: the row of a leading part of the first text lists its distance to every leading part
of the second.  `nearMiss?` picks the nearest of several candidates when it is one or two edits
away.
-/

namespace ClojureBuild.Text

/-- The rest of a row, from the cell to the left, the letters still to come and the row above. -/
def fillRow (letter : UInt8) : Nat → List UInt8 → List Nat → List Nat
  | left, goal :: goals, diagonal :: above :: rest =>
      let substituted := diagonal + (if letter = goal then 0 else 1)
      let cell := min (min (above + 1) (left + 1)) substituted
      left :: fillRow letter cell goals (above :: rest)
  | left, _, _ => [left]

/-- The row below a row, for one more letter of the first text. -/
def nextRow (goals : List UInt8) (row : List Nat) (letter : UInt8) : List Nat :=
  fillRow letter (row.headD 0 + 1) goals row

/-- The row of the empty leading part: as many insertions as there are letters. -/
def firstRow (goals : List UInt8) : List Nat :=
  List.range (goals.length + 1)

/-- The distance between two lists of bytes. -/
def byteDistance (letters goals : List UInt8) : Nat :=
  (letters.foldl (nextRow goals) (firstRow goals)).getLastD 0

/-- The distance between the UTF-8 bytes of two texts. -/
def editDistance (left right : String) : Nat :=
  byteDistance left.toUTF8.data.toList right.toUTF8.data.toList

/-- The first candidate at the least distance, with that distance. -/
def nearest (text : String) : List String → Option (String × Nat)
  | [] => none
  | candidate :: rest =>
      let distance := editDistance text candidate
      match nearest text rest with
      | none => some (candidate, distance)
      | some (other, otherDistance) =>
          if otherDistance < distance then
            some (other, otherDistance)
          else
            some (candidate, distance)

/-- The first nearest candidate, when it is one or two edits away. -/
def nearMiss? (text : String) (candidates : List String) : Option String :=
  match nearest text candidates with
  | some (candidate, distance) => if 0 < distance ∧ distance ≤ 2 then some candidate else none
  | none => none

end ClojureBuild.Text
