import ClojureBuild.Toml.Key
import ClojureBuild.Toml.Moment
import ClojureBuild.Toml.Number
import ClojureBuild.Toml.Table

/-!
# Values

The values on the right of an equals sign.  Arrays may span lines and end in a comma; tables
between braces stand on one line and do not.  Both nest to a bounded depth.
-/

namespace ClojureBuild.Toml

/-- Read a value that is no array or table. -/
def readScalar : Reader Setting := fun letters =>
  let placed := fun (rest : List Char) => some (extentBetween letters rest)
  match letters with
  | 't' :: 'r' :: 'u' :: 'e' :: rest => some (.boolean (placed rest) true, rest)
  | 'f' :: 'a' :: 'l' :: 's' :: 'e' :: rest => some (.boolean (placed rest) false, rest)
  | first :: _ =>
      if first = '"' || first = '\'' then do
        let (content, rest) ← readQuoted letters
        return (.text (placed rest) (String.ofList content), rest)
      else if startsMoment letters then do
        let ((), rest) ← readMoment letters
        return (.moment (placed rest), rest)
      else do
        let (number, rest) ← readNumber letters
        return (
          match number with
          | .integer value => .integer (placed rest) value
          | .decimal value => .decimal (placed rest) value,
          rest)
  | [] => none

/-- Read the elements of an array up to its closing bracket. -/
def readElements (readElement : Reader Setting) : Nat → Reader (List Setting)
  | 0, _ => none
  | fuel + 1, letters =>
      match skipGaps letters with
      | ']' :: rest => some ([], rest)
      | start => do
          let (element, after) ← readElement start
          match skipGaps after with
          | ',' :: rest =>
              let (elements, left) ← readElements readElement fuel rest
              return (element :: elements, left)
          | ']' :: rest => some ([element], rest)
          | _ => none

/-- Read a path, an equals sign and a value. -/
def readAssignment (readOne : Reader Setting) : Reader (List Key × Setting) := fun letters => do
  let (path, afterPath) ← readPath letters
  match afterPath with
  | '=' :: rest =>
      let (value, left) ← readOne (skipBlanks rest)
      return ((path, value), left)
  | _ => none

/-- Read the assignments of a table up to its closing brace, at least one. -/
def readAssignments (readOne : Reader Setting) : Nat → Reader (List (List Key × Setting))
  | 0, _ => none
  | fuel + 1, letters => do
      let (assignment, after) ← readAssignment readOne letters
      match skipBlanks after with
      | ',' :: rest =>
          let (assignments, left) ← readAssignments readOne fuel rest
          return (assignment :: assignments, left)
      | '\x7d' :: rest => some ([assignment], rest)
      | _ => none

/-- Read the assignments of a table after its opening brace. -/
def readBraced (readOne : Reader Setting) : Reader (List (List Key × Setting)) := fun letters =>
  match skipBlanks letters with
  | '\x7d' :: rest => some ([], rest)
  | start => readAssignments readOne letters.length start

/-- Read a value in which arrays and tables nest at most as deep as the bound. -/
def readNested : Nat → Reader Setting
  | 0, letters => readScalar letters
  | depth + 1, letters =>
      match letters with
      | '[' :: rest => do
          let (elements, left) ← readElements (readNested depth) letters.length rest
          return (.sequence (some (extentBetween letters left)) elements, left)
      | '\x7b' :: rest => do
          let (assignments, left) ← readBraced (readNested depth) rest
          let fields ← ofAssignments? assignments
          return (.table (some (extentBetween letters left)) .closed fields, left)
      | _ => readScalar letters

/-- Read a value. -/
def readValue : Reader Setting :=
  readNested (nestingLimit - 1)

end ClojureBuild.Toml
