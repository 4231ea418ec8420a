import ClojureBuild.Setting
import ClojureBuild.Toml.Quoted

/-!
# Keys

A key is a bare word or a text in quotes on one line.  Keys with dots between them lead from table
to table.
-/

namespace ClojureBuild.Toml

/-- The greatest number of keys, arrays and inline tables that may be nested, plus one. -/
def nestingLimit : Nat := 80

/-- Whether a character may stand in a bare key. -/
def isBareKeyLetter (letter : Char) : Bool :=
  letter.isAlphanum || letter = '_' || letter = '-'

/-- The text of a key. -/
def readKeyName : Reader (List Char)
  | '"' :: rest => readBasic rest
  | '\'' :: rest => readLiteral rest
  | letters =>
      let name := letters.takeWhile isBareKeyLetter
      if name.isEmpty then none else some (name, letters.dropWhile isBareKeyLetter)

/-- The extent between two places of a text, given by the letters still to come. -/
def extentBetween (start stop : List Char) : Extent :=
  ⟨start.length, stop.length⟩

/-- Read a single key. -/
def readKey : Reader Key := fun letters => do
  let (name, rest) ← readKeyName letters
  return (⟨String.ofList name, some (extentBetween letters rest)⟩, rest)

/-- Read keys with dots between them. -/
def readKeysWithin : Nat → Reader (List Key)
  | 0, _ => none
  | bound + 1, letters => do
      let (key, rest) ← readKey (skipBlanks letters)
      match skipBlanks rest with
      | '.' :: later =>
          let (keys, left) ← readKeysWithin bound later
          return (key :: keys, left)
      | left => some ([key], left)

/-- Read the keys of a path; at most 79 of them may follow one another. -/
def readPath : Reader (List Key) :=
  readKeysWithin (nestingLimit - 1)

end ClojureBuild.Toml
