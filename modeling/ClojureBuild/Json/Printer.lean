import ClojureBuild.Json

/-!
# Printing JSON

Only quotes, backslashes and control characters are escaped.  The indented form puts every element
and field on a line of its own, two blanks further in than what holds it; an array or object
without any is written without a line break.
-/

namespace ClojureBuild.Json

/-- A hexadecimal digit. -/
def hexDigit (number : Nat) : Char :=
  Nat.digitChar number

/-- One character inside quotes. -/
def escapeChar (letter : Char) : List Char :=
  if letter = '"' then ['\\', '"']
  else if letter = '\\' then ['\\', '\\']
  else if letter = '\n' then ['\\', 'n']
  else if letter = '\t' then ['\\', 't']
  else if letter = '\r' then ['\\', 'r']
  else if letter = '\x08' then ['\\', 'b']
  else if letter = '\x0c' then ['\\', 'f']
  else if letter.toNat < 0x20 then
    ['\\', 'u', '0', '0', hexDigit (letter.toNat / 16), hexDigit (letter.toNat % 16)]
  else [letter]

/-- A text between quotes. -/
def quote (text : String) : String :=
  String.ofList ('"' :: text.toList.flatMap escapeChar ++ ['"'])

/-- The value on one line. -/
def compact : Json → String
  | .null => "null"
  | .boolean value => if value then "true" else "false"
  | .integer value => toString value
  | .decimal value => value.nearest.display Binary64.shortStyle
  | .text value => quote value
  | .array elements => "[" ++ compactElements elements ++ "]"
  | .object fields => "\x7b" ++ compactFields fields ++ "\x7d"
where
  /-- The elements of an array. -/
  compactElements : List Json → String
    | [] => ""
    | [element] => element.compact
    | element :: next :: rest => element.compact ++ "," ++ compactElements (next :: rest)
  /-- The fields of an object. -/
  compactFields : List (String × Json) → String
    | [] => ""
    | [(name, value)] => quote name ++ ":" ++ value.compact
    | (name, value) :: next :: rest =>
        quote name ++ ":" ++ value.compact ++ "," ++ compactFields (next :: rest)

/-- A line break and the blanks in front of a line at a depth. -/
def lineBreak (depth : Nat) : String :=
  String.ofList ('\n' :: List.replicate (2 * depth) ' ')

/-- The value in the indented form, starting at a depth. -/
def prettyAt (depth : Nat) : Json → String
  | .null => "null"
  | .boolean value => if value then "true" else "false"
  | .integer value => toString value
  | .decimal value => value.nearest.display Binary64.shortStyle
  | .text value => quote value
  | .array [] => "[]"
  | .array (element :: rest) =>
      "[" ++ prettyElements depth (element :: rest) ++ lineBreak depth ++ "]"
  | .object [] => "\x7b\x7d"
  | .object (field :: rest) =>
      "\x7b" ++ prettyFields depth (field :: rest) ++ lineBreak depth ++ "\x7d"
where
  /-- The elements of an array, each on its line. -/
  prettyElements (depth : Nat) : List Json → String
    | [] => ""
    | [element] => lineBreak (depth + 1) ++ element.prettyAt (depth + 1)
    | element :: next :: rest =>
        lineBreak (depth + 1) ++ element.prettyAt (depth + 1) ++ "," ++
          prettyElements depth (next :: rest)
  /-- The fields of an object, each on its line. -/
  prettyFields (depth : Nat) : List (String × Json) → String
    | [] => ""
    | [(name, value)] =>
        lineBreak (depth + 1) ++ quote name ++ ": " ++ value.prettyAt (depth + 1)
    | (name, value) :: next :: rest =>
        lineBreak (depth + 1) ++ quote name ++ ": " ++ value.prettyAt (depth + 1) ++ "," ++
          prettyFields depth (next :: rest)

/-- The value in the indented form. -/
def pretty (value : Json) : String :=
  value.prettyAt 0

end ClojureBuild.Json
