import ClojureBuild.Text.Digits
import ClojureBuild.Toml.Gap

/-!
# Quoted texts

A text between double quotes may hold escapes, one between single quotes may not.  Three quotes
open a text of several lines: a line break right after them is dropped, and a backslash at the end
of a line joins it to the next letter that is no blank.
-/

namespace ClojureBuild.Toml

/-- The character that a letter after a backslash stands for. -/
def plainEscape? (letter : Char) : Option Char :=
  if letter = '"' then some '"'
  else if letter = '\\' then some '\\'
  else if letter = 'b' then some '\x08'
  else if letter = 'f' then some '\x0c'
  else if letter = 'n' then some '\n'
  else if letter = 'r' then some '\r'
  else if letter = 't' then some '\t'
  else none

/-- A letter in front of what was read. -/
def prepend (letter : Char) : Option (List Char × List Char) → Option (List Char × List Char)
  | some (letters, rest) => some (letter :: letters, rest)
  | none => none

/-- A character in front of what was read, if it is one. -/
def prependChar? (letter : Option Char) (reading : Option (List Char × List Char)) :
    Option (List Char × List Char) :=
  letter.bind fun letter => prepend letter reading

/-- The rest of a text after its opening double quote. -/
def readBasic : Reader (List Char)
  | [] => none
  | '"' :: rest => some ([], rest)
  | '\\' :: 'u' :: a :: b :: c :: d :: rest =>
      prependChar? (Text.charOfHex? [a, b, c, d]) (readBasic rest)
  | '\\' :: 'U' :: a :: b :: c :: d :: e :: f :: g :: h :: rest =>
      prependChar? (Text.charOfHex? [a, b, c, d, e, f, g, h]) (readBasic rest)
  | '\\' :: letter :: rest => prependChar? (plainEscape? letter) (readBasic rest)
  | letter :: rest =>
      if isPrintable letter && letter ≠ '\\' then prepend letter (readBasic rest) else none

/-- The rest of a text after its opening single quote. -/
def readLiteral : Reader (List Char)
  | [] => none
  | '\'' :: rest => some ([], rest)
  | letter :: rest => if isPrintable letter then prepend letter (readLiteral rest) else none

/-- Whether a line has only blanks left. -/
def isLineEnd (letters : List Char) : Bool :=
  (lineBreak? (skipBlanks letters)).isSome

/-- The rest of a text of several lines between double quotes.  After a backslash at the end of a
line blanks and line breaks are joined away. -/
def readBasicLines (joining : Bool) : Reader (List Char)
  | [] => none
  | '"' :: '"' :: '"' :: '"' :: '"' :: rest => some (['"', '"'], rest)
  | '"' :: '"' :: '"' :: '"' :: rest => some (['"'], rest)
  | '"' :: '"' :: '"' :: rest => some ([], rest)
  | '\r' :: '\n' :: rest =>
      if joining then readBasicLines true rest else prepend '\n' (readBasicLines false rest)
  | '\n' :: rest =>
      if joining then readBasicLines true rest else prepend '\n' (readBasicLines false rest)
  | '\\' :: 'u' :: a :: b :: c :: d :: rest =>
      prependChar? (Text.charOfHex? [a, b, c, d]) (readBasicLines false rest)
  | '\\' :: 'U' :: a :: b :: c :: d :: e :: f :: g :: h :: rest =>
      prependChar? (Text.charOfHex? [a, b, c, d, e, f, g, h]) (readBasicLines false rest)
  | '\\' :: letter :: rest =>
      if isLineEnd (letter :: rest) then readBasicLines true rest
      else prependChar? (plainEscape? letter) (readBasicLines false rest)
  | letter :: rest =>
      if joining && isBlank letter then readBasicLines true rest
      else if isPrintable letter && letter ≠ '\\' then
        prepend letter (readBasicLines false rest)
      else none

/-- The rest of a text of several lines between single quotes. -/
def readLiteralLines : Reader (List Char)
  | [] => none
  | '\'' :: '\'' :: '\'' :: '\'' :: '\'' :: rest => some (['\'', '\''], rest)
  | '\'' :: '\'' :: '\'' :: '\'' :: rest => some (['\''], rest)
  | '\'' :: '\'' :: '\'' :: rest => some ([], rest)
  | '\r' :: '\n' :: rest => prepend '\n' (readLiteralLines rest)
  | '\n' :: rest => prepend '\n' (readLiteralLines rest)
  | letter :: rest =>
      if isPrintable letter then prepend letter (readLiteralLines rest) else none

/-- The letters after a line break, if they start with one. -/
def dropLineBreak (letters : List Char) : List Char :=
  (lineBreak? letters).getD letters

/-- Read a text in any kind of quotes. -/
def readQuoted : Reader (List Char)
  | '"' :: '"' :: '"' :: rest => readBasicLines false (dropLineBreak rest)
  | '\'' :: '\'' :: '\'' :: rest => readLiteralLines (dropLineBreak rest)
  | '"' :: rest => readBasic rest
  | '\'' :: rest => readLiteral rest
  | _ => none

end ClojureBuild.Toml
