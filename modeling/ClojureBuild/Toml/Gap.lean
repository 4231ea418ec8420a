/-!
# Gaps

What may stand between the parts of a TOML document: blanks, line breaks and comments.
-/

namespace ClojureBuild.Toml

/-- Reads something at the start of a list of letters and gives back the letters after it. -/
abbrev Reader (α : Type) := List Char → Option (α × List Char)

/-- Whether a character is a blank within a line. -/
def isBlank (letter : Char) : Bool :=
  letter = ' ' || letter = '\t'

/-- Whether a character may stand in a comment: no control character but the tab. -/
def isPrintable (letter : Char) : Bool :=
  letter = '\t' || (0x20 ≤ letter.toNat && letter.toNat ≠ 0x7F)

/-- The letters after leading blanks. -/
def skipBlanks (letters : List Char) : List Char :=
  letters.dropWhile isBlank

/-- The letters after leading blanks, line breaks and comments. -/
def skipGapsIn (inComment : Bool) : List Char → List Char
  | [] => []
  | '\n' :: rest => skipGapsIn false rest
  | '\r' :: '\n' :: rest => skipGapsIn false rest
  | letter :: rest =>
      if inComment && isPrintable letter then skipGapsIn true rest
      else if isBlank letter then skipGapsIn inComment rest
      else if letter = '#' then skipGapsIn true rest
      else letter :: rest

/-- The letters after leading blanks, line breaks and comments. -/
def skipGaps : List Char → List Char :=
  skipGapsIn false

/-- The letters after a comment, if there is one. -/
def skipComment : List Char → List Char
  | '#' :: rest => rest.dropWhile isPrintable
  | letters => letters

/-- The letters after a line break. -/
def lineBreak? : List Char → Option (List Char)
  | '\n' :: rest => some rest
  | '\r' :: '\n' :: rest => some rest
  | _ => none

/-- The letters after the end of a line on which only blanks and a comment are left. -/
def endOfLine? (letters : List Char) : Option (List Char) :=
  match skipComment (skipBlanks letters) with
  | [] => some []
  | remaining => lineBreak? remaining

end ClojureBuild.Toml
