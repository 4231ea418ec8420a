/-!
# Blank characters

The characters that count as white space in the Unicode standard, and texts without them at
either end.
-/

namespace ClojureBuild.Text

/-- The white space characters of Unicode. -/
def isBlank (letter : Char) : Bool :=
  let code := letter.toNat
  (0x9 ≤ code && code ≤ 0xD) || code == 0x20 || code == 0x85 || code == 0xA0 || code == 0x1680 ||
    (0x2000 ≤ code && code ≤ 0x200A) || code == 0x2028 || code == 0x2029 || code == 0x202F ||
    code == 0x205F || code == 0x3000

/-- The letters without blank ones at the end. -/
def dropTrailingBlanks (letters : List Char) : List Char :=
  (letters.reverse.dropWhile isBlank).reverse

/-- The text without blank characters at either end. -/
def trim (text : String) : String :=
  String.ofList (dropTrailingBlanks (text.toList.dropWhile isBlank))

/-- Whether a text has blank characters only. -/
def allBlank (text : String) : Bool :=
  text.toList.all isBlank

end ClojureBuild.Text
