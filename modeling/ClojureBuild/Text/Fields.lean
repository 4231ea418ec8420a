/-!
# Fields of a text

A text is cut into fields at every occurrence of one separating character, and fields are put
back together with a separator between neighbours.  Cutting never loses an empty field, so a text
with `n` separators has exactly `n + 1` fields.
-/

namespace ClojureBuild.Text

/-- The first field of a list of characters, and the fields after it. -/
def cutAt (separator : Char) : List Char → List Char × List (List Char)
  | [] => ([], [])
  | head :: tail =>
      let (field, fields) := cutAt separator tail
      if head = separator then
        ([], field :: fields)
      else
        (head :: field, fields)

/-- Every field of a text, in order. -/
def fields (separator : Char) (text : String) : List String :=
  let (field, others) := cutAt separator text.toList
  String.ofList field :: others.map String.ofList

/-- The last field of a text. -/
def lastField (separator : Char) (text : String) : String :=
  (fields separator text).getLast?.getD text

/-- The texts in order, with the separator between neighbours. -/
def joinWith (separator : String) : List String → String
  | [] => ""
  | [text] => text
  | text :: next :: rest => text ++ separator ++ joinWith separator (next :: rest)

/-- Every text followed by a line break. -/
def asLines : List String → String
  | [] => ""
  | line :: rest => line ++ "\n" ++ asLines rest

/-- Whether the first list of characters occurs somewhere in the second. -/
def occursIn (needle : List Char) : List Char → Bool
  | [] => needle.isEmpty
  | head :: tail => needle.isPrefixOf (head :: tail) || occursIn needle tail

/-- Whether the first text occurs somewhere in the second. -/
def contains (needle text : String) : Bool :=
  occursIn needle.toList text.toList

/-- Without one trailing carriage return. -/
def withoutReturn (line : List Char) : List Char :=
  match line.reverse with
  | '\r' :: rest => rest.reverse
  | _ => line

/-- The lines among the fields between line breaks: a line that a break ends loses its carriage
return, and what follows the last break is a line only when it is not empty. -/
def linesOfFields : List (List Char) → List (List Char)
  | [] => []
  | [final] => if final.isEmpty then [] else [final]
  | line :: next :: rest => withoutReturn line :: linesOfFields (next :: rest)

/-- The lines of a text, without the line breaks that end them. -/
def lines (text : String) : List String :=
  let (field, others) := cutAt '\n' text.toList
  (linesOfFields (field :: others)).map String.ofList

/-- The text with every line after the first one moved right by an indent. -/
def hangingIndent (indent text : String) : String :=
  joinWith ("\n" ++ indent) (fields '\n' text)

end ClojureBuild.Text
