import ClojureBuild.Json.Reader

/-!
# The grammar of JSON

Which letters spell which value, in every way in which a value can be written: blanks may stand
around values, names and marks, and a character within quotes stands for itself or is escaped by
name or by number.  The grammar says nothing about how a text is read or printed.
-/

namespace ClojureBuild.Json

/-! ## Quoted texts -/

/-- Four hexadecimal digits, and the number that they write. -/
structure SpellsUnit (digits : List Char) (unit : Nat) : Prop where
  four : digits.length = 4
  hexadecimal : digits.all (Text.isDigitTo 16) = true
  value : Text.valueOfDigits 16 digits = unit

/-- The letters that name a character after a backslash, and these characters. -/
def namedEscapes : List (Char × Char) :=
  [('"', '"'), ('\\', '\\'), ('/', '/'), ('b', '\x08'), ('f', '\x0c'), ('n', '\n'), ('r', '\r'),
    ('t', '\t')]

/-- The letters that spell a character within quotes. -/
inductive SpellsChar : List Char → Char → Prop
  | plain {letter : Char} (printable : 0x20 ≤ letter.toNat) (noQuote : letter ≠ '"')
      (noBackslash : letter ≠ '\\') :
      SpellsChar [letter] letter
  | named {mark letter : Char} (known : (mark, letter) ∈ namedEscapes) :
      SpellsChar ['\\', mark] letter
  | numbered {digits : List Char} {letter : Char} (unit : SpellsUnit digits letter.toNat) :
      SpellsChar ('\\' :: 'u' :: digits) letter
  /-- A character past the first plane, as a pair of surrogates. -/
  | paired {high low : List Char} {highUnit lowUnit : Nat} {letter : Char}
      (first : SpellsUnit high highUnit) (second : SpellsUnit low lowUnit)
      (isHigh : 0xD800 ≤ highUnit ∧ highUnit ≤ 0xDBFF)
      (isLow : 0xDC00 ≤ lowUnit ∧ lowUnit ≤ 0xDFFF)
      (number : letter.toNat = 0x10000 + (highUnit - 0xD800) * 0x400 + (lowUnit - 0xDC00)) :
      SpellsChar ('\\' :: 'u' :: (high ++ '\\' :: 'u' :: low)) letter

/-- The letters that spell a text between its quotes. -/
inductive SpellsText : List Char → List Char → Prop
  | nil : SpellsText [] []
  | cons {first rest text : List Char} {letter : Char} (spelled : SpellsChar first letter)
      (others : SpellsText rest text) :
      SpellsText (first ++ rest) (letter :: text)

/-! ## Numbers -/

/-- Decimal digits, at least one. -/
structure Digits (digits : List Char) : Prop where
  nonempty : digits ≠ []
  decimal : ∀ digit ∈ digits, digit.isDigit = true

/-- The digits of a whole number: a zero stands only alone in front. -/
structure Whole (digits : List Char) : Prop extends Digits digits where
  noLeadingZero : digits.head? = some '0' → digits = ['0']

/-- The letters of a fraction with its digits, or of none. -/
inductive SpellsFraction : List Char → Option (List Char) → Prop
  | absent : SpellsFraction [] none
  | digits {digits : List Char} (spelled : Digits digits) :
      SpellsFraction ('.' :: digits) (some digits)

/-- The sign of an exponent, and whether it is negative. -/
inductive SpellsSign : List Char → Bool → Prop
  | absent : SpellsSign [] false
  | plus : SpellsSign ['+'] false
  | minus : SpellsSign ['-'] true

/-- The letters of an exponent with its value, or of none. -/
inductive SpellsExponent : List Char → Option Int → Prop
  | absent : SpellsExponent [] none
  | power {mark : Char} {sign digits : List Char} {negative : Bool}
      (isMark : mark = 'e' ∨ mark = 'E') (signed : SpellsSign sign negative)
      (spelled : Digits digits) :
      SpellsExponent (mark :: (sign ++ digits))
        (some (if negative then -(Text.valueOfDigits 10 digits : Int)
          else Text.valueOfDigits 10 digits))

/-- The letters in front of the digits of a number. -/
def minusSign (negative : Bool) : List Char :=
  if negative then ['-'] else []

/-- The letters that spell a number. -/
inductive SpellsNumber : List Char → Json → Prop
  | parts (negative : Bool) {whole fractionLetters exponentLetters : List Char}
      {fraction : Option (List Char)} {exponent : Option Int} (isWhole : Whole whole)
      (inFraction : SpellsFraction fractionLetters fraction)
      (inExponent : SpellsExponent exponentLetters exponent) :
      SpellsNumber (minusSign negative ++ (whole ++ (fractionLetters ++ exponentLetters)))
        (ofNumberParts negative whole fraction exponent)

/-! ## Values -/

/-- Letters that may stand around values, names and marks. -/
def Blank (letters : List Char) : Prop :=
  ∀ letter ∈ letters, isSpace letter = true

/-- An item with blanks around it. -/
inductive Padded {α : Type} (Spells : List Char → α → Prop) : List Char → α → Prop
  | within {before letters after : List Char} {item : α} (blankBefore : Blank before)
      (spelled : Spells letters item) (blankAfter : Blank after) :
      Padded Spells (before ++ (letters ++ after)) item

/-- Items with commas between them, at least one. -/
inductive Listed {α : Type} (Spells : List Char → α → Prop) : List Char → List α → Prop
  | last {letters : List Char} {item : α} (spelled : Spells letters item) :
      Listed Spells letters [item]
  | more {letters rest : List Char} {item : α} {items : List α} (spelled : Spells letters item)
      (others : Listed Spells rest items) :
      Listed Spells (letters ++ ',' :: rest) (item :: items)

/-- A quoted name with blanks around it, a colon and a value. -/
inductive SpellsField (SpellsValue : List Char → Json → Prop) :
    List Char → String × Json → Prop
  | named {before quoted name between letters : List Char} {value : Json}
      (blankBefore : Blank before) (spelledName : SpellsText quoted name)
      (blankBetween : Blank between) (spelled : SpellsValue letters value) :
      SpellsField SpellsValue (before ++ '"' :: (quoted ++ '"' :: (between ++ ':' :: letters)))
        (String.ofList name, value)

/-- The letters that spell a value. -/
inductive Spells : List Char → Json → Prop
  | null : Spells ['n', 'u', 'l', 'l'] .null
  | yes : Spells ['t', 'r', 'u', 'e'] (.boolean true)
  | no : Spells ['f', 'a', 'l', 's', 'e'] (.boolean false)
  | number {letters : List Char} {value : Json} (spelled : SpellsNumber letters value) :
      Spells letters value
  | text {letters text : List Char} (spelled : SpellsText letters text) :
      Spells ('"' :: (letters ++ ['"'])) (.text (String.ofList text))
  | emptyArray {letters : List Char} (blank : Blank letters) :
      Spells ('[' :: (letters ++ [']'])) (.array [])
  | array {letters : List Char} {elements : List Json}
      (listed : Listed (Padded Spells) letters elements) :
      Spells ('[' :: (letters ++ [']'])) (.array elements)
  | emptyObject {letters : List Char} (blank : Blank letters) :
      Spells ('\x7b' :: (letters ++ ['\x7d'])) (.object [])
  /-- The last field of a name counts. -/
  | object {letters : List Char} {fields : List (String × Json)}
      (listed : Listed (SpellsField (Padded Spells)) letters fields) :
      Spells ('\x7b' :: (letters ++ ['\x7d'])) (ofFields fields)

/-- Whether a text is JSON for a value. -/
def Denotes (text : String) (value : Json) : Prop :=
  Padded Spells text.toList value

end ClojureBuild.Json
