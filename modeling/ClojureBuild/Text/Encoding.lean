/-!
# Texts in bytes

The names of files and the arguments of commands are made of bytes, which need not spell letters.
Such a text is kept with one letter for each byte, the letter that has the byte as its number.  A
text in letters stands there in UTF-8.  Bytes that are no UTF-8 cannot be read, but they can be
shown, with a mark in place of what spells no letter.
-/

namespace ClojureBuild

/-- A text in bytes: each letter stands for the byte with its number. -/
abbrev ByteText := String

namespace Text

/-! ## Writing -/

/-- The letter that stands for a byte. -/
def ofByte (byte : UInt8) : Char :=
  Char.ofNat byte.toNat

/-- The bytes that spell a letter. -/
def encodeLetter (letter : Char) : List Char :=
  (String.utf8EncodeChar letter).map ofByte

/-- The bytes that spell a text. -/
def encode (text : String) : ByteText :=
  String.ofList (text.toList.flatMap encodeLetter)

/-- The bytes that the letters of a text stand for. -/
def toBytes (text : ByteText) : List UInt8 :=
  text.toList.map fun letter => letter.toNat.toUInt8

/-! ## Reading -/

/-- A piece of a text in bytes: the spelling of a letter, or bytes that no letter begins with or
that break off too early. -/
inductive Piece where
  | letter (spelled : Char)
  | broken (bytes : List Char)
  deriving DecidableEq, Repr

namespace Piece

/-- The bytes of a piece. -/
def bytes : Piece → List Char
  | .letter spelled => encodeLetter spelled
  | .broken bytes => bytes

/-- The letter that a piece spells. -/
def letter? : Piece → Option Char
  | .letter spelled => some spelled
  | .broken _ => none

end Piece

/-- The least and the greatest number of a byte that goes on with a letter. -/
def follower : Nat × Nat :=
  (0x80, 0xBF)

/-- What the bytes after a first one have to lie between, if a letter begins with this one.  The
bounds of the second byte leave out letters that have a shorter spelling, surrogates, and numbers
beyond the last letter. -/
def followers? (first : Nat) : Option (List (Nat × Nat)) :=
  if first < 0x80 then some []
  else if first < 0xC2 then none
  else if first < 0xE0 then some [follower]
  else if first < 0xF0 then
    some [(if first = 0xE0 then 0xA0 else 0x80, if first = 0xED then 0x9F else 0xBF), follower]
  else if first < 0xF5 then
    some [(if first = 0xF0 then 0x90 else 0x80, if first = 0xF4 then 0x8F else 0xBF), follower,
      follower]
  else none

/-- The bytes at the front that lie within bounds, one after the other. -/
def within : List (Nat × Nat) → List Char → List Char
  | (least, greatest) :: bounds, byte :: rest =>
      if least ≤ byte.toNat ∧ byte.toNat ≤ greatest then byte :: within bounds rest else []
  | _, _ => []

/-- The letter that a first byte and those after it spell: all of them hold digits of its number,
and the first one also tells how many there are. -/
def assemble (first : Char) (later : List Char) : Char :=
  let leading := if later.isEmpty then first.toNat else first.toNat % (64 >>> later.length)
  Char.ofNat (later.foldl (fun number byte => number * 64 + byte.toNat % 64) leading)

/-- The piece that a first byte begins. -/
def frontPiece (first : Char) (rest : List Char) : Piece :=
  match followers? first.toNat with
  | none => .broken [first]
  | some bounds =>
      let later := within bounds rest
      if later.length = bounds.length then .letter (assemble first later)
      else .broken (first :: later)

/-- The pieces of a list of bytes, after some bytes that belong to a piece before. -/
def piecesAfter : Nat → List Char → List Piece
  | _, [] => []
  | skipped + 1, _ :: rest => piecesAfter skipped rest
  | 0, first :: rest =>
      let piece := frontPiece first rest
      piece :: piecesAfter (piece.bytes.length - 1) rest

/-- The pieces of a text in bytes. -/
def pieces (text : ByteText) : List Piece :=
  piecesAfter 0 text.toList

/-- The text that bytes spell, if all of them belong to letters. -/
def decode? (text : ByteText) : Option String :=
  ((pieces text).mapM Piece.letter?).map String.ofList

/-- The text that bytes spell, with a mark for every piece that is no letter. -/
def decodeLossy (text : ByteText) : String :=
  String.ofList ((pieces text).map fun piece => piece.letter?.getD '\uFFFD')

end Text

end ClojureBuild
