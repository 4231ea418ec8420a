import ClojureBuild.FileTree
import ClojureBuild.FileTree.Failure

/-!
# Resolving paths

A path is followed piece by piece through the tree.  Links on the way are replaced by the path they
hold; a link at the end is followed on demand, and always when a slash comes after it.  No more
than forty links are followed.
-/

namespace ClojureBuild

/-- Where a path leads. -/
inductive Resolution where
  /-- To an entry. -/
  | found (location : Location)
  /-- To a name that its directory does not hold. -/
  | absent (location : Location)
  /-- To a name that its directory does not hold, with a slash after it. -/
  | absentDirectory (location : Location)
  /-- Nowhere. -/
  | failed (failure : SystemFailure)
  deriving DecidableEq, Repr

namespace FileTree

/-- The longest name that an entry can have, in bytes. -/
def longestName : Nat := 255

/-- The most links that are followed on one path. -/
def linkLimit : Nat := 40

/-- Where a name leads that its directory does not hold. -/
def resolveMissing (location : Location) (rest : List ByteText) : Resolution :=
  if rest.isEmpty then .absent location
  else if rest.all String.isEmpty then .absentDirectory location
  else .failed .notFound

/-- Follow pieces from a location on; `onLink` goes on after a link. -/
def followPieces (tree : FileTree) (followLast : Bool)
    (onLink : Location → Path → List ByteText → Resolution) :
    Location → List ByteText → Resolution
  | location, [] => .found location
  | location, piece :: rest =>
      if (tree.find? location).all fun entry => !entry.isDirectory then
        .failed .notDirectory
      else if piece = "" ∨ piece = "." then
        followPieces tree followLast onLink location rest
      else if piece = ".." then
        followPieces tree followLast onLink location.dropLast rest
      else if longestName < piece.length then
        .failed .nameTooLong
      else
        let child := location ++ [piece]
        match tree.find? child with
        | none => resolveMissing child rest
        | some (.link target) =>
            if rest.isEmpty && !followLast then .found child
            else onLink location target rest
        | some _ => followPieces tree followLast onLink child rest

/-- Where a path starts. -/
def startOf (current : Location) (path : Path) : Location :=
  if path.isAbsolute then [] else current

/-- Follow pieces from a location on, with a bound on the number of links. -/
def followLinks (tree : FileTree) (followLast : Bool) :
    Nat → Location → List ByteText → Resolution
  | 0 => followPieces tree followLast fun _ _ _ => .failed .tooManyLinks
  | links + 1 =>
      followPieces tree followLast fun location target rest =>
        followLinks tree followLast links (startOf location target) (target.body ++ rest)

/-- Where a path leads from a location. -/
def resolve (tree : FileTree) (followLast : Bool) (current : Location) (path : Path) :
    Resolution :=
  if path.text = "" then .failed .notFound
  else if path.text.toList.contains '\x00' then .failed .zeroInPath
  else followLinks tree followLast linkLimit (startOf current path) path.body

end FileTree

end ClojureBuild
