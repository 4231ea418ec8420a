import ClojureBuild.Path
import ClojureBuild.Sorting

/-!
# File trees

A file tree maps locations to entries.  A location is the list of names that lead to it from the
top, free of dots and links, so two different locations never mean the same entry.
-/

namespace ClojureBuild

/-- A point in time, in nanoseconds since the beginning of 1970. -/
structure Instant where
  nanoseconds : Int
  deriving DecidableEq, Repr, Inhabited

namespace Instant

/-- The number of nanoseconds in a second. -/
def perSecond : Int := 1000000000

/-- The instant some seconds and nanoseconds after the beginning of 1970. -/
def ofSeconds (seconds : Int) (nanoseconds : Int) : Instant :=
  ⟨seconds * perSecond + nanoseconds⟩

/-- The whole seconds of an instant. -/
def seconds (instant : Instant) : Int :=
  instant.nanoseconds.fdiv perSecond

/-- The nanoseconds of an instant after its last whole second. -/
def remainder (instant : Instant) : Int :=
  instant.nanoseconds.fmod perSecond

/-- Whether an instant is not after another. -/
def atMost (left right : Instant) : Bool :=
  decide (left.nanoseconds ≤ right.nanoseconds)

/-- The instant right after another. -/
def next (instant : Instant) : Instant :=
  ⟨instant.nanoseconds + 1⟩

end Instant

/-- The names that lead to an entry from the top, in bytes. -/
abbrev Location := List ByteText

/-- What stands at a location. -/
inductive Entry where
  | directory (modified : Instant)
  | file (content : List UInt8) (modified : Instant) (mode : Nat)
  | link (target : Path)
  deriving DecidableEq, Repr

namespace Entry

/-- Whether an entry is a directory. -/
def isDirectory : Entry → Bool
  | .directory _ => true
  | _ => false

/-- Whether an entry is a regular file. -/
def isFile : Entry → Bool
  | .file _ _ _ => true
  | _ => false

/-- Whether an entry is a link. -/
def isLink : Entry → Bool
  | .link _ => true
  | _ => false

/-- When an entry was written or made; a link has no time of its own. -/
def modified : Entry → Instant
  | .directory modified => modified
  | .file _ modified _ => modified
  | .link _ => ⟨0⟩

/-- The entry with another time. -/
def withModified (instant : Instant) : Entry → Entry
  | .directory _ => .directory instant
  | .file content _ mode => .file content instant mode
  | .link target => .link target

/-- The entry with other permissions, if it is a file. -/
def withMode (mode : Nat) : Entry → Entry
  | .directory modified => .directory modified
  | .file content modified _ => .file content modified mode
  | .link target => .link target

end Entry

/-- Entries by location. -/
structure FileTree where
  entries : List (Location × Entry)
  deriving DecidableEq, Repr

namespace FileTree

/-- The entry at a location. -/
def find? (tree : FileTree) (location : Location) : Option Entry :=
  tree.entries.lookup location

/-- The tree without the entry at a location. -/
def erase (tree : FileTree) (location : Location) : FileTree :=
  ⟨tree.entries.filter fun held => held.1 ≠ location⟩

/-- The tree with an entry at a location, in place of the one there. -/
def set (tree : FileTree) (location : Location) (entry : Entry) : FileTree :=
  ⟨(location, entry) :: (tree.erase location).entries⟩

/-- The tree without a location and everything below it. -/
def eraseAll (tree : FileTree) (location : Location) : FileTree :=
  ⟨tree.entries.filter fun held => !location.isPrefixOf held.1⟩

/-- The name of an entry in a directory. -/
def nameIn? (directory location : Location) : Option ByteText :=
  if location.dropLast = directory then location.getLast? else none

/-- The names of the entries in a directory, in ascending order. -/
def names (tree : FileTree) (directory : Location) : List ByteText :=
  sortBy (fun left right => decide (left ≤ right))
    (tree.entries.filterMap fun held => nameIn? directory held.1)

/-- The path of a location. -/
def pathOf (location : Location) : Path :=
  ⟨"/" ++ Text.joinWith "/" location⟩

end FileTree

end ClojureBuild
