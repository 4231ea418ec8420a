import ClojureBuild.Path

/-!
# Classpaths

An ordered list of paths no two of which are the same, beside the set of these paths, in which paths
are looked up.  Adding a path that is already present changes nothing, so every entry keeps the
place and the spelling of its first occurrence.
-/

namespace ClojureBuild

/-! ## Sets of paths -/

/-- Paths whose order does not count, pairwise different. -/
structure PathSet where
  members : List Path
  distinct : members.Pairwise fun left right => left.same right = false
  deriving DecidableEq

namespace PathSet

/-- The set without members. -/
def empty : PathSet :=
  ⟨[], List.Pairwise.nil⟩

/-- Whether a member is the same path. -/
def contains (set : PathSet) (path : Path) : Bool :=
  set.members.any path.same

/-- The set with one more path, unless a member is the same. -/
def insert (set : PathSet) (path : Path) : PathSet :=
  if present : set.contains path = true then
    set
  else
    ⟨path :: set.members, by
      refine List.pairwise_cons.2 ⟨?_, set.distinct⟩
      simpa [contains] using present⟩

theorem members_insert_of_absent {set : PathSet} {path : Path}
    (absent : set.contains path = false) : (set.insert path).members = path :: set.members := by
  rw [insert, dif_neg (by rw [absent]; exact Bool.false_ne_true)]

/-- Whether two sets have equally many members and all of the first set are in the second. -/
def same (left right : PathSet) : Bool :=
  left.members.length == right.members.length && left.members.all right.contains

end PathSet

/-! ## Classpaths -/

/-- Paths in order, and the same paths as a set. -/
structure Classpath where
  entries : List Path
  seen : PathSet
  recorded : seen.members.Perm entries
  deriving DecidableEq

namespace Classpath

/-- The classpath without entries. -/
def empty : Classpath :=
  ⟨[], PathSet.empty, List.Perm.refl []⟩

/-- Whether an entry is the same path. -/
def contains (classpath : Classpath) (path : Path) : Bool :=
  classpath.seen.contains path

/-- Add a path at the end, unless it is present, and tell whether it has been added. -/
def add (classpath : Classpath) (path : Path) : Classpath × Bool :=
  if present : classpath.contains path = true then
    (classpath, false)
  else
    (⟨classpath.entries ++ [path], classpath.seen.insert path, by
      have absent : classpath.seen.contains path = false := by
        simpa [contains] using present
      rw [PathSet.members_insert_of_absent absent]
      exact (classpath.recorded.cons path).trans
        (List.perm_append_singleton path classpath.entries).symm⟩, true)

/-- Add a path at the end, unless it is present. -/
def push (classpath : Classpath) (path : Path) : Classpath :=
  (classpath.add path).1

/-- Add paths one after the other. -/
def pushAll (classpath : Classpath) (paths : List Path) : Classpath :=
  paths.foldl push classpath

/-- The classpath of the given paths. -/
def ofList (paths : List Path) : Classpath :=
  empty.pushAll paths

/-- The entries with a separator between neighbours, as a virtual machine reads them. -/
def join (classpath : Classpath) : ByteText :=
  Text.joinWith ":" (classpath.entries.map Path.text)

/-- Whether two classpaths have the same paths in the same order, and the same set of them. -/
def same (left right : Classpath) : Bool :=
  left.entries.map Path.components == right.entries.map Path.components &&
    left.seen.same right.seen

/-- The classpath that ends in `last`, which occurs nowhere else in it. -/
def endingIn (classpath : Classpath) (last : Path) : Classpath :=
  (ofList (classpath.entries.filter fun entry => !entry.same last)).push last

end Classpath

end ClojureBuild
