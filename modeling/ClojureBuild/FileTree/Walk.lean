import ClojureBuild.Notice
import ClojureBuild.Workspace

/-!
# Walks

A walk visits everything below a path, depth first, the entries of a directory by name.  It follows
links, but not back into a directory that it is just inside of.  An entry that cannot be read ends
the walk.
-/

namespace ClojureBuild

/-- What a walk meets. -/
inductive Visit where
  | file (path : Path)
  | loop (child ancestor : Path)
  | failed (path : Path) (failure : SystemFailure)
  deriving DecidableEq, Repr

namespace Workspace

/-- The directories that a walk is inside of, the innermost first: paths with their locations. -/
abbrev Chain := List (Path × Location)

/-- The innermost directory of a chain at a location. -/
def ancestorAt? (chain : Chain) (location : Location) : Option Path :=
  (chain.find? fun held => held.2 == location).map Prod.fst

/-- Whether a path ends in a link. -/
def isLink (workspace : Workspace) (path : Path) : Bool :=
  match workspace.look false path with
  | .ok (_, entry) => entry.isLink
  | .error _ => false

/-- What a walk meets from a path on; entries with the path `skip` are left out, except the one that
the walk starts from. -/
def visits (workspace : Workspace) (skip : Option Path) :
    Nat → Chain → Path → List Visit
  | 0, _, _ => []
  | fuel + 1, chain, path =>
      let skipped := !chain.isEmpty && skip.any path.same
      match workspace.status path with
      | .error failure => [.failed path failure]
      | .ok (_, .link _) => []
      | .ok (_, .file _ _ _) => if skipped then [] else [.file path]
      | .ok (location, .directory _) =>
          let ancestor := if workspace.isLink path then ancestorAt? chain location else none
          match ancestor with
          | some ancestor => [.loop path ancestor]
          | none =>
              if skipped then
                []
              else
                (workspace.tree.names location).flatMap fun name =>
                  visits workspace skip fuel ((path, location) :: chain) (path.join ⟨name⟩)

/-- A bound on the depth of a walk: between two links no directory is entered twice, and no link
leads back into the chain. -/
def walkBound (workspace : Workspace) : Nat :=
  Nat.pow (workspace.tree.entries.length + 2) 2

/-- The path that stands for no file but for the standard input. -/
def standardInput : Path := ⟨"-"⟩

/-- The files that a walk finds up to its end or first failure, and what it reports on the way. -/
def collect : List Visit → Except FileFailure (List Path) × List Notice
  | [] => (.ok [], [])
  | .file path :: rest =>
      let (outcome, notices) := collect rest
      (outcome.map (path :: ·), notices)
  | .loop child ancestor :: rest =>
      let (outcome, notices) := collect rest
      (outcome, .linkLoop child ancestor :: notices)
  | .failed path failure :: _ => (.error (.walking path failure), [])

/-- The regular files below a path, in the order of a walk. -/
def walk (workspace : Workspace) (root : Path) (skip : Option Path) :
    Except FileFailure (List Path) × List Notice :=
  if root.same standardInput then
    (.ok [], [])
  else
    collect (workspace.visits skip workspace.walkBound [] root)

end Workspace

end ClojureBuild
