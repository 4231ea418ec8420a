import ClojureBuild.Workspace

/-!
# Listings

Everything below a directory, depth first, the entries of a directory by name.  Links are listed
and not followed.
-/

namespace ClojureBuild

namespace FileTree

/-- The entries below a directory, with their paths from `base` on. -/
def below (tree : FileTree) : Nat → Location → Location → List (ByteText × Entry)
  | 0, _, _ => []
  | depth + 1, base, directory =>
      (tree.names directory).flatMap fun name =>
        let location := directory ++ [name]
        match tree.find? location with
        | none => []
        | some entry =>
            (Text.joinWith "/" (location.drop base.length), entry) ::
              (if entry.isDirectory then tree.below depth base location else [])

end FileTree

namespace Workspace

/-- The entries below a directory, with their paths from the current directory on. -/
def listing (workspace : Workspace) (path : Path) :
    Except SystemFailure (List (ByteText × Entry)) := do
  let (location, _) ← workspace.status path
  return workspace.tree.below (workspace.tree.entries.length + 1) workspace.current location

end Workspace

end ClojureBuild
