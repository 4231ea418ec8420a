import ClojureBuild.Workspace

/-!
# Freshness

An output is up to date when it is not older than its input.  A missing output never is; a missing
input has nothing to rebuild from, so any output is up to date with it.
-/

namespace ClojureBuild.Workspace

/-- When the entry that a path leads to was modified, if there is one. -/
def modified? (workspace : Workspace) (path : Path) : Except SystemFailure (Option Instant) :=
  match workspace.status path with
  | .ok (location, entry) => .ok (some (workspace.lastModified location entry))
  | .error .notFound => .ok none
  | .error failure => .error failure

/-- Whether an output is up to date with an input. -/
def isFresh (workspace : Workspace) (output input : Path) : Except SystemFailure Bool := do
  match ← workspace.modified? output with
  | none => return false
  | some written =>
      match ← workspace.modified? input with
      | none => return true
      | some changed => return changed.atMost written

end ClojureBuild.Workspace
