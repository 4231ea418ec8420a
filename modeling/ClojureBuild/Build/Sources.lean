import ClojureBuild.Build
import ClojureBuild.FileTree.Walk

/-!
# Sources

The sources of a build are directories, which are its roots, and single files.
-/

namespace ClojureBuild

namespace Workspace

/-- The files that a source contributes, and what is reported on the way. -/
def filesOf (workspace : Workspace) (source : Path) :
    Except FileFailure (List Path) × List Notice :=
  if workspace.isDirectory source then workspace.walk source none
  else if workspace.isFile source then (.ok [source], [])
  else (.ok [], [])

/-- The files that sources contribute, one source after the other. -/
def filesOfAll (workspace : Workspace) :
    List Path → Except FileFailure (List Path) × List Notice
  | [] => (.ok [], [])
  | source :: rest =>
      match workspace.filesOf source with
      | (.error failure, notices) => (.error failure, notices)
      | (.ok files, notices) =>
          let (outcome, later) := workspace.filesOfAll rest
          (outcome.map (files ++ ·), notices ++ later)

/-- The files of all sources, each once and in ascending order. -/
def distinctFiles (workspace : Workspace) (sources : List Path) :
    Except FileFailure (List Path) × List Notice :=
  let (outcome, notices) := workspace.filesOfAll sources
  (outcome.map fun files => dropRepeats Path.same (sortBy Path.atMost files), notices)

end Workspace

/-- The sources of a build, in absolute form. -/
structure Sources where
  roots : List Path
  files : List Path
  deriving DecidableEq, Repr

namespace Build

/-- Put one more source with the others; one that does not exist is reported and skipped. -/
def addSource (sources : Sources) (source : Path) : Build Sources := do
  let path ← absolute source
  let workspace := (← get).workspace
  if workspace.isDirectory path then
    if sources.roots.any path.same then
      return sources
    else
      return { sources with roots := sources.roots ++ [path] }
  else if workspace.isFile path then
    return { sources with files := sources.files ++ [path] }
  else
    report [.skippedSource source]
    return sources

/-- Sort sources into roots, each of them once, and files. -/
def gatherSources (sources : List Path) : Build Sources :=
  sources.foldlM addSource ⟨[], []⟩

end Build

end ClojureBuild
