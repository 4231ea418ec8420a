import ClojureBuild.Build.Namespaces
import ClojureBuild.FileTree.Copy
import ClojureBuild.FileTree.Freshness

/-!
# Resources

Every file below a root is copied to the same relative path below the target, except for the sources
of compiled namespaces and files that are up to date already.  Nothing is ever removed.
-/

namespace ClojureBuild

/-- What a pass over a root has done: the paths written, and those that were up to date. -/
structure ResourceReport where
  copied : List Path
  unchanged : List Path
  deriving DecidableEq, Repr

namespace ResourceReport

/-- Nothing has been done. -/
def empty : ResourceReport :=
  ⟨[], []⟩

/-- One report after the other. -/
def append (first second : ResourceReport) : ResourceReport :=
  ⟨first.copied ++ second.copied, first.unchanged ++ second.unchanged⟩

/-- The report of several passes. -/
def ofPasses (passes : List ResourceReport) : ResourceReport :=
  passes.foldl append empty

end ResourceReport

namespace Build

/-- Copy a file into an existing directory. -/
def copyFile (hindrances : Hindrances) (source destination : Path) : Build Unit := do
  let (outcome, workspace) := (← get).workspace.copy hindrances source destination
  setWorkspace workspace
  ofFile outcome

/-- Copy a file, through the directories that it needs. -/
def copyInto (hindrances : Hindrances) (source destination : Path) : Build Unit := do
  destination.parent?.forM makeDirectories
  copyFile hindrances source destination

/-- Copy a file, unless its copy is up to date. -/
def refreshResource (hindrances : Hindrances) (destination source : Path) :
    Build ResourceReport := do
  if ← ofSystem ((← get).workspace.isFresh destination source) then
    return ⟨[], [destination]⟩
  else
    copyInto hindrances source destination
    return ⟨[destination], []⟩

/-- The files below a root that are no excluded sources, with their destinations. -/
def resourcesBelow (root target : Path) (excluded : List Namespace) (files : List Path) :
    List (Path × Path) :=
  files.filterMap fun file =>
    (file.relativeTo? root).bind fun relative =>
      if (Namespace.ofSourcePath? relative).any excluded.contains then none
      else some (target.join relative, file)

/-- Copy the files below a root, except for the sources of excluded namespaces. -/
def copyResources (hindrances : Hindrances) (root target : Path) (excluded : List Namespace) :
    Build ResourceReport := do
  checkRoot root
  let files ← ofReported ((← get).workspace.walk root (some target))
  let passes ← (resourcesBelow root target excluded files).mapM fun (destination, source) =>
    refreshResource hindrances destination source
  return ResourceReport.ofPasses passes

end Build

end ClojureBuild
