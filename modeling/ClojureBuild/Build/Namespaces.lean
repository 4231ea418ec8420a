import ClojureBuild.Build.Sources

/-!
# Namespaces of a project

Every source file below a root defines the namespace that its relative path spells.  A source file
whose path spells none is reported and skipped.
-/

namespace ClojureBuild.Build

/-- The namespace of a file below a root, if it is a source file and has one. -/
def namespaceOf? (root file : Path) : Option Namespace :=
  (file.relativeTo? root).bind Namespace.ofSourcePath?

/-- Whether a file below a root is a source file. -/
def isSourceBelow (root file : Path) : Bool :=
  (file.relativeTo? root).any Namespace.hasSourceExtension

/-- The source files below a root that no namespace belongs to. -/
def unmapped (root : Path) (files : List Path) : List Path :=
  files.filter fun file => isSourceBelow root file && (namespaceOf? root file).isNone

/-- Fail unless a root is a directory. -/
def checkRoot (root : Path) : Build Unit := do
  if (← get).workspace.isDirectory root then
    return ()
  else
    throw (.sourceRootNotFound root)

/-- The namespaces below a root, in the order of a walk. -/
def namespacesBelow (root : Path) : Build (List Namespace) := do
  checkRoot root
  let files ← ofReported ((← get).workspace.walk root none)
  report ((unmapped root files).map .unmappedSource)
  return files.filterMap (namespaceOf? root)

/-- The namespaces below several roots, one root after the other. -/
def namespacesOfRoots (roots : List Path) : Build (List Namespace) := do
  return (← roots.mapM namespacesBelow).flatten

/-- The roots among sources, each with its namespaces. -/
def namespacesByRoot (sources : List Path) : Build (List (Path × List Namespace)) := do
  let split ← gatherSources sources
  split.roots.mapM fun root => do return (root, ← namespacesBelow root)

end ClojureBuild.Build
