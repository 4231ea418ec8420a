import ClojureBuild.Build
import ClojureBuild.FileTree.Freshness

/-!
# Definitions of namespaces

A namespace must not have source files below two roots.  One that has none below any root may still
be compiled, from the classpath.
-/

namespace ClojureBuild

/-- A namespace with its source file and the root above it. -/
structure Definition where
  defined : Namespace
  root : Path
  source : Path
  deriving DecidableEq

namespace Workspace

/-- The source files of a namespace, one for every root that has one. -/
def sourcesOf (workspace : Workspace) (wanted : Namespace) (roots : List Path) :
    List Definition :=
  (roots.map fun root => ⟨wanted, root, root.join wanted.sourcePath⟩).filter
    fun definition => workspace.isFile definition.source

/-- The only source file of a namespace, if it has one. -/
def definitionOf (workspace : Workspace) (roots : List Path) (wanted : Namespace) :
    Except BuildError (Option Definition) :=
  match workspace.sourcesOf wanted roots with
  | [] => .ok none
  | [definition] => .ok (some definition)
  | first :: second :: _ => .error (.duplicateNamespace wanted first.source second.source)

/-- The source files of namespaces, those left out that have none. -/
def definitionsOf (workspace : Workspace) (roots : List Path) :
    List Namespace → Except BuildError (List Definition)
  | [] => .ok []
  | wanted :: rest => do
      let definition ← workspace.definitionOf roots wanted
      let others ← workspace.definitionsOf roots rest
      return definition.toList ++ others

/-- The namespaces whose artifact is missing or older than their source. -/
def outdated (workspace : Workspace) (target : Path) :
    List Definition → Except SystemFailure (List Namespace)
  | [] => .ok []
  | definition :: rest => do
      let artifact := target.join definition.defined.artifactPath
      let fresh ← workspace.isFresh artifact definition.source
      let others ← workspace.outdated target rest
      return if fresh then others else definition.defined :: others

/-- Whether some namespace without a source file has no artifact either. -/
def lacksArtifact (workspace : Workspace) (target : Path) (definitions : List Definition)
    (namespaces : List Namespace) : Bool :=
  namespaces.any fun wanted =>
    definitions.all (fun held => held.defined ≠ wanted) &&
      !workspace.isPresent (target.join wanted.artifactPath)

/-- Whether namespaces have to be compiled: some artifact is missing or out of date. -/
def isBatchDue (workspace : Workspace) (target : Path) (definitions : List Definition)
    (namespaces : List Namespace) : Except SystemFailure Bool := do
  let stale ← workspace.outdated target definitions
  return !stale.isEmpty || workspace.lacksArtifact target definitions namespaces

end Workspace

end ClojureBuild
