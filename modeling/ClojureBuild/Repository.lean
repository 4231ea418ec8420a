import ClojureBuild.Dependency
import ClojureBuild.Workspace

/-!
# Resolving dependencies

A dependency is resolved into an absolute path.  A path is looked up from a base directory and a
coordinate in a local repository; a leading `~` stands for the home directory.  Nothing is fetched:
what is not there is an error.
-/

namespace ClojureBuild

/-- Why a dependency cannot be resolved. -/
inductive Unresolved where
  | missingPath (path : Path)
  | notInRepository (coordinate : Coordinate) (path : Path)
  | noRepository (coordinate : Coordinate)
  deriving DecidableEq, Repr

namespace Unresolved

/-- The message about a dependency that cannot be resolved. -/
def message : Unresolved → String
  | .missingPath path => "dependency not found: " ++ path.display
  | .notInRepository coordinate path =>
      "cannot resolve artifact " ++ coordinate.display ++ ": " ++ path.display ++
        " does not exist\n  → Fix: install the artifact into the local repository"
  | .noRepository coordinate =>
      "cannot resolve artifact " ++ coordinate.display ++
        ": no local repository configured\n  → Fix: set `toolchain.repository` in cljc.toml or " ++
        "export CLJC_REPOSITORY"

end Unresolved

/-- Finds the file that a dependency stands for. -/
abbrev Resolver := Workspace → Dependency → Except Unresolved Path

/-- A repository of artifacts, and the directory that relative paths start from. -/
structure LocalRepository where
  root : Option Path
  base : Path
  deriving DecidableEq, Repr

namespace LocalRepository

/-- The path with a leading `~` replaced by the home directory. -/
def replaceTilde (home path : Path) : Path :=
  match path.relativeTo? ⟨"~"⟩ with
  | some rest => home.join rest
  | none => path

/-- The repository with the given root. -/
def ofRoot (home : Path) (root : Option Path) (base : Path) : LocalRepository :=
  ⟨root.map (replaceTilde home), base⟩

/-- Where artifacts are installed unless something else is set. -/
def defaultRoot (home : Path) : Path :=
  home.join ⟨".m2/repository"⟩

/-- The repository with the given root, or else the default one. -/
def ofRootOrDefault (home : Path) (root : Option Path) (base : Path) : LocalRepository :=
  ofRoot home (some (root.getD (defaultRoot home))) base

/-- The one place where a path is looked up. -/
def candidate (repository : LocalRepository) (home path : Path) : Path :=
  repository.base.join (replaceTilde home path)

/-- The path in absolute form, if it has one. -/
def anchored (workspace : Workspace) (path : Path) : Path :=
  (path.absolute? workspace.currentPath).getD path

/-- The path that a dependency stands for. -/
def resolve (repository : LocalRepository) : Resolver := fun workspace dependency =>
  match dependency with
  | .path path =>
      let place := repository.candidate workspace.home path
      if workspace.isPresent place then .ok (anchored workspace place)
      else .error (.missingPath place)
  | .artifact coordinate =>
      match repository.root with
      | none => .error (.noRepository coordinate)
      | some root =>
          let place := (repository.candidate workspace.home root).join coordinate.repositoryPath
          if workspace.isFile place then .ok (anchored workspace place)
          else .error (.notInRepository coordinate place)

end LocalRepository

end ClojureBuild
