import ClojureBuild.Proofs.Dependency.Places
import ClojureBuild.Proofs.Workspace.Absolute
import ClojureBuild.Proofs.Workspace.Directories
import ClojureBuild.Repository

/-!
# Looking up dependencies

A dependency is looked up at one place.  What is found there is given back in absolute form, which
leads to the same entry, so neither the place nor the result depends on the current directory once
the base directory and the home directory are absolute.  The place of an artifact lies below the
repository if its coordinate leads down.
-/

namespace ClojureBuild

open Workspace

/-- What a place has to hold for a dependency: anything at all, or a file for an artifact. -/
def Dependency.isServedBy (workspace : Workspace) : Dependency → Path → Bool
  | .path _ => workspace.isPresent
  | .artifact _ => workspace.isFile

namespace LocalRepository

variable {repository : LocalRepository} {workspace : Workspace} {dependency : Dependency}
variable {home base path place found : Path} {root : Option Path}

/-! ## The place of a dependency -/

/-- The one place where a dependency is looked up, seen from a base directory: a leading `~` of a path
or of the repository stands for the home directory.  An artifact has none without a repository. -/
def placeFor? (home base : Path) (root : Option Path) : Dependency → Option Path
  | .path path => some (base.join (replaceTilde home path))
  | .artifact coordinate =>
      root.map fun root =>
        (base.join (replaceTilde home root)).join coordinate.repositoryPath

/-- Why a dependency is not resolved at its place, or has none. -/
def refusal : Dependency → Option Path → Unresolved
  | .path path, place => .missingPath (place.getD path)
  | .artifact coordinate, none => .noRepository coordinate
  | .artifact coordinate, some place => .notInRepository coordinate place

theorem resolve_eq (repository : LocalRepository) (workspace : Workspace)
    (dependency : Dependency) :
    repository.resolve workspace dependency =
      match placeFor? workspace.home repository.base repository.root dependency with
      | none => .error (refusal dependency none)
      | some place =>
          if dependency.isServedBy workspace place then .ok (anchored workspace place)
          else .error (refusal dependency (some place)) := by
  cases dependency with
  | path path =>
      rw [resolve, placeFor?]
      cases present :
          workspace.isPresent (repository.base.join (replaceTilde workspace.home path)) with
      | false =>
          simp only [candidate, present, Dependency.isServedBy, refusal, Option.getD_some,
            Bool.false_eq_true, if_false]
      | true =>
          simp only [candidate, present, Dependency.isServedBy, if_true]
  | artifact coordinate =>
      rw [resolve, placeFor?]
      cases repository.root with
      | none =>
          rfl
      | some root =>
          rfl

theorem resolve_eq_ok_iff :
    repository.resolve workspace dependency = .ok found ↔
      ∃ place, placeFor? workspace.home repository.base repository.root dependency = some place ∧
        dependency.isServedBy workspace place = true ∧ found = anchored workspace place := by
  rw [resolve_eq]
  cases placeFor? workspace.home repository.base repository.root dependency with
  | none =>
      simp
  | some place =>
      by_cases served : dependency.isServedBy workspace place = true
      · simpa [served] using eq_comm
      · simp [served]

theorem resolve_eq_error_iff {reason : Unresolved} :
    repository.resolve workspace dependency = .error reason ↔
      reason = refusal dependency
          (placeFor? workspace.home repository.base repository.root dependency) ∧
        ∀ place, placeFor? workspace.home repository.base repository.root dependency = some place →
          dependency.isServedBy workspace place = false := by
  rw [resolve_eq]
  cases placeFor? workspace.home repository.base repository.root dependency with
  | none =>
      simpa using eq_comm
  | some place =>
      by_cases served : dependency.isServedBy workspace place = true
      · simp [served]
      · simpa [served] using eq_comm

/-! ## The home directory -/

theorem relativeTo?_tilde_of_isAbsolute (absolute : path.isAbsolute = true) :
    path.relativeTo? ⟨"~"⟩ = none := by
  have tilde : (Path.mk "~").components = [.name "~"] := by
    decide
  rw [Path.relativeTo?, tilde, Path.components_of_isAbsolute absolute]
  simp

/-- What a `~` was replaced in has none any more. -/
theorem replaceTilde_replaceTilde (homeAbsolute : home.isAbsolute = true) (path : Path) :
    replaceTilde home (replaceTilde home path) = replaceTilde home path := by
  cases after : path.relativeTo? ⟨"~"⟩ with
  | none =>
      have kept : replaceTilde home path = path := by
        rw [replaceTilde, after]
      rw [kept, kept]
  | some rest =>
      have replaced : replaceTilde home path = home.join rest := by
        rw [replaceTilde, after]
      rw [replaced, replaceTilde,
        relativeTo?_tilde_of_isAbsolute (Path.isAbsolute_join_of_left homeAbsolute)]

theorem placeFor?_ofRoot (homeAbsolute : home.isAbsolute = true) (root : Option Path)
    (base : Path) (dependency : Dependency) :
    placeFor? home (ofRoot home root base).base (ofRoot home root base).root dependency =
      placeFor? home base root dependency := by
  cases dependency with
  | path path =>
      rfl
  | artifact coordinate =>
      cases root with
      | none =>
          rfl
      | some root =>
          simp [placeFor?, ofRoot, replaceTilde_replaceTilde homeAbsolute]

theorem isAbsolute_of_placeFor? (baseAbsolute : base.isAbsolute = true)
    (isPlace : placeFor? home base root dependency = some place) : place.isAbsolute = true := by
  cases dependency with
  | path path =>
      rw [placeFor?, Option.some.injEq] at isPlace
      rw [← isPlace]
      exact Path.isAbsolute_join_of_left baseAbsolute
  | artifact coordinate =>
      obtain ⟨root, -, rfl⟩ := Option.map_eq_some_iff.1 isPlace
      exact Path.isAbsolute_join_of_left (Path.isAbsolute_join_of_left baseAbsolute)

/-! ## The current directory -/

theorem isServedBy_of_isAbsolute (absolute : place.isAbsolute = true) (current : Location) :
    dependency.isServedBy { workspace with current := current } place =
      dependency.isServedBy workspace place := by
  cases dependency with
  | path path =>
      exact entrySatisfies_of_isAbsolute absolute current _
  | artifact coordinate =>
      exact entrySatisfies_of_isAbsolute absolute current _

theorem anchored_of_isAbsolute (absolute : place.isAbsolute = true) (current : Location) :
    anchored { workspace with current := current } place = anchored workspace place := by
  obtain ⟨form, forms, -⟩ := Path.exists_form_of_isAbsolute absolute
  rw [anchored, anchored, forms, forms]

theorem isAbsolute_anchored (absolute : place.isAbsolute = true) (workspace : Workspace) :
    (anchored workspace place).isAbsolute = true ∧
      place.same (anchored workspace place) = true := by
  obtain ⟨form, forms, formAbsolute, same, -⟩ := Path.exists_form_of_isAbsolute absolute
  rw [anchored, forms]
  exact ⟨formAbsolute, same⟩

/-- The absolute form of an absolute place serves a dependency if the place does. -/
theorem isServedBy_anchored (absolute : place.isAbsolute = true)
    (served : dependency.isServedBy workspace place = true) :
    dependency.isServedBy workspace (anchored workspace place) = true := by
  obtain ⟨form, forms, -⟩ := Path.exists_form_of_isAbsolute absolute
  have leads {held : Location × Entry} (found : workspace.status place = .ok held) :
      workspace.status (anchored workspace place) = .ok held := by
    rw [anchored, forms]
    exact status_of_form absolute (forms _) found
  cases dependency with
  | path path =>
      obtain ⟨location, entry, held, satisfies⟩ := (entrySatisfies_iff _ _ _).1 served
      exact (entrySatisfies_iff _ _ _).2 ⟨location, entry, leads held, satisfies⟩
  | artifact coordinate =>
      obtain ⟨location, entry, held, satisfies⟩ := (entrySatisfies_iff _ _ _).1 served
      exact (entrySatisfies_iff _ _ _).2 ⟨location, entry, leads held, satisfies⟩

theorem resolve_of_isAbsolute
    (absolute : ∀ place,
      placeFor? workspace.home repository.base repository.root dependency = some place →
        place.isAbsolute = true) (current : Location) :
    repository.resolve { workspace with current := current } dependency =
      repository.resolve workspace dependency := by
  rw [resolve_eq, resolve_eq]
  cases isPlace : placeFor? workspace.home repository.base repository.root dependency with
  | none =>
      rfl
  | some place =>
      have placeAbsolute := absolute place isPlace
      dsimp only
      rw [isServedBy_of_isAbsolute placeAbsolute,
        anchored_of_isAbsolute placeAbsolute]

/-- Seen from an absolute base directory, with an absolute home directory, a dependency is resolved in
the same way from every current directory.  What is found is absolute, the same path as the one place
of the dependency, and serves the dependency.  Nothing is found only if there is no such place or it
does not serve the dependency.  To replace a `~` once more makes no difference. -/
theorem resolving_is_independent_of_current_directory (root : Option Path)
    (dependency : Dependency) (baseAbsolute : base.isAbsolute = true)
    (homeAbsolute : workspace.home.isAbsolute = true) :
    (∀ current,
        (ofRoot workspace.home root base).resolve { workspace with current := current } dependency =
          (ofRoot workspace.home root base).resolve workspace dependency) ∧
      (∀ found, (ofRoot workspace.home root base).resolve workspace dependency = .ok found →
        found.isAbsolute = true ∧ dependency.isServedBy workspace found = true ∧
          ∃ place, placeFor? workspace.home base root dependency = some place ∧
            place.same found = true) ∧
        (∀ reason,
          (ofRoot workspace.home root base).resolve workspace dependency = .error reason ↔
            reason = refusal dependency (placeFor? workspace.home base root dependency) ∧
              ∀ place, placeFor? workspace.home base root dependency = some place →
                dependency.isServedBy workspace place = false) ∧
          ∀ path, (ofRoot workspace.home root base).candidate workspace.home
              (replaceTilde workspace.home path) =
            (ofRoot workspace.home root base).candidate workspace.home path := by
  refine ⟨?_, ?_, ?_, ?_⟩
  · apply resolve_of_isAbsolute
    intro place isPlace
    rw [placeFor?_ofRoot homeAbsolute] at isPlace
    exact isAbsolute_of_placeFor? baseAbsolute isPlace
  · intro found resolved
    rw [resolve_eq_ok_iff, placeFor?_ofRoot homeAbsolute] at resolved
    obtain ⟨place, isPlace, served, rfl⟩ := resolved
    have absolute := isAbsolute_of_placeFor? baseAbsolute isPlace
    obtain ⟨foundAbsolute, same⟩ := isAbsolute_anchored absolute workspace
    exact ⟨foundAbsolute, isServedBy_anchored absolute served, place, isPlace, same⟩
  · intro reason
    rw [resolve_eq_error_iff, placeFor?_ofRoot homeAbsolute]
  · intro path
    rw [candidate, candidate, replaceTilde_replaceTilde homeAbsolute]

/-- A repository with one artifact, in the home directory. -/
def installed : Workspace where
  tree := ⟨[([], .directory ⟨0⟩), (["home"], .directory ⟨0⟩), (["home", "repo"], .directory ⟨0⟩),
    (["home", "repo", "org"], .directory ⟨0⟩), (["home", "repo", "org", "tool"], .directory ⟨0⟩),
    (["home", "repo", "org", "tool", "1"], .directory ⟨0⟩),
    (["home", "repo", "org", "tool", "1", "tool-1.jar"], .file [] ⟨0⟩ 0o644)]⟩
  current := []
  home := ⟨"/home"⟩
  clock := ⟨0⟩

/-- From the home directory the artifact is found as from the top, though the repository is not
spelled in full. -/
theorem installed_artifact_is_found :
    (ofRoot installed.home (some ⟨"~/./repo"⟩) ⟨"/work"⟩).resolve
          { installed with current := ["home"] } (.artifact ⟨"org", "tool", "jar", none, "1"⟩) =
        .ok ⟨"/home/repo/org/tool/1/tool-1.jar"⟩ ∧
      installed.isFile ⟨"/home/repo/org/tool/1/tool-1.jar"⟩ = true := by
  have resolved : (ofRoot installed.home (some ⟨"~/./repo"⟩) ⟨"/work"⟩).resolve installed
      (.artifact ⟨"org", "tool", "jar", none, "1"⟩) = .ok ⟨"/home/repo/org/tool/1/tool-1.jar"⟩ := by
    decide +kernel
  have homeAbsolute : installed.home.isAbsolute = true := by decide
  have baseAbsolute : (Path.mk "/work").isAbsolute = true := by decide
  obtain ⟨anywhere, serves, -⟩ := resolving_is_independent_of_current_directory
    (some ⟨"~/./repo"⟩) (.artifact ⟨"org", "tool", "jar", none, "1"⟩) baseAbsolute homeAbsolute
  exact ⟨(anywhere ["home"]).trans resolved, (serves _ resolved).2.1⟩

/-! ## Below the repository -/

theorem steps_join_join {middle inner : Path} (relative : inner.isAbsolute = false) (base : Path) :
    (base.join (middle.join inner)).steps = (base.join middle).steps ++ inner.steps := by
  have kind : (middle.join inner).isAbsolute = middle.isAbsolute := by
    by_cases written : middle.text = ""
    · have empty : middle = ⟨""⟩ := Path.eq_empty written
      rw [empty, Path.join_empty, relative]
      rfl
    · exact Path.isAbsolute_join relative written
  rw [Path.steps_join, kind, Path.steps_join, Path.steps_join, relative]
  cases middle.isAbsolute with
  | true =>
      rfl
  | false =>
      simp

theorem components_of_staysBelow {path : Path} (stays : Namespace.StaysBelow path) :
    path.components = path.steps.map .name ∧ (∀ name ∈ path.steps, PlainName name) ∧
      path.steps ≠ [] := by
  have named : path.components.filter (fun component => component ≠ .top ∧ component ≠ .current) =
      path.components := by
    rw [List.filter_eq_self]
    intro component member
    obtain ⟨name, -, rfl⟩ := stays.plain component member
    rfl
  have steps : path.steps = path.components.map Path.Component.text := by
    rw [Path.steps_eq_components, named]
  have components : path.components = path.steps.map .name := by
    rw [steps, List.map_map]
    conv_lhs => rw [← List.map_id path.components]
    apply List.map_congr_left
    intro component member
    obtain ⟨name, -, rfl⟩ := stays.plain component member
    rfl
  refine ⟨components, ?_, ?_⟩
  · intro name member
    obtain ⟨other, plain, same⟩ := stays.plain (.name name) (by
      rw [components]
      exact List.mem_map_of_mem member)
    cases same
    exact plain
  · intro none
    obtain ⟨-, differs⟩ := stays.below ⟨""⟩
    rw [stays.joined, components, none] at differs
    exact differs (List.append_nil _).symm

/-- The absolute form of a place below a directory lies below the directory, and so does what it leads
to in a tree without links. -/
theorem anchored_below {directory inner : Path} (stays : Namespace.StaysBelow inner)
    (workspace : Workspace) :
    (workspace.currentPath.join directory).ProperlyAbove
        (anchored workspace (directory.join inner)) ∧
      (workspace.tree.Plain → ∀ location entry,
        workspace.status (anchored workspace (directory.join inner)) = .ok (location, entry) →
          ∃ names, names ≠ [] ∧
            location = placeOf (workspace.currentPath.join directory) ++ names) := by
  obtain ⟨-, plainNames, nonempty⟩ := components_of_staysBelow stays
  have written : (directory.join inner).text ≠ "" := by
    intro empty
    have same : directory.join inner = ⟨""⟩ := Path.eq_empty empty
    obtain ⟨leads, differs⟩ := stays.below directory
    rw [same, Path.components_empty] at leads differs
    exact differs (List.prefix_nil.1 leads)
  have current := workspace.currentPath_isAbsolute
  have isForm := Path.absolute?_eq written workspace.currentPath
  obtain ⟨absolute, steps⟩ := Path.form_of_absolute? current isForm
  rw [← Option.getD_some (a := ite _ _ _), ← isForm, ← anchored] at absolute steps
  rw [steps_join_join stays.relative] at steps
  have directoryAbsolute : (workspace.currentPath.join directory).isAbsolute = true :=
    Path.isAbsolute_join_of_left current
  constructor
  · rw [Path.ProperlyAbove, Path.components_eq_steps absolute,
      Path.components_eq_steps directoryAbsolute, steps, List.filterMap_append,
      Path.filterMap_laterComponent?_of_plain plainNames, ← List.cons_append]
    exact ⟨List.prefix_append _ _, by simpa using nonempty⟩
  · intro plain location entry found
    refine ⟨inner.steps, nonempty, ?_⟩
    rw [spelled_of_status plain found, spelled_of_isAbsolute absolute, placeOf, steps,
      FileTree.spell_append, FileTree.spell_of_plain _ plainNames, ← placeOf]

/-- The place of an artifact in a repository is relative.  It consists of names of entries when the
coordinate leads down, and only then.  The place that is looked up then lies below the repository, and
what is found there lies below it as well, in a tree without links also after all steps back. -/
theorem artifacts_lie_in_repository_iff_they_lead_down {text : String} {named : Coordinate}
    (read : Dependency.parse text = .artifact named) :
    named.repositoryPath.isAbsolute = false ∧
      ((∀ component ∈ named.repositoryPath.components, ∃ name, component = .name name) ↔
        named.LeadsDown) ∧
        (named.LeadsDown → ∀ (repository : LocalRepository) (workspace : Workspace) (root : Path),
          repository.root = some root →
            let directory := repository.candidate workspace.home root
            directory.ProperlyAbove (directory.join named.repositoryPath) ∧
              ∀ found, repository.resolve workspace (.artifact named) = .ok found →
                workspace.isFile (directory.join named.repositoryPath) = true ∧
                  (workspace.currentPath.join directory).ProperlyAbove found ∧
                    (workspace.tree.Plain → ∀ location entry,
                      workspace.status found = .ok (location, entry) →
                        ∃ names, names ≠ [] ∧
                          location = placeOf (workspace.currentPath.join directory) ++ names)) := by
  refine ⟨Path.isAbsolute_ofParts (Coordinate.slashFree_placeBytes
    (Coordinate.slashFree_of_parse read)), Coordinate.components_are_names_iff read, ?_⟩
  intro down repository workspace root isRoot directory
  have stays := Coordinate.LeadsDown.staysBelow read down
  refine ⟨stays.below directory, ?_⟩
  intro found resolved
  obtain ⟨place, isPlace, served, rfl⟩ := resolve_eq_ok_iff.1 resolved
  have isJoined : directory.join named.repositoryPath = place := by
    rw [isRoot] at isPlace
    exact Option.some.inj isPlace
  rw [← isJoined] at served ⊢
  exact ⟨served, anchored_below stays workspace⟩

/-- An artifact whose coordinate leads down is found below the repository. -/
theorem installed_artifact_lies_in_repository :
    Dependency.parse "org:tool:1" = .artifact ⟨"org", "tool", "jar", none, "1"⟩ ∧
      (ofRoot installed.home (some ⟨"~/repo"⟩) ⟨"/work"⟩).resolve installed
          (.artifact ⟨"org", "tool", "jar", none, "1"⟩) =
        .ok ⟨"/home/repo/org/tool/1/tool-1.jar"⟩ ∧
        (Path.mk "/home/repo").ProperlyAbove ⟨"/home/repo/org/tool/1/tool-1.jar"⟩ := by
  have read : Dependency.parse "org:tool:1" = .artifact ⟨"org", "tool", "jar", none, "1"⟩ := by
    decide +kernel
  have resolved : (ofRoot installed.home (some ⟨"~/repo"⟩) ⟨"/work"⟩).resolve installed
      (.artifact ⟨"org", "tool", "jar", none, "1"⟩) = .ok ⟨"/home/repo/org/tool/1/tool-1.jar"⟩ := by
    decide +kernel
  have directory : installed.currentPath.join
      ((ofRoot installed.home (some ⟨"~/repo"⟩) ⟨"/work"⟩).candidate installed.home
        ⟨"/home/repo"⟩) = ⟨"/home/repo"⟩ := by
    decide +kernel
  obtain ⟨-, -, below⟩ := artifacts_lie_in_repository_iff_they_lead_down read
  have found := (below ⟨by decide, by decide, by decide⟩ _ installed ⟨"/home/repo"⟩
    (by decide +kernel)).2 _ resolved
  rw [directory] at found
  exact ⟨read, resolved, found.2.1⟩

/-- A file beside a repository that holds an empty directory. -/
def outside : Workspace where
  tree := ⟨[([], .directory ⟨0⟩), (["..-...jar"], .file [] ⟨0⟩ 0o644), (["repo"], .directory ⟨0⟩),
    (["repo", "org"], .directory ⟨0⟩)]⟩
  current := []
  home := ⟨"/home"⟩
  clock := ⟨0⟩

/-- Steps back in a coordinate lead to the file beside the repository. -/
theorem artifact_beside_repository_is_found :
    (¬ ∀ text named, Dependency.parse text = .artifact named →
        ∀ component ∈ named.repositoryPath.components, ∃ name, component = .name name) ∧
      Dependency.parse "org:..:.." = .artifact ⟨"org", "..", "jar", none, ".."⟩ ∧
        (ofRoot outside.home (some ⟨"/repo"⟩) ⟨"/"⟩).resolve outside
            (.artifact ⟨"org", "..", "jar", none, ".."⟩) = .ok ⟨"/repo/org/../../..-...jar"⟩ ∧
          outside.status ⟨"/repo/org/../../..-...jar"⟩ =
            .ok (["..-...jar"], .file [] ⟨0⟩ 0o644) := by
  have read : Dependency.parse "org:..:.." = .artifact ⟨"org", "..", "jar", none, ".."⟩ := by
    decide +kernel
  refine ⟨?_, read, by decide +kernel, by decide +kernel⟩
  intro inside
  have parent : Path.Component.parent ∈
      (Coordinate.mk "org" ".." "jar" none "..").repositoryPath.components := by
    decide +kernel
  obtain ⟨name, isName⟩ := inside _ _ read _ parent
  cases isName

end LocalRepository

end ClojureBuild
