import ClojureBuild.FileTree.Walk
import ClojureBuild.Proofs.FileTree.FilesBelow
import ClojureBuild.Proofs.Workspace.Status

/-!
# Walks in plain workspaces

Without links a walk never fails and reports nothing.  It gives the files below the directory it
starts from, each spelled by the names that lead to it, except for those behind the skipped path.
-/

namespace ClojureBuild.Workspace

variable {workspace : Workspace} {path : Path} {location : Location}

/-- Whether names from a path on never lead through the skipped path. -/
def avoids (skip : Option Path) : Path → List String → Bool
  | _, [] => true
  | path, name :: rest =>
      !skip.any (path.join ⟨name⟩).same && avoids skip (path.join ⟨name⟩) rest

theorem avoids_none (path : Path) (names : List String) : avoids none path names = true := by
  induction names generalizing path with
  | nil =>
      rfl
  | cons name rest inductionHypothesis =>
      simp [avoids, inductionHypothesis]

/-- Names avoid a path when no initial part of them leads to it. -/
theorem avoids_some_iff {skip : Path} {names : List String} :
    avoids (some skip) path names = true ↔
      ∀ initial, initial ≠ [] → initial <+: names → (path.below initial).same skip = false := by
  induction names generalizing path with
  | nil =>
      simp only [avoids, List.prefix_nil, true_iff]
      exact fun initial nonempty isNil => absurd isNil nonempty
  | cons name rest inductionHypothesis =>
      have atFirst (different : (path.join ⟨name⟩).same skip = false) :
          (!(some skip).any (path.join ⟨name⟩).same) = true := by
        simp [different]
      rw [avoids, Bool.and_eq_true, inductionHypothesis]
      constructor
      · rintro ⟨first, later⟩ initial nonempty isInitial
        obtain ⟨inner, rfl, isInner⟩ :=
          (List.prefix_cons_iff.1 isInitial).resolve_left nonempty
        rw [Path.below_cons]
        by_cases atEnd : inner = []
        · subst atEnd
          simpa using first
        · exact later inner atEnd isInner
      · intro different
        refine ⟨atFirst (different [name] (by simp) (by simp)), fun initial nonempty inner => ?_⟩
        exact different (name :: initial) (by simp) (List.cons_prefix_cons.2 ⟨rfl, inner⟩)

/-- The names that lead from a location to the files below it. -/
def fileNames (workspace : Workspace) (location : Location) : List (List String) :=
  workspace.tree.filesBelow workspace.walkBound location

theorem lt_walkBound (workspace : Workspace) :
    workspace.tree.entries.length < workspace.walkBound := by
  have square : (workspace.tree.entries.length + 2) * 1 ≤ workspace.walkBound := by
    rw [walkBound, Nat.pow_eq, Nat.pow_two]
    exact Nat.mul_le_mul_left _ (by omega)
  omega

theorem length_lt_walkBound
    (wellFormed : workspace.tree.WellFormed) {names : List String}
    (file : workspace.tree.HoldsFile (location ++ names)) :
    names.length < workspace.walkBound := by
  obtain ⟨content, modified, mode, found⟩ := file
  have depth := wellFormed.length_lt_of_find? found
  have bound := workspace.lt_walkBound
  rw [List.length_append] at depth
  omega

theorem mem_fileNames_iff
    (wellFormed : workspace.tree.WellFormed) {names : List String} :
    names ∈ workspace.fileNames location ↔
      workspace.tree.HoldsFile (location ++ names) := by
  rw [fileNames, FileTree.mem_filesBelow_iff wellFormed]
  exact ⟨And.right, fun file => ⟨length_lt_walkBound wellFormed file, file⟩⟩

theorem fileName_of_mem_fileNames
    (wellFormed : workspace.tree.WellFormed) {names : List String}
    (member : names ∈ workspace.fileNames location) :
    ∀ name ∈ names, FileName name := by
  obtain ⟨content, modified, mode, found⟩ := (mem_fileNames_iff wellFormed).1 member
  exact wellFormed.fileName_of_mem found

theorem plainName_of_mem_fileNames
    (wellFormed : workspace.tree.WellFormed) {names : List String}
    (member : names ∈ workspace.fileNames location) :
    ∀ name ∈ names, PlainName name :=
  fun name inNames => (fileName_of_mem_fileNames wellFormed member name inNames).toPlainName

theorem fileNames_nodup (wellFormed : workspace.tree.WellFormed) (location : Location) :
    (workspace.fileNames location).Nodup := by
  have ascending : (workspace.fileNames location).Pairwise (· < ·) :=
    FileTree.filesBelow_ascending wellFormed _ _
  apply ascending.imp
  rintro left right precedes rfl
  exact FileTree.not_before_of_before precedes precedes

theorem nil_notMem_fileNames
    (wellFormed : workspace.tree.WellFormed) (directory : workspace.tree.HoldsDirectory location) :
    [] ∉ workspace.fileNames location := by
  intro member
  have file := (mem_fileNames_iff wellFormed).1 member
  rw [List.append_nil] at file
  exact file.not_holdsDirectory directory

/-! ## Visits -/

theorem isLink_eq_false (plain : workspace.tree.Plain) (path : Path) :
    workspace.isLink path = false := by
  cases looked : workspace.look false path with
  | error failure =>
      simp [isLink, looked]
  | ok held =>
      obtain ⟨place, entry⟩ := held
      have found := ((look_eq_ok_iff plain false).1 looked).2.2
      cases entry with
      | directory modified =>
          simp [isLink, looked, Entry.isLink]
      | file content modified mode =>
          simp [isLink, looked, Entry.isLink]
      | link target =>
          exact absurd found (plain.linkless place target)

theorem visits_eq
    (plain : workspace.tree.Plain) (skip : Option Path) (fuel : Nat) (chain : Chain)
    {entry : Entry} (found : workspace.status path = .ok (location, entry)) :
    workspace.visits skip fuel chain path =
      if !chain.isEmpty && skip.any path.same then
        []
      else
        ((workspace.tree.filesBelow fuel location).filter (avoids skip path)).map fun names =>
          .file (path.below names) := by
  induction fuel generalizing chain path location entry with
  | zero =>
      simp [visits, FileTree.filesBelow]
  | succ fuel inductionHypothesis =>
      have held := find?_of_status found
      rw [visits, found, FileTree.filesBelow, held]
      cases entry with
      | directory modified =>
          by_cases skipped : (!chain.isEmpty && skip.any path.same) = true
          · simp [isLink_eq_false plain path, skipped]
          · have inner :
                ∀ name ∈ workspace.tree.names location,
                  workspace.visits skip fuel ((path, location) :: chain) (path.join ⟨name⟩) =
                    (((workspace.tree.filesBelow fuel (location ++ [name])).map (name :: ·)).filter
                      (avoids skip path)).map fun names => .file (path.below names) := by
              intro name member
              obtain ⟨child, childHeld⟩ := FileTree.mem_names_iff.1 member
              have childName := plain.named childHeld
              have childFound :
                  workspace.status (path.join ⟨name⟩) = .ok (location ++ [name], child) :=
                (status_below_iff plain ⟨modified, found⟩
                  (fun other inNames => by
                    rw [List.mem_singleton.1 inNames]
                    exact childName.toPlainName)).2 ⟨rfl, childHeld⟩
              rw [inductionHypothesis _ childFound, List.filter_map]
              by_cases atSkip : skip.any (path.join ⟨name⟩).same = true
              · simp [atSkip, avoids, Function.comp_def]
              · simp [atSkip, avoids, Function.comp_def]
            simp only [isLink_eq_false plain path, skipped]
            rw [List.filter_flatMap, List.map_flatMap]
            simp only [Bool.false_eq_true, if_false]
            exact List.flatMap_congr inner
      | file content modified mode =>
          by_cases skipped : (!chain.isEmpty && skip.any path.same) = true
          · simp [skipped]
          · simp [skipped, List.filter_cons, avoids]
      | link target =>
          exact absurd held (plain.linkless location target)

theorem collect_files (files : List Path) : collect (files.map .file) = (.ok files, []) := by
  induction files with
  | nil =>
      rfl
  | cons head tail inductionHypothesis =>
      simp [collect, inductionHypothesis, Except.map]

theorem same_standardInput_of_isAbsolute (absolute : path.isAbsolute = true) :
    path.same standardInput = false := by
  have components := Path.components_of_isAbsolute absolute
  have dash : standardInput.components = [.name "-"] := by
    decide
  rw [Path.same, components, dash]
  simp

/-- What a walk finds that starts from a directory. -/
theorem walk_eq
    (plain : workspace.tree.Plain) (skip : Option Path) {root : Path}
    (leads : workspace.LeadsToDirectory root location) (named : root.same standardInput = false) :
    workspace.walk root skip =
      (.ok (((workspace.fileNames location).filter (avoids skip root)).map root.below), []) := by
  obtain ⟨modified, found⟩ := leads
  have visited := visits_eq plain skip workspace.walkBound [] found
  simp only [List.isEmpty_nil, Bool.not_true, Bool.false_and, Bool.false_eq_true, if_false]
    at visited
  have asFiles :
      (((workspace.fileNames location).filter (avoids skip root)).map fun names =>
          Visit.file (root.below names)) =
        (((workspace.fileNames location).filter (avoids skip root)).map root.below).map .file := by
    simp
  rw [fileNames] at asFiles
  rw [walk, named, visited, asFiles, collect_files, fileNames]
  rfl

theorem walk_none_eq
    (plain : workspace.tree.Plain) {root : Path}
    (leads : workspace.LeadsToDirectory root location) (named : root.same standardInput = false) :
    workspace.walk root none = (.ok ((workspace.fileNames location).map root.below), []) := by
  rw [walk_eq plain none leads named]
  simp [List.filter_eq_self.2 fun names _ => avoids_none root names]

end ClojureBuild.Workspace
