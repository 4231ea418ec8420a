import ClojureBuild.Proofs.FileTree.Links
import ClojureBuild.Proofs.Path.Below
import ClojureBuild.Workspace

/-!
# Looking things up

Where a path leads, whatever links are on the way.  A name leads from a directory to the entry of that
name in it, and leads nowhere where there is no such directory.
-/

namespace ClojureBuild.Workspace

variable {workspace : Workspace} {path base : Path} {place location : Location} {entry : Entry}
variable {name : String}

/-! ## Lookups -/

theorem look_eq_ok_iff_resolve {followLast : Bool} :
    workspace.look followLast path = .ok (place, entry) ↔
      workspace.resolve followLast path = .found place ∧
        workspace.tree.find? place = some entry := by
  rw [look]
  cases workspace.resolve followLast path with
  | found location =>
      cases held : workspace.tree.find? location with
      | none =>
          have nowhere : location = place → workspace.tree.find? place ≠ some entry := by
            intro same
            simp [← same, held]
          simpa [held] using nowhere
      | some present =>
          have here : location = place → workspace.tree.find? place = some present := by
            intro same
            rw [← same, held]
          simp only [held, Except.ok.injEq, Prod.mk.injEq, Resolution.found.injEq]
          apply and_congr_right
          intro same
          rw [here same, Option.some.injEq]
  | absent location =>
      simp
  | absentDirectory location =>
      simp
  | failed failure =>
      simp

theorem find?_of_status (found : workspace.status path = .ok (place, entry)) :
    workspace.tree.find? place = some entry :=
  (look_eq_ok_iff_resolve.1 found).2

/-! ## Questions of yes or no -/

theorem entrySatisfies_iff (workspace : Workspace) (property : Entry → Bool) (path : Path) :
    workspace.entrySatisfies property path = true ↔
      ∃ location entry,
        workspace.status path = .ok (location, entry) ∧ property entry = true := by
  cases looked : workspace.status path with
  | error failure =>
      simp [entrySatisfies, looked]
  | ok held =>
      obtain ⟨location, entry⟩ := held
      simp [entrySatisfies, looked]

theorem isFile_iff (workspace : Workspace) (path : Path) :
    workspace.isFile path = true ↔
      ∃ location content modified mode,
        workspace.status path = .ok (location, .file content modified mode) := by
  rw [isFile, entrySatisfies_iff]
  constructor
  · rintro ⟨location, entry, found, kind⟩
    cases entry with
    | directory modified =>
        cases kind
    | file content modified mode =>
        exact ⟨location, content, modified, mode, found⟩
    | link target =>
        cases kind
  · rintro ⟨location, content, modified, mode, found⟩
    exact ⟨location, _, found, rfl⟩

theorem isDirectory_iff (workspace : Workspace) (path : Path) :
    workspace.isDirectory path = true ↔
      ∃ location modified, workspace.status path = .ok (location, .directory modified) := by
  rw [isDirectory, entrySatisfies_iff]
  constructor
  · rintro ⟨location, entry, found, kind⟩
    cases entry with
    | directory modified =>
        exact ⟨location, modified, found⟩
    | file content modified mode =>
        cases kind
    | link target =>
        cases kind
  · rintro ⟨location, modified, found⟩
    exact ⟨location, _, found, rfl⟩

theorem isPresent_iff (workspace : Workspace) (path : Path) :
    workspace.isPresent path = true ↔
      ∃ location entry, workspace.status path = .ok (location, entry) := by
  simp [isPresent, entrySatisfies_iff]

theorem isPresent_eq_false_iff :
    workspace.isPresent path = false ↔ ∃ failure, workspace.status path = .error failure := by
  cases looked : workspace.status path with
  | error failure =>
      simp [isPresent, entrySatisfies, looked]
  | ok held =>
      simp [isPresent, entrySatisfies, looked]

/-! ## Directories -/

/-- A path leads to a directory at a location. -/
def LeadsToDirectory (workspace : Workspace) (path : Path) (location : Location) : Prop :=
  ∃ modified, workspace.status path = .ok (location, .directory modified)

theorem resolve_eq_followLinks {followLast : Bool}
    (written : path.text ≠ "") (noZero : '\x00' ∉ path.text.toList) :
    workspace.resolve followLast path =
      workspace.tree.followLinks followLast FileTree.linkLimit
        (FileTree.startOf workspace.current path) path.body := by
  simp [resolve, FileTree.resolve, written, noZero]

theorem leadsToDirectory_iff :
    workspace.LeadsToDirectory path location ↔
      workspace.resolve true path = .found location ∧ workspace.tree.HoldsDirectory location := by
  constructor
  · intro leads
    obtain ⟨modified, found⟩ := leads
    obtain ⟨resolved, held⟩ := look_eq_ok_iff_resolve.1 found
    exact ⟨resolved, modified, held⟩
  · intro leads
    obtain ⟨resolved, modified, held⟩ := leads
    exact ⟨modified, look_eq_ok_iff_resolve.2 ⟨resolved, held⟩⟩

theorem LeadsToDirectory.holdsDirectory (leads : workspace.LeadsToDirectory path location) :
    workspace.tree.HoldsDirectory location :=
  (leadsToDirectory_iff.1 leads).2

theorem LeadsToDirectory.unique (leads : workspace.LeadsToDirectory path location)
    (other : workspace.LeadsToDirectory path place) : location = place := by
  obtain ⟨modified, found⟩ := leads
  obtain ⟨otherModified, otherFound⟩ := other
  rw [found] at otherFound
  cases otherFound
  rfl

theorem isDirectory_iff_leadsToDirectory :
    workspace.isDirectory path = true ↔ ∃ location, workspace.LeadsToDirectory path location :=
  workspace.isDirectory_iff path

theorem not_leadsToDirectory_of_isFile (file : workspace.isFile path = true) :
    ¬ workspace.LeadsToDirectory path location := by
  intro leads
  obtain ⟨modified, found⟩ := leads
  obtain ⟨place, content, changed, mode, foundFile⟩ := (workspace.isFile_iff path).1 file
  rw [found] at foundFile
  cases foundFile

theorem isDirectory_eq_false_of_isFile (file : workspace.isFile path = true) :
    workspace.isDirectory path = false := by
  rw [← Bool.not_eq_true, isDirectory_iff_leadsToDirectory]
  intro directory
  obtain ⟨location, leads⟩ := directory
  exact not_leadsToDirectory_of_isFile file leads

/-- Up to a slash at its end, a path leads to the directory that the whole of it leads to. -/
theorem LeadsToDirectory.followLinks_core (leads : workspace.LeadsToDirectory base location) :
    workspace.tree.followLinks true FileTree.linkLimit (FileTree.startOf workspace.current base)
      base.core = .found location := by
  obtain ⟨resolved, directory⟩ := leadsToDirectory_iff.1 leads
  have written := FileTree.written_of_resolve_found resolved
  rw [resolve_eq_followLinks written.1 written.2] at resolved
  cases base.body_eq_core with
  | inl same =>
      rwa [← same]
  | inr slashed =>
      rw [slashed] at resolved
      exact ((FileTree.followLinks_append_filler_iff rfl).1 resolved).1

/-! ## Names in directories -/

theorem resolve_join_eq_followLinks {followLast : Bool} (written : base.text ≠ "")
    (baseZero : '\x00' ∉ base.text.toList) (plainName : PlainName name)
    (nameZero : '\x00' ∉ name.toList) :
    workspace.resolve followLast (base.join ⟨name⟩) =
      workspace.tree.followLinks followLast FileTree.linkLimit
        (FileTree.startOf workspace.current base) (base.core ++ [name]) := by
  have relative := plainName.isAbsolute
  have noZero : '\x00' ∉ (base.join ⟨name⟩).text.toList := by
    rw [Path.mem_text_join_iff relative written (by decide)]
    simp [baseZero, nameZero]
  have start :
      FileTree.startOf workspace.current (base.join ⟨name⟩) =
        FileTree.startOf workspace.current base := by
    rw [FileTree.startOf, Path.isAbsolute_join relative written, FileTree.startOf]
  rw [resolve_eq_followLinks (Path.text_join_ne_empty relative written) noZero, start,
    Path.body_join relative written, plainName.pieces]

namespace LeadsToDirectory

/-- From a directory a name is followed on its own. -/
theorem exists_resolve_join (leads : workspace.LeadsToDirectory base location)
    (fileName : FileName name) :
    ∃ left, ∀ followLast, workspace.resolve followLast (base.join ⟨name⟩) =
      workspace.tree.followLinks followLast left location [name] := by
  have written := FileTree.written_of_resolve_found (leadsToDirectory_iff.1 leads).1
  obtain ⟨left, continues⟩ := FileTree.continues_followLinks leads.followLinks_core
  refine ⟨left, ?_⟩
  intro followLast
  rw [resolve_join_eq_followLinks written.1 written.2 fileName.toPlainName fileName.noZero]
  exact continues followLast [name] (List.cons_ne_nil name [])

/-- A name in a directory leads to the entry of that name when no link at the end is followed. -/
theorem look_join (leads : workspace.LeadsToDirectory base location) (fileName : FileName name)
    (held : workspace.tree.find? (location ++ [name]) = some entry) :
    workspace.look false (base.join ⟨name⟩) = .ok (location ++ [name], entry) := by
  obtain ⟨left, resolves⟩ := leads.exists_resolve_join fileName
  refine look_eq_ok_iff_resolve.2 ⟨?_, held⟩
  rw [resolves, FileTree.followLinks_name leads.holdsDirectory fileName, held]
  cases entry <;> rfl

theorem status_join (leads : workspace.LeadsToDirectory base location) (fileName : FileName name)
    (held : workspace.tree.find? (location ++ [name]) = some entry)
    (noLink : entry.isLink = false) :
    workspace.status (base.join ⟨name⟩) = .ok (location ++ [name], entry) := by
  obtain ⟨left, resolves⟩ := leads.exists_resolve_join fileName
  refine look_eq_ok_iff_resolve.2 ⟨?_, held⟩
  rw [resolves, FileTree.followLinks_name leads.holdsDirectory fileName, held]
  cases entry with
  | directory modified =>
      rfl
  | file content modified mode =>
      rfl
  | link target =>
      cases noLink

end LeadsToDirectory

/-- A name that leads anywhere is one of an entry in a directory. -/
theorem exists_leadsToDirectory_of_status (written : base.text ≠ "") (plainName : PlainName name)
    (found : workspace.status (base.join ⟨name⟩) = .ok (place, entry)) :
    ∃ location, workspace.LeadsToDirectory base location ∧
      ∃ held, workspace.tree.find? (location ++ [name]) = some held := by
  obtain ⟨resolved, -⟩ := look_eq_ok_iff_resolve.1 found
  have relative := plainName.isAbsolute
  have noZero := (FileTree.written_of_resolve_found resolved).2
  rw [Path.mem_text_join_iff relative written (by decide), not_or] at noZero
  rw [resolve_join_eq_followLinks written noZero.1 plainName noZero.2] at resolved
  obtain ⟨location, toBase⟩ :=
    FileTree.exists_found_of_append (List.cons_ne_nil name []) resolved
  obtain ⟨left, continues⟩ := FileTree.continues_followLinks toBase
  dsimp only at continues
  rw [continues true [name] (List.cons_ne_nil name [])] at resolved
  obtain ⟨directory, isHeld⟩ := FileTree.of_followLinks_name plainName resolved
  refine ⟨location, leadsToDirectory_iff.2 ⟨?_, directory⟩, Option.ne_none_iff_exists'.1 isHeld⟩
  rw [resolve_eq_followLinks written noZero.1]
  cases base.body_eq_core with
  | inl same =>
      rw [same, toBase]
  | inr slashed =>
      rw [slashed]
      exact (FileTree.followLinks_append_filler_iff rfl).2 ⟨toBase, directory⟩

end ClojureBuild.Workspace
