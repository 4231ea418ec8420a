import ClojureBuild.Proofs.Workspace.Lookup

/-!
# Looking things up in plain workspaces

Where a path leads in a workspace whose tree is plain.  Only the pieces of the path matter, and what
lies below a directory is found by the names that lead there, however the directory was written.
-/

namespace ClojureBuild.Workspace

variable {workspace : Workspace} {path base : Path} {place location : Location} {entry : Entry}

/-- The location that a path spells. -/
def spelled (workspace : Workspace) (path : Path) : Location :=
  FileTree.spell (FileTree.startOf workspace.current path) path.body

/-! ## Lookups -/

theorem look_eq_ok_iff
    (plain : workspace.tree.Plain) (followLast : Bool) :
    workspace.look followLast path = .ok (place, entry) ↔
      (path.text ≠ "" ∧ '\x00' ∉ path.text.toList) ∧
        workspace.tree.follow (FileTree.startOf workspace.current path) path.body =
            .found place ∧
          workspace.tree.find? place = some entry := by
  rw [look_eq_ok_iff_resolve]
  constructor
  · intro looked
    obtain ⟨resolved, held⟩ := looked
    have written := FileTree.written_of_resolve_found resolved
    rw [resolve, FileTree.resolve_eq_follow plain followLast workspace.current written.1 written.2]
      at resolved
    exact ⟨written, resolved, held⟩
  · intro followed
    obtain ⟨written, resolved, held⟩ := followed
    rw [resolve, FileTree.resolve_eq_follow plain followLast workspace.current written.1 written.2]
    exact ⟨resolved, held⟩

theorem status_eq_ok_iff
    (plain : workspace.tree.Plain) :
    workspace.status path = .ok (place, entry) ↔
      (path.text ≠ "" ∧ '\x00' ∉ path.text.toList) ∧
        workspace.tree.follow (FileTree.startOf workspace.current path) path.body =
            .found place ∧
          workspace.tree.find? place = some entry :=
  look_eq_ok_iff plain true

theorem spelled_of_status
    (plain : workspace.tree.Plain) (found : workspace.status path = .ok (place, entry)) :
    place = workspace.spelled path :=
  FileTree.eq_spell_of_follow plain ((status_eq_ok_iff plain).1 found).2.1

theorem spelled_eq_of_current
    {other : Workspace} (current : other.current = workspace.current) (path : Path) :
    other.spelled path = workspace.spelled path := by
  rw [spelled, current, spelled]

theorem leadsToDirectory_spelled
    (plain : workspace.tree.Plain) (directory : workspace.isDirectory path = true) :
    workspace.LeadsToDirectory path (workspace.spelled path) := by
  obtain ⟨location, modified, found⟩ := isDirectory_iff_leadsToDirectory.1 directory
  rw [← spelled_of_status plain found]
  exact ⟨modified, found⟩

/-! ## Below a directory -/

theorem follow_core_of_leadsToDirectory
    (plain : workspace.tree.Plain) (leads : workspace.LeadsToDirectory base location) :
    workspace.tree.follow (FileTree.startOf workspace.current base) base.core =
      .found location := by
  rw [← FileTree.followLinks_eq_follow plain true FileTree.linkLimit]
  exact leads.followLinks_core

/-- What a relative path leads to from a directory. -/
theorem status_join_iff
    (plain : workspace.tree.Plain) (leads : workspace.LeadsToDirectory base location)
    {inner : Path} (relative : inner.isAbsolute = false) :
    workspace.status (base.join inner) = .ok (place, entry) ↔
      '\x00' ∉ inner.text.toList ∧
        workspace.tree.follow location inner.pieces = .found place ∧
          workspace.tree.find? place = some entry := by
  have core := follow_core_of_leadsToDirectory plain leads
  obtain ⟨modified, found⟩ := leads
  obtain ⟨⟨written, noZero⟩, -, -⟩ := (status_eq_ok_iff plain).1 found
  have start :
      FileTree.startOf workspace.current (base.join inner) =
        FileTree.startOf workspace.current base := by
    simp [FileTree.startOf, Path.isAbsolute_join relative written]
  have joinedWritten := Path.text_join_ne_empty relative written
  have zeros :
      '\x00' ∉ (base.join inner).text.toList ↔ '\x00' ∉ inner.text.toList := by
    rw [Path.mem_text_join_iff relative written (by decide)]
    simp [noZero]
  rw [status_eq_ok_iff plain, start, Path.body_join relative written,
    FileTree.follow_append_eq_found_iff plain, core, zeros]
  simp [joinedWritten]

theorem zero_notMem_joinWith
    {names : List String} (fileNames : ∀ name ∈ names, FileName name) :
    '\x00' ∉ (Text.joinWith "/" names).toList := by
  induction names with
  | nil =>
      simp [Text.joinWith]
  | cons head tail inductionHypothesis =>
      have headFree := (fileNames head List.mem_cons_self).noZero
      have tailFree :=
        inductionHypothesis fun name member => fileNames name (List.mem_cons_of_mem head member)
      by_cases tailEmpty : tail = []
      · subst tailEmpty
        simpa [Text.joinWith] using headFree
      · rw [Text.joinWith_cons "/" head tailEmpty]
        simp [headFree, tailFree]

/-- Names of entries lead from a directory to what the tree holds, and to nothing else. -/
theorem status_below_iff
    (plain : workspace.tree.Plain) (leads : workspace.LeadsToDirectory base location)
    {names : List String} (plainNames : ∀ name ∈ names, PlainName name) :
    workspace.status (base.below names) = .ok (place, entry) ↔
      place = location ++ names ∧ workspace.tree.find? (location ++ names) = some entry := by
  by_cases empty : names = []
  · subst empty
    obtain ⟨modified, found⟩ := leads
    have held := find?_of_status found
    simp [found, held, eq_comm]
  · obtain ⟨first, rest, split⟩ := List.exists_cons_of_ne_nil empty
    have relative : (Path.mk (Text.joinWith "/" names)).isAbsolute = false := by
      rw [split]
      exact Path.isAbsolute_joinWith rest (plainNames first (by simp [split]))
    rw [Path.below_eq_join base empty plainNames, status_join_iff plain leads relative,
      Path.pieces_joinWith empty plainNames]
    constructor
    · rintro ⟨-, followed, found⟩
      have equal : place = location ++ names := by
        rw [FileTree.eq_spell_of_follow plain followed,
          FileTree.spell_of_plain location plainNames]
      exact ⟨equal, equal ▸ found⟩
    · rintro ⟨rfl, found⟩
      exact ⟨zero_notMem_joinWith (plain.fileName_of_mem found),
        FileTree.follow_names plain found, found⟩

theorem isFile_below_iff
    (plain : workspace.tree.Plain) (leads : workspace.LeadsToDirectory base location)
    {names : List String} (plainNames : ∀ name ∈ names, PlainName name) :
    workspace.isFile (base.below names) = true ↔
      workspace.tree.HoldsFile (location ++ names) := by
  rw [isFile_iff]
  simp [status_below_iff plain leads plainNames, FileTree.HoldsFile]

end ClojureBuild.Workspace
