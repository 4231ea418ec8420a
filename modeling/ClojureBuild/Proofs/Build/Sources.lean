import ClojureBuild.Build.Sources
import ClojureBuild.Proofs.Workspace.Directories
import ClojureBuild.Proofs.Workspace.Walk

/-!
# Listed files

In a plain workspace a source that is a directory contributes every file below it, one that is a file
contributes itself, and nothing is reported.
-/

namespace ClojureBuild

namespace Workspace

variable {workspace other : Workspace} {source file root : Path} {sources files : List Path}
variable {location : Location} {notices : List Notice}

/-! ## Single sources -/

/-- The files that a source contributes. -/
def listedFiles (workspace : Workspace) (source : Path) : List Path :=
  if workspace.isDirectory source then
    (workspace.fileNames (placeOf source)).map source.below
  else if workspace.isFile source then
    [source]
  else
    []

theorem filesOf_eq (plain : workspace.tree.Plain) (absolute : source.isAbsolute = true) :
    workspace.filesOf source = (.ok (workspace.listedFiles source), []) := by
  rw [filesOf, listedFiles]
  by_cases directory : workspace.isDirectory source = true
  · rcases isDirectory_iff_leadsToDirectory.1 directory with ⟨location, leads⟩
    have isPlace := eq_placeOf_of_leadsToDirectory plain absolute leads
    subst isPlace
    rw [if_pos directory, if_pos directory,
      walk_none_eq plain leads (same_standardInput_of_isAbsolute absolute)]
  · rw [if_neg directory, if_neg directory]
    split
    · rfl
    · rfl

/-- The files below a root are listed by the names that lead to them. -/
theorem mem_listedFiles_iff
    (plain : workspace.tree.Plain) (leads : workspace.LeadsToDirectory root (placeOf root)) :
    file ∈ workspace.listedFiles root ↔
      ∃ names, workspace.tree.HoldsFile (placeOf root ++ names) ∧ file = root.below names := by
  have directory := isDirectory_iff_leadsToDirectory.2 ⟨_, leads⟩
  rw [listedFiles, if_pos directory, List.mem_map]
  constructor
  · rintro ⟨names, member, rfl⟩
    exact ⟨names, (mem_fileNames_iff plain.toWellFormed).1 member, rfl⟩
  · rintro ⟨names, held, rfl⟩
    exact ⟨names, (mem_fileNames_iff plain.toWellFormed).2 held, rfl⟩

/-! ## All sources -/

theorem filesOfAll_eq
    (plain : workspace.tree.Plain) (absolute : ∀ source ∈ sources, source.isAbsolute = true) :
    workspace.filesOfAll sources = (.ok (sources.flatMap workspace.listedFiles), []) := by
  induction sources with
  | nil =>
      rfl
  | cons source rest inductionHypothesis =>
      have first := filesOf_eq plain (absolute source List.mem_cons_self)
      have others :=
        inductionHypothesis fun other member => absolute other (List.mem_cons_of_mem source member)
      simp only [filesOfAll, first, others, Except.map, List.flatMap_cons, List.append_nil]

theorem distinctFiles_eq
    (plain : workspace.tree.Plain) (absolute : ∀ source ∈ sources, source.isAbsolute = true) :
    workspace.distinctFiles sources =
      (.ok (dropRepeats Path.same
        (sortBy Path.atMost (sources.flatMap workspace.listedFiles))), []) := by
  rw [distinctFiles, filesOfAll_eq plain absolute]
  rfl

/-- Every file that is listed has been contributed by a source. -/
theorem exists_source_of_mem_distinctFiles
    (plain : workspace.tree.Plain) (absolute : ∀ source ∈ sources, source.isAbsolute = true)
    (listed : workspace.distinctFiles sources = (.ok files, notices)) (member : file ∈ files) :
    ∃ source ∈ sources, file ∈ workspace.listedFiles source := by
  rw [distinctFiles_eq plain absolute] at listed
  cases listed
  have inAll := (sortBy_perm _).mem_iff.1 (mem_of_mem_dropRepeats member)
  exact List.mem_flatMap.1 inAll

/-- Every file that a source contributes is listed, in one of its spellings. -/
theorem exists_same_of_mem_listedFiles
    (plain : workspace.tree.Plain) (absolute : ∀ source ∈ sources, source.isAbsolute = true)
    (listed : workspace.distinctFiles sources = (.ok files, notices))
    (inSources : source ∈ sources) (member : file ∈ workspace.listedFiles source) :
    ∃ kept ∈ files, kept.same file = true ∧ placeOf kept = placeOf file := by
  have isListed := listed
  rw [distinctFiles_eq plain absolute] at listed
  cases listed
  have inAll : file ∈ sortBy Path.atMost (sources.flatMap workspace.listedFiles) :=
    (sortBy_perm _).mem_iff.2 (List.mem_flatMap.2 ⟨source, inSources, member⟩)
  obtain ⟨kept, inFiles, same⟩ := exists_same_of_mem_dropRepeats Path.same_self inAll
  obtain ⟨other, inOthers, contributed⟩ :=
    exists_source_of_mem_distinctFiles plain absolute isListed inFiles
  refine ⟨kept, inFiles, same, ?_⟩
  rw [placeOf, placeOf, Path.steps_eq_of_same same]

end Workspace

end ClojureBuild
