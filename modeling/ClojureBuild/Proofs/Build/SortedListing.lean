import ClojureBuild.Proofs.Build.Listing

/-!
# Listings as sorted sets

The list of all files is in strictly ascending order and has, up to spelling, the files of every source
and no others.  So it depends on the set of the sources only, and listing its own members gives it back.
-/

namespace ClojureBuild

/-- Lists in strict order with the same paths in them, however spelled, agree step by step. -/
theorem Path.forall₂_same_of_before {first second : List Path}
    (firstOrdered : first.Pairwise Path.Before) (secondOrdered : second.Pairwise Path.Before)
    (forth : ∀ file ∈ first, ∃ other ∈ second, other.same file = true)
    (back : ∀ file ∈ second, ∃ other ∈ first, other.same file = true) :
    List.Forall₂ (fun left right => left.same right = true) first second := by
  have ordered {files : List Path} (isOrdered : files.Pairwise Path.Before) :
      (files.map Path.components).Pairwise fun left right =>
        componentsAtMost left right = true ∧ left ≠ right := by
    rw [List.pairwise_map]
    apply isOrdered.imp
    intro left right before
    exact ⟨before.1, mt Path.same_iff.2 (Bool.eq_false_iff.1 before.2)⟩
  have included {files others : List Path}
      (spelled : ∀ file ∈ files, ∃ other ∈ others, other.same file = true)
      {components : List Component} (member : components ∈ files.map Path.components) :
      components ∈ others.map Path.components := by
    obtain ⟨file, inFiles, isFile⟩ := List.mem_map.1 member
    obtain ⟨other, inOthers, same⟩ := spelled file inFiles
    exact List.mem_map.2 ⟨other, inOthers, (Path.same_iff.1 same).trans isFile⟩
  have equal : first.map Path.components = second.map Path.components := by
    apply eq_of_pairwise_of_mem_iff _ (ordered firstOrdered) (ordered secondOrdered)
    · intro components
      exact ⟨included forth, included back⟩
    · intro left right before after
      exact before.2 (Path.eq_of_componentsAtMost before.1 after.1)
  have stepwise : List.Forall₂ Eq (first.map Path.components) (second.map Path.components) := by
    rw [equal]
    exact List.forall₂_refl _
  rw [List.forall₂_map_left_iff, List.forall₂_map_right_iff] at stepwise
  exact stepwise.imp fun _ _ same => Path.same_iff.2 same

namespace Workspace

variable {workspace : Workspace} {root source file : Path} {sources others files found : List Path}

/-! ## What sources contribute -/

theorem filesOfAll_cons_eq_ok_iff :
    (workspace.filesOfAll (source :: sources)).1 = .ok found ↔
      ∃ files others, (workspace.filesOf source).1 = .ok files ∧
        (workspace.filesOfAll sources).1 = .ok others ∧ found = files ++ others := by
  rw [filesOfAll_cons]
  cases (workspace.filesOf source).1 with
  | error failure =>
      simp [Except.bind]
  | ok files =>
      cases (workspace.filesOfAll sources).1 with
      | error failure =>
          simp [Except.bind, Except.map]
      | ok others =>
          simp [Except.bind, Except.map, eq_comm]

/-- The files of all sources can be listed when those of each source can. -/
theorem exists_filesOfAll_iff :
    (∃ found, (workspace.filesOfAll sources).1 = .ok found) ↔
      ∀ source ∈ sources, ∃ files, (workspace.filesOf source).1 = .ok files := by
  induction sources with
  | nil =>
      simp [filesOfAll]
  | cons source rest inductionHypothesis =>
      rw [List.forall_mem_cons, ← inductionHypothesis]
      simp only [filesOfAll_cons_eq_ok_iff]
      constructor
      · intro listed
        obtain ⟨_, files, others, own, rest, -⟩ := listed
        exact ⟨⟨files, own⟩, others, rest⟩
      · intro listed
        obtain ⟨⟨files, own⟩, others, rest⟩ := listed
        exact ⟨files ++ others, files, others, own, rest, rfl⟩

theorem mem_filesOfAll_iff (listed : (workspace.filesOfAll sources).1 = .ok found) :
    file ∈ found ↔
      ∃ source ∈ sources, ∃ files, (workspace.filesOf source).1 = .ok files ∧ file ∈ files := by
  induction sources generalizing found with
  | nil =>
      cases listed
      simp
  | cons source rest inductionHypothesis =>
      obtain ⟨files, others, own, behind, rfl⟩ := filesOfAll_cons_eq_ok_iff.1 listed
      rw [List.mem_append, inductionHypothesis behind]
      simp [own]

/-- Sources contribute those of them that are files, and what walks from the directories find. -/
def Contributes (workspace : Workspace) (sources : List Path) (file : Path) : Prop :=
  (file ∈ sources ∧ workspace.isFile file = true) ∨
    ∃ root ∈ sources, workspace.isDirectory root = true ∧
      ∃ files, (workspace.walk root none).1 = .ok files ∧ file ∈ files

theorem contributes_iff :
    workspace.Contributes sources file ↔
      ∃ source ∈ sources, ∃ files, (workspace.filesOf source).1 = .ok files ∧ file ∈ files := by
  constructor
  · intro contributes
    cases contributes with
    | inl single =>
        have noDirectory := isDirectory_eq_false_of_isFile single.2
        refine ⟨file, single.1, _, filesOf_of_not_isDirectory noDirectory, ?_⟩
        simp [single.2]
    | inr walked =>
        obtain ⟨root, member, isDirectory, files, done, inFiles⟩ := walked
        exact ⟨root, member, files, by rw [filesOf, if_pos isDirectory, done], inFiles⟩
  · intro contributes
    obtain ⟨source, member, files, own, inFiles⟩ := contributes
    by_cases isDirectory : workspace.isDirectory source = true
    · rw [filesOf, if_pos isDirectory] at own
      exact Or.inr ⟨source, member, isDirectory, files, own, inFiles⟩
    · rw [filesOf_of_not_isDirectory (Bool.eq_false_iff.2 isDirectory)] at own
      cases own
      by_cases isFile : workspace.isFile source = true
      · rw [if_pos isFile, List.mem_singleton] at inFiles
        rw [inFiles]
        exact Or.inl ⟨member, isFile⟩
      · rw [if_neg isFile] at inFiles
        cases inFiles

theorem Contributes.isFile (contributes : workspace.Contributes sources file) :
    workspace.isFile file = true := by
  cases contributes with
  | inl single =>
      exact single.2
  | inr walked =>
      obtain ⟨root, -, -, files, done, inFiles⟩ := walked
      exact isFile_of_mem_walk done inFiles

/-- Only what the sources are counts, not their order or how often they are given. -/
theorem Contributes.of_subset (contributes : workspace.Contributes sources file)
    (included : ∀ source ∈ sources, source ∈ others) : workspace.Contributes others file := by
  rw [contributes_iff] at contributes ⊢
  obtain ⟨source, member, isHeld⟩ := contributes
  exact ⟨source, included source member, isHeld⟩

/-! ## The list of all files -/

/-- A list in ascending order of the files that sources contribute. -/
structure ListsContributed (workspace : Workspace) (sources files : List Path) : Prop where
  ascending : files.Pairwise Path.Before
  sound : ∀ file ∈ files, workspace.Contributes sources file
  complete : ∀ file, workspace.Contributes sources file → ∃ listed ∈ files, listed.same file = true

theorem distinctFiles_eq_ok_iff :
    (workspace.distinctFiles sources).1 = .ok files ↔
      ∃ found, (workspace.filesOfAll sources).1 = .ok found ∧
        dropRepeats Path.same (sortBy Path.atMost found) = files := by
  change (workspace.filesOfAll sources).1.map _ = _ ↔ _
  cases (workspace.filesOfAll sources).1 with
  | error failure =>
      simp [Except.map]
  | ok found =>
      simp [Except.map]

theorem listsContributed_of_distinctFiles
    (listed : (workspace.distinctFiles sources).1 = .ok files) :
    workspace.ListsContributed sources files := by
  obtain ⟨found, all, rfl⟩ := distinctFiles_eq_ok_iff.1 listed
  have members (file : Path) : file ∈ found ↔ workspace.Contributes sources file :=
    (mem_filesOfAll_iff all).trans contributes_iff.symm
  refine ⟨?_, ?_, ?_⟩
  · exact dropRepeats_sortBy_strict Path.atMost_total Path.atMost_trans Path.same_iff_atMost found
  · intro file member
    rw [← members, ← (sortBy_perm found).mem_iff]
    exact mem_of_mem_dropRepeats member
  · intro file contributes
    have sorted : file ∈ sortBy Path.atMost found :=
      (sortBy_perm found).mem_iff.2 ((members file).2 contributes)
    exact exists_same_of_mem_dropRepeats Path.same_self sorted

/-- Where all sources are files they are the files that they contribute. -/
theorem filesOfAll_of_isFile (areFiles : ∀ source ∈ sources, workspace.isFile source = true) :
    workspace.filesOfAll sources = (.ok sources, []) := by
  induction sources with
  | nil =>
      rfl
  | cons source rest inductionHypothesis =>
      rw [List.forall_mem_cons] at areFiles
      have noDirectory := isDirectory_eq_false_of_isFile areFiles.1
      rw [filesOfAll, filesOf, noDirectory, if_neg Bool.false_ne_true, if_pos areFiles.1]
      simp only [inductionHypothesis areFiles.2]
      rfl

theorem sorted_of_before (ascending : files.Pairwise Path.Before) :
    dropRepeats Path.same (sortBy Path.atMost files) = files := by
  rw [sortBy_eq_self (ascending.imp And.left), dropRepeats_eq_self (ascending.imp And.right)]

/-- The list for a single directory is what a walk from it gives, notices and failures included. -/
theorem distinctFiles_singleton (wellFormed : workspace.tree.WellFormed)
    (directory : workspace.isDirectory root = true) :
    workspace.distinctFiles [root] = workspace.walk root none := by
  rw [distinctFiles, filesOfAll, filesOf, if_pos directory]
  cases walked : workspace.walk root none with
  | mk outcome notices =>
      cases outcome with
      | error failure =>
          rfl
      | ok files =>
          have ascending := ascending_of_walk wellFormed directory (congrArg Prod.fst walked)
          simp [filesOfAll, Except.map, sorted_of_before ascending]

/-- A list of all files is a sorted set: strictly ascending, with exactly the files that the sources
contribute up to spelling.  Other lists with the same sources, in whatever order and however often,
give the same paths step by step; a single directory gives what a walk gives; and listing the list
gives the list. -/
theorem distinctFiles_is_sorted_union (wellFormed : workspace.tree.WellFormed)
    (listed : (workspace.distinctFiles sources).1 = .ok files) :
    workspace.ListsContributed sources files ∧
    (∀ others, (∀ source, source ∈ others ↔ source ∈ sources) →
      ∃ found, (workspace.distinctFiles others).1 = .ok found ∧
        List.Forall₂ (fun left right => left.same right = true) found files) ∧
    (∀ root, sources = [root] → workspace.isDirectory root = true →
      workspace.walk root none = workspace.distinctFiles sources) ∧
    workspace.distinctFiles files = (.ok files, []) := by
  have lists := listsContributed_of_distinctFiles listed
  refine ⟨lists, ?_, ?_, ?_⟩
  · intro others sameSources
    obtain ⟨all, listedAll, -⟩ := distinctFiles_eq_ok_iff.1 listed
    have each := exists_filesOfAll_iff.1 ⟨all, listedAll⟩
    obtain ⟨otherAll, otherListed⟩ :=
      exists_filesOfAll_iff.2 fun source member => each source ((sameSources source).1 member)
    have otherDone := distinctFiles_eq_ok_iff.2 ⟨otherAll, otherListed, rfl⟩
    have otherLists := listsContributed_of_distinctFiles otherDone
    refine ⟨_, otherDone, ?_⟩
    apply Path.forall₂_same_of_before otherLists.ascending lists.ascending
    · intro file member
      apply lists.complete
      exact (otherLists.sound file member).of_subset fun source => (sameSources source).1
    · intro file member
      apply otherLists.complete
      exact (lists.sound file member).of_subset fun source => (sameSources source).2
  · intro root alone directory
    rw [alone, distinctFiles_singleton wellFormed directory]
  · have areFiles (file : Path) (member : file ∈ files) : workspace.isFile file = true :=
      (lists.sound file member).isFile
    rw [distinctFiles, filesOfAll_of_isFile areFiles]
    simp only [Except.map, sorted_of_before lists.ascending]

/-- A directory and a file in it, spelled otherwise than a walk does, contribute one file. -/
theorem listing_of_linkedBack :
    linkedBack.tree.WellFormed ∧
      (linkedBack.distinctFiles [⟨"d"⟩, ⟨"d/./a/f"⟩]).1 = .ok [⟨"d/a/f"⟩] ∧
        linkedBack.ListsContributed [⟨"d"⟩, ⟨"d/./a/f"⟩] [⟨"d/a/f"⟩] ∧
          ∃ found, (linkedBack.distinctFiles [⟨"d/./a/f"⟩, ⟨"d"⟩, ⟨"d"⟩]).1 = .ok found ∧
            List.Forall₂ (fun left right => left.same right = true) found [⟨"d/a/f"⟩] := by
  have wellFormed : linkedBack.tree.WellFormed := by decide +kernel
  have listed : (linkedBack.distinctFiles [⟨"d"⟩, ⟨"d/./a/f"⟩]).1 = .ok [⟨"d/a/f"⟩] := by
    decide +kernel
  obtain ⟨lists, reordered, -⟩ := distinctFiles_is_sorted_union wellFormed listed
  refine ⟨wellFormed, listed, lists, reordered _ ?_⟩
  intro source
  simp only [List.mem_cons, List.not_mem_nil, or_false]
  rw [or_self, or_comm]

end Workspace

end ClojureBuild
