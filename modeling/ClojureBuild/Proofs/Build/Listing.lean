import ClojureBuild.Proofs.Build.Sources
import ClojureBuild.Proofs.Sorting
import ClojureBuild.Proofs.Workspace.Lasting
import ClojureBuild.Proofs.Workspace.Spellings

/-!
# Files that are listed already

The files of all sources are listed once each, in the first spelling that a source contributes.  So a
source that contributes only files which earlier ones contribute can be left out of the list.
-/

namespace ClojureBuild.Workspace

variable {start workspace : Workspace} {path root source : Path} {sources front rest : List Path}
variable {files found : List Path}

/-! ## One source after the other -/

theorem filesOfAll_cons (workspace : Workspace) (source : Path) (rest : List Path) :
    (workspace.filesOfAll (source :: rest)).1 =
      (workspace.filesOf source).1.bind fun files =>
        (workspace.filesOfAll rest).1.map (files ++ ·) := by
  rw [filesOfAll]
  cases workspace.filesOf source with
  | mk outcome notices =>
      cases outcome with
      | error failure =>
          rfl
      | ok files =>
          rfl

theorem filesOfAll_append (workspace : Workspace) (front rest : List Path) :
    (workspace.filesOfAll (front ++ rest)).1 =
      (workspace.filesOfAll front).1.bind fun files =>
        (workspace.filesOfAll rest).1.map (files ++ ·) := by
  induction front with
  | nil =>
      cases outcome : (workspace.filesOfAll rest).1 with
      | error failure =>
          simpa [filesOfAll, Except.bind, Except.map] using outcome
      | ok files =>
          simpa [filesOfAll, Except.bind, Except.map] using outcome
  | cons source front inductionHypothesis =>
      rw [List.cons_append, filesOfAll_cons, filesOfAll_cons, inductionHypothesis]
      cases (workspace.filesOf source).1 with
      | error failure =>
          rfl
      | ok first =>
          cases (workspace.filesOfAll front).1 with
          | error failure =>
              rfl
          | ok others =>
              cases (workspace.filesOfAll rest).1 with
              | error failure =>
                  rfl
              | ok later =>
                  simp [Except.bind, Except.map]

theorem exists_filesOf_of_mem (listed : (workspace.filesOfAll sources).1 = .ok found)
    (member : source ∈ sources) :
    ∃ files, (workspace.filesOf source).1 = .ok files ∧ ∀ file ∈ files, file ∈ found := by
  obtain ⟨front, rest, split⟩ := List.append_of_mem member
  rw [split, filesOfAll_append, filesOfAll_cons] at listed
  cases first : (workspace.filesOfAll front).1 with
  | error failure =>
      rw [first] at listed
      cases listed
  | ok before =>
      cases own : (workspace.filesOf source).1 with
      | error failure =>
          rw [first, own] at listed
          cases listed
      | ok files =>
          cases last : (workspace.filesOfAll rest).1 with
          | error failure =>
              rw [first, own, last] at listed
              cases listed
          | ok behind =>
              rw [first, own, last] at listed
              cases listed
              exact ⟨files, rfl, fun file inFiles => by simp [inFiles]⟩

/-! ## Sources that add nothing -/

/-- Unless the listing of sources fails, a path contributes only files that they contribute. -/
def Covers (workspace : Workspace) (sources : List Path) (path : Path) : Prop :=
  ∀ found, (workspace.filesOfAll sources).1 = .ok found →
    ∃ files, (workspace.filesOf path).1 = .ok files ∧
      ∀ file ∈ files, ∃ other ∈ found, other.same file = true

/-- The first of equal files stays the first one when later repeats of it are left out. -/
theorem find?_append_of_repeats
    (repeats : ∀ file ∈ files, ∃ other ∈ found, other.same file = true) (later : List Path)
    (file : Path) :
    (found ++ (files ++ later)).find? file.same = (found ++ later).find? file.same := by
  rw [List.find?_append, List.find?_append, List.find?_append]
  cases first : found.find? file.same with
  | some other =>
      rfl
  | none =>
      have notInFiles : files.find? file.same = none := by
        rw [List.find?_eq_none] at first ⊢
        intro item member isSame
        obtain ⟨other, inFound, same⟩ := repeats item member
        apply first other inFound
        exact Path.same_trans isSame (Path.same_symm same)
      rw [notInFiles]
      rfl

/-- A source that adds nothing to the sources before it can be left out. -/
theorem distinctFiles_of_covers (covers : workspace.Covers front source) (rest : List Path) :
    (workspace.distinctFiles (front ++ source :: rest)).1 =
      (workspace.distinctFiles (front ++ rest)).1 := by
  change (workspace.filesOfAll (front ++ source :: rest)).1.map _ =
    (workspace.filesOfAll (front ++ rest)).1.map _
  rw [filesOfAll_append, filesOfAll_append, filesOfAll_cons]
  cases first : (workspace.filesOfAll front).1 with
  | error failure =>
      rfl
  | ok found =>
      obtain ⟨files, own, repeats⟩ := covers found first
      rw [own]
      cases (workspace.filesOfAll rest).1 with
      | error failure =>
          rfl
      | ok later =>
          change Except.ok (dropRepeats Path.same (sortBy Path.atMost (found ++ (files ++ later)))) =
            Except.ok (dropRepeats Path.same (sortBy Path.atMost (found ++ later)))
          rw [dropRepeats_sortBy_eq Path.atMost_total Path.atMost_trans Path.same_iff_atMost
            (find?_append_of_repeats repeats later)]

/-! ## What covers a file -/

theorem filesOf_of_not_isDirectory (noDirectory : workspace.isDirectory path = false) :
    (workspace.filesOf path).1 = .ok (if workspace.isFile path then [path] else []) := by
  rw [filesOf, noDirectory, if_neg Bool.false_ne_true]
  split
  · rfl
  · rfl

/-- A source with an earlier one of the same spelling, but for fillers inside, adds nothing. -/
theorem covers_of_alike {other : Path} (member : other ∈ sources) (alike : other.Alike path) :
    workspace.Covers sources path := by
  intro found listed
  obtain ⟨files, own, included⟩ := exists_filesOf_of_mem listed member
  have directories : workspace.isDirectory other = workspace.isDirectory path :=
    entrySatisfies_eq_of_alike workspace alike Entry.isDirectory
  have kinds : workspace.isFile other = workspace.isFile path :=
    entrySatisfies_eq_of_alike workspace alike Entry.isFile
  cases directory : workspace.isDirectory other with
  | true =>
      rw [filesOf, directory, if_pos rfl] at own
      obtain ⟨others, walked, -, spelled⟩ :=
        walk_of_same alike.leftAbsolute alike.same directory own
      refine ⟨others, by rw [filesOf, ← directories, directory, if_pos rfl, walked], ?_⟩
      intro file inOthers
      obtain ⟨listedFile, inFiles, same⟩ := spelled file inOthers
      exact ⟨listedFile, included listedFile inFiles, same⟩
  | false =>
      rw [filesOf_of_not_isDirectory directory] at own
      cases own
      refine ⟨_, filesOf_of_not_isDirectory (directories ▸ directory), ?_⟩
      intro file member
      cases isFile : workspace.isFile path with
      | false =>
          simp [isFile] at member
      | true =>
          rw [isFile, if_pos rfl, List.mem_singleton] at member
          rw [member]
          exact ⟨other, included other (by simp [kinds, isFile]), alike.same⟩

/-- A file that an earlier directory contributes adds nothing. -/
theorem covers_of_root (member : root ∈ sources)
    (noDirectory : workspace.isDirectory path = false)
    (contributed : workspace.isFile path = true → workspace.isDirectory root = true ∧
      ∀ files, (workspace.walk root none).1 = .ok files → ∃ file ∈ files, file.same path = true) :
    workspace.Covers sources path := by
  intro found listed
  refine ⟨_, filesOf_of_not_isDirectory noDirectory, ?_⟩
  intro file inFiles
  cases isFile : workspace.isFile path with
  | false =>
      simp [isFile] at inFiles
  | true =>
      rw [isFile, if_pos rfl, List.mem_singleton] at inFiles
      rw [inFiles]
      obtain ⟨directory, spelled⟩ := contributed isFile
      obtain ⟨files, own, included⟩ := exists_filesOf_of_mem listed member
      rw [filesOf, directory, if_pos rfl] at own
      obtain ⟨other, inWalk, same⟩ := spelled files own
      exact ⟨other, included other inWalk, same⟩

variable {file : Path}

/-- A walk from a root finds a file, whose path has been one of a file before. -/
theorem covers_of_walk (member : root ∈ sources) (absolute : path.isAbsolute = true)
    (wasFile : start.isFile path = true) (differs : path.same root = false)
    (walked : (workspace.walk root none).1 = .ok files) (inWalk : file ∈ files)
    (same : path.same file = true) : workspace.Covers sources path := by
  have isFile := isFile_of_mem_walk walked inWalk
  have alike := Path.alike_of_same absolute same (endsInStep_of_isFile wasFile)
    (endsInStep_of_isFile isFile)
  have directory : workspace.isDirectory root = true := by
    by_contra noDirectory
    rw [eq_of_mem_walk (Bool.eq_false_iff.2 noDirectory) walked inWalk, differs] at same
    cases same
  apply covers_of_root member
  · rw [isDirectory, entrySatisfies_eq_of_alike workspace alike]
    exact isDirectory_eq_false_of_isFile isFile
  · intro _
    refine ⟨directory, ?_⟩
    intro others walkedAgain
    rw [walked] at walkedAgain
    cases walkedAgain
    exact ⟨file, inWalk, Path.same_symm same⟩

/-- A walk from a root has found a file before, and what there was has lasted. -/
theorem covers_of_lasting (member : root ∈ sources) (rootAbsolute : root.isAbsolute = true)
    (absolute : path.isAbsolute = true) (wellFormed : start.tree.WellFormed)
    (lasting : Lasting start workspace) (wasFile : start.isFile path = true)
    (directory : start.isDirectory root = true)
    (walked : (start.walk root none).1 = .ok files) (inWalk : file ∈ files)
    (same : path.same file = true) : workspace.Covers sources path := by
  have named := same_standardInput_of_isAbsolute rootAbsolute
  obtain ⟨names, finds, isBelow⟩ :=
    (mem_walk_iff wellFormed directory named walked).1 inWalk
  have alike := Path.alike_of_same absolute same (endsInStep_of_isFile wasFile)
    (endsInStep_of_isFile (isFile_of_mem_walk walked inWalk))
  rw [isBelow] at alike
  apply covers_of_root member (lasting.isDirectory_eq_false_of_isFile wasFile)
  intro stillFile
  rw [isFile, entrySatisfies_eq_of_alike workspace alike] at stillFile
  have findsAgain := lasting.finds wellFormed directory finds stillFile
  have stillDirectory :=
    findsAgain.isDirectory (Path.text_ne_empty_of_isAbsolute rootAbsolute)
  refine ⟨stillDirectory, ?_⟩
  intro others walkedAgain
  refine ⟨root.below names, ?_, ?_⟩
  · exact (mem_walk_iff lasting.wellFormed stillDirectory named walkedAgain).2
      ⟨names, findsAgain, rfl⟩
  · exact Path.same_symm alike.same

end ClojureBuild.Workspace
