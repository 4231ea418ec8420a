import ClojureBuild.Build.Namespaces
import ClojureBuild.Proofs.Build.Definitions
import ClojureBuild.Proofs.Build.Steps
import ClojureBuild.Proofs.Namespace
import ClojureBuild.Proofs.Workspace.Walk

/-!
# Detected namespaces

In a plain workspace detection finds, below every root that can be walked, exactly the namespaces
whose source is a file there, each of them once.  The lookup that follows then fails exactly when a
path that spells a namespace leads to files below two of the roots, one of which was walked.
-/

namespace ClojureBuild

namespace Workspace

variable {workspace : Workspace} {root : Path} {roots : List Path} {location : Location}
variable {definition : Definition}

/-! ## What a walk tells -/

/-- The files that a walk over a root finds. -/
def walkedFiles (workspace : Workspace) (root : Path) : List Path :=
  match (workspace.walk root none).1 with
  | .ok files => files
  | .error _ => []

/-- The files below a root that have a namespace, with this namespace, in the order of a walk. -/
def detectedBelow (workspace : Workspace) (root : Path) : List Definition :=
  (workspace.walkedFiles root).filterMap fun file =>
    (Build.namespaceOf? root file).map fun defined => ⟨defined, root, file⟩

/-- The files below several roots that have a namespace, one root after the other. -/
def detected (workspace : Workspace) (roots : List Path) : List Definition :=
  roots.flatMap workspace.detectedBelow

theorem namespaceOf?_below
    {names : List String} (nonempty : names ≠ []) (plainNames : ∀ name ∈ names, PlainName name)
    {defined : Namespace} :
    Build.namespaceOf? root (root.below names) = some defined ↔ names = defined.sourceNames := by
  rw [Build.namespaceOf?, Path.relativeTo?_below root nonempty plainNames, Option.bind_some]
  exact Namespace.ofSourcePath?_joinWith_eq_some_iff nonempty plainNames

theorem eq_sourceNames_of_mem_fileNames
    (plain : workspace.tree.Plain) (leads : workspace.LeadsToDirectory root location)
    {names : List String} (member : names ∈ workspace.fileNames location) {defined : Namespace}
    (read : Build.namespaceOf? root (root.below names) = some defined) :
    names = defined.sourceNames := by
  have nonempty : names ≠ [] := by
    rintro rfl
    exact nil_notMem_fileNames plain.toWellFormed
      leads.holdsDirectory member
  exact (namespaceOf?_below nonempty
    (plainName_of_mem_fileNames plain.toWellFormed member)).1 read

theorem walkedFiles_eq
    (plain : workspace.tree.Plain) (leads : workspace.LeadsToDirectory root location)
    (named : root.same standardInput = false) :
    workspace.walkedFiles root = (workspace.fileNames location).map root.below := by
  rw [walkedFiles, walk_none_eq plain leads named]

theorem detectedBelow_standardInput (input : root.same standardInput = true) :
    workspace.detectedBelow root = [] := by
  rw [detectedBelow, walkedFiles, walk, input]
  rfl

/-- A walk tells of a file exactly when it is the source of its namespace. -/
theorem mem_detectedBelow_iff
    (plain : workspace.tree.Plain) (leads : workspace.LeadsToDirectory root location) :
    definition ∈ workspace.detectedBelow root ↔
      root.same standardInput = false ∧ definition.root = root ∧
        definition.source = root.join definition.defined.sourcePath ∧
          workspace.isFile (root.join definition.defined.sourcePath) = true := by
  cases input : root.same standardInput with
  | true =>
      simp [detectedBelow_standardInput input]
  | false =>
      rw [Namespace.join_sourcePath,
        isFile_below_iff plain leads definition.defined.plainName_of_mem_sourceNames,
        detectedBelow, walkedFiles_eq plain leads input, List.mem_filterMap]
      constructor
      · rintro ⟨file, member, told⟩
        obtain ⟨names, inNames, rfl⟩ := List.mem_map.1 member
        obtain ⟨defined, read, rfl⟩ := Option.map_eq_some_iff.1 told
        have spelled := eq_sourceNames_of_mem_fileNames plain leads inNames read
        subst spelled
        exact ⟨rfl, rfl, rfl, (mem_fileNames_iff plain.toWellFormed).1 inNames⟩
      · rintro ⟨-, isRoot, source, file⟩
        refine ⟨definition.source, ?_, ?_⟩
        · rw [source]
          exact List.mem_map.2
            ⟨_, (mem_fileNames_iff plain.toWellFormed).2 file, rfl⟩
        · have read : Build.namespaceOf? root definition.source = some definition.defined := by
            rw [source]
            exact (namespaceOf?_below (Namespace.namesWith_ne_nil _ _)
              definition.defined.plainName_of_mem_sourceNames).2 rfl
          rw [read, Option.map_some, ← isRoot]

/-- Detection tells of every file below a root that is the source of a namespace. -/
theorem mem_detected_of_isFile
    (plain : workspace.tree.Plain) (leads : workspace.LeadsToDirectory root location)
    (named : root.same standardInput = false) (inRoots : root ∈ roots) {defined : Namespace}
    (file : workspace.isFile (root.join defined.sourcePath) = true) :
    (⟨defined, root, root.join defined.sourcePath⟩ : Definition) ∈ workspace.detected roots :=
  List.mem_flatMap.2 ⟨root, inRoots, (mem_detectedBelow_iff plain leads).2 ⟨named, rfl, rfl, file⟩⟩

/-- No walk tells of a namespace twice. -/
theorem detectedBelow_distinct
    (plain : workspace.tree.Plain) (leads : workspace.LeadsToDirectory root location) :
    (workspace.detectedBelow root).Pairwise fun left right =>
      left.defined ≠ right.defined := by
  cases input : root.same standardInput with
  | true =>
      rw [detectedBelow_standardInput input]
      exact List.Pairwise.nil
  | false =>
      have ascending :=
        FileTree.filesBelow_ascending plain.toWellFormed workspace.walkBound location
      rw [detectedBelow, walkedFiles_eq plain leads input, List.filterMap_map,
        List.pairwise_filterMap]
      refine List.Pairwise.imp_of_mem ?_ ascending
      intro left right leftMember rightMember precedes leftTold leftRead rightTold rightRead same
      obtain ⟨leftDefined, leftNamespace, rfl⟩ := Option.map_eq_some_iff.1 leftRead
      obtain ⟨rightDefined, rightNamespace, rfl⟩ := Option.map_eq_some_iff.1 rightRead
      have equal : left = right := by
        rw [eq_sourceNames_of_mem_fileNames plain leads leftMember leftNamespace,
          eq_sourceNames_of_mem_fileNames plain leads rightMember rightNamespace]
        exact congrArg Namespace.sourceNames same
      subst equal
      exact FileTree.not_before_of_before precedes precedes

end Workspace

/-! ## Detection -/

namespace Build

variable {root : Path} {roots : List Path} {namespaces : List Namespace}

theorem after_checkRoot (root : Path) (progress : Progress) :
    (checkRoot root).after progress =
      (if progress.workspace.isDirectory root then .ok () else .error (.sourceRootNotFound root),
        progress) := by
  rw [checkRoot, after_bind_of_ok (after_get progress)]
  cases progress.workspace.isDirectory root with
  | true =>
      rfl
  | false =>
      rfl

/-- The namespaces below a root. -/
def readBelow (root : Path) (workspace : Workspace) : Except BuildError (List Namespace) := do
  if workspace.isDirectory root then
    let files ← (workspace.walk root none).1.mapError BuildError.file
    return files.filterMap (namespaceOf? root)
  else
    throw (.sourceRootNotFound root)

theorem reads_checkRoot (root : Path) :
    Reads (checkRoot root) fun workspace =>
      if workspace.isDirectory root then .ok () else .error (.sourceRootNotFound root) :=
  fun progress => ⟨progress.notices, after_checkRoot root progress⟩

theorem reads_namespacesBelow (root : Path) : Reads (namespacesBelow root) (readBelow root) := by
  have reading :=
    (reads_checkRoot root).bind fun _ => Reads.look fun workspace =>
      (Reads.ofReported (workspace.walk root none)).bind fun files =>
        (Reads.report ((unmapped root files).map .unmappedSource)).bind fun _ =>
          Reads.pure (files.filterMap (namespaceOf? root))
  intro progress
  obtain ⟨notices, done⟩ := reading progress
  refine ⟨notices, Eq.trans done ?_⟩
  simp only [readBelow]
  cases progress.workspace.isDirectory root with
  | true =>
      rfl
  | false =>
      rfl

theorem readBelow_eq_ok_iff {workspace : Workspace} :
    readBelow root workspace = .ok namespaces ↔
      workspace.isDirectory root = true ∧
        ∃ files, (workspace.walk root none).1 = .ok files ∧
          namespaces = files.filterMap (namespaceOf? root) := by
  rw [readBelow]
  cases workspace.isDirectory root with
  | false =>
      simp [throw, throwThe, MonadExceptOf.throw]
  | true =>
      simp only [if_true, true_and, bind_eq_ok_iff, mapError_eq_ok_iff, pure, Except.pure,
        Except.ok.injEq]
      constructor
      · rintro ⟨files, walked, same⟩
        exact ⟨files, walked, same.symm⟩
      · rintro ⟨files, walked, same⟩
        exact ⟨files, walked, same.symm⟩

theorem defined_detectedBelow {workspace : Workspace} (root : Path) :
    (workspace.detectedBelow root).map Definition.defined =
      (workspace.walkedFiles root).filterMap (namespaceOf? root) := by
  rw [Workspace.detectedBelow, List.map_filterMap]
  congr 1
  funext file
  simp [Function.comp_def]

/-- Detection gives the namespaces that the walks over the roots tell of. -/
theorem detected_of_mapM_readBelow
    {workspace : Workspace} {found : List (List Namespace)}
    (done : (roots.mapM fun root => readBelow root workspace) = .ok found) :
    (∀ root ∈ roots, workspace.isDirectory root = true) ∧
      found.flatten = (workspace.detected roots).map Definition.defined := by
  induction roots generalizing found with
  | nil =>
      cases done
      exact ⟨by simp, rfl⟩
  | cons root rest inductionHypothesis =>
      rw [List.mapM_cons, bind_eq_ok_iff] at done
      obtain ⟨first, below, behind⟩ := done
      obtain ⟨others, rest, last⟩ := bind_eq_ok_iff.1 behind
      cases last
      obtain ⟨directory, files, walked, rfl⟩ := readBelow_eq_ok_iff.1 below
      obtain ⟨directories, told⟩ := inductionHypothesis rest
      refine ⟨?_, ?_⟩
      · intro other member
        rcases List.mem_cons.1 member with rfl | inRest
        · exact directory
        · exact directories other inRest
      · have isWalk : workspace.walkedFiles root = files := by
          rw [Workspace.walkedFiles, walked]
        rw [List.flatten_cons, told, Workspace.detected, Workspace.detected, List.flatMap_cons,
          List.map_append, defined_detectedBelow, isWalk]

theorem reads_namespacesOfRoots (roots : List Path) :
    Reads (namespacesOfRoots roots) fun workspace => do
      return (← roots.mapM fun root => readBelow root workspace).flatten := by
  have reading :=
    (Reads.mapM reads_namespacesBelow roots).bind fun found => Reads.pure found.flatten
  exact reading

end Build

end ClojureBuild
