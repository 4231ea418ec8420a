import ClojureBuild.Proofs.Workspace.Filled

/-!
# Layouts

A layout says where the sources and the target of a project are and which files are copied.  A
workspace is faithful to it when every copy that is not older than its source has the bytes of the
source.  Changes that stamp what they write and leave the copies alone keep a workspace faithful.
-/

namespace ClojureBuild

/-- Where a project is: the places of its sources, the place of its target, and which names lead
from a source to a file that is copied. -/
structure Layout where
  sources : List Location
  target : Location
  copies : List String → Bool

namespace Layout

variable {layout : Layout} {source other : Location} {names inner : List String}

/-- A source that lies neither at, below nor above the target. -/
structure Root (layout : Layout) (source : Location) : Prop where
  listed : source ∈ layout.sources
  notAbove : ¬ source <+: layout.target
  notBelow : ¬ layout.target <+: source

/-- Nothing below the target lies below a root. -/
theorem Root.differs (root : layout.Root source) (names inner : List String) :
    source ++ names ≠ layout.target ++ inner := by
  intro same
  have sourcePrefix : source <+: layout.target ++ inner := same ▸ List.prefix_append source names
  rcases List.prefix_or_prefix_of_prefix sourcePrefix (List.prefix_append layout.target inner) with
    above | below
  · exact root.notAbove above
  · exact root.notBelow below

/-- Names that lead from a root to where a file is copied. -/
structure Mirrors (layout : Layout) (source : Location) (names : List String) : Prop where
  root : layout.Root source
  nonempty : names ≠ []
  copied : layout.copies names = true

/-- No names that lead to a file below a root lead to anything below another one. -/
def Apart (layout : Layout) (tree : FileTree) : Prop :=
  ∀ source other, layout.Root source → layout.Root other → ∀ names, names ≠ [] →
    tree.HoldsFile (source ++ names) → tree.find? (other ++ names) ≠ none → source = other

/-- Below the roots there are the same files. -/
def SameFiles (layout : Layout) (before after : FileTree) : Prop :=
  ∀ source, layout.Root source → ∀ names content modified mode,
    after.find? (source ++ names) = some (.file content modified mode) ↔
      before.find? (source ++ names) = some (.file content modified mode)

namespace SameFiles

variable {before between after : FileTree}

theorem refl (layout : Layout) (tree : FileTree) : layout.SameFiles tree tree :=
  fun _ _ _ _ _ _ => Iff.rfl

theorem trans
    (first : layout.SameFiles before between) (second : layout.SameFiles between after) :
    layout.SameFiles before after :=
  fun source root names content modified mode =>
    (second source root names content modified mode).trans
      (first source root names content modified mode)

theorem holdsFile_iff (same : layout.SameFiles before after) (root : layout.Root source) :
    after.HoldsFile (source ++ names) ↔ before.HoldsFile (source ++ names) := by
  simp only [FileTree.HoldsFile, same source root]

end SameFiles

/-- Two files with names one of which is an initial part of the other are below the same root. -/
theorem Apart.eq_of_files
    {tree : FileTree} (apart : layout.Apart tree) (wellFormed : tree.WellFormed)
    (root : layout.Root source) (otherRoot : layout.Root other) (nonempty : names ≠ [])
    (file : tree.HoldsFile (source ++ names)) (longer : tree.HoldsFile (other ++ (names ++ inner))) :
    source = other := by
  obtain ⟨content, modified, mode, found⟩ := longer
  rw [← List.append_assoc] at found
  obtain ⟨above, held⟩ := wellFormed.present_of_append found
  exact apart source other root otherRoot names nonempty file (by simp [held])

end Layout

namespace Workspace

variable {before after workspace : Workspace} {layout : Layout} {source place : Location}
variable {names : List String} {instant : Instant}

theorem OnlyMade.sameFiles
    {places : Location → Prop} (only : OnlyMade places before after) (layout : Layout) :
    layout.SameFiles before.tree after.tree :=
  fun _ _ _ _ _ _ => only.find?_eq_file_iff

theorem Filled.sameFiles
    (filled : Filled layout.target before after) :
    layout.SameFiles before.tree after.tree := by
  intro source root names content modified mode
  rw [filled.outside _ (root.differs names)]

/-! ## Faithful workspaces -/

/-- The copy of a file below a source has its bytes. -/
def HasCopy (layout : Layout) (workspace : Workspace) (source : Location) (names : List String) :
    Prop :=
  ∃ content modified mode copied copyMode,
    workspace.tree.find? (source ++ names) = some (.file content modified mode) ∧
      workspace.tree.find? (layout.target ++ names) = some (.file content copied copyMode)

/-- Nothing below the target is of the future, and a copy that is not older than its source has the
bytes of the source. -/
structure Faithful (layout : Layout) (workspace : Workspace) : Prop where
  plain : workspace.tree.Plain
  past : ∀ {names entry}, names ≠ [] →
    workspace.tree.find? (layout.target ++ names) = some entry →
      (workspace.lastModified (layout.target ++ names) entry).nanoseconds ≤
        workspace.clock.nanoseconds
  faithful : ∀ {source names content modified mode}, layout.Mirrors source names →
    workspace.tree.find? (source ++ names) = some (.file content modified mode) →
      workspace.NotOlder (layout.target ++ names) modified →
        workspace.HasCopy layout source names

/-- A workspace whose target is empty is faithful. -/
theorem faithful_of_empty
    (plain : workspace.tree.Plain)
    (empty : ∀ names, names ≠ [] → workspace.tree.find? (layout.target ++ names) = none) :
    workspace.Faithful layout where
  plain := plain
  past := by
    intro names entry nonempty found
    rw [empty names nonempty] at found
    cases found
  faithful := by
    rintro source names content modified mode mirrors - ⟨entry, found, -⟩
    rw [empty names mirrors.nonempty] at found
    cases found

/-- A change that stamps what it writes and leaves the copies of the files there are afterwards
alone keeps a workspace faithful. -/
theorem Faithful.of_stamped
    (faithful : before.Faithful layout) (stamped : Stamped before after)
    (leftAlone : ∀ source names, layout.Mirrors source names →
      after.tree.HoldsFile (source ++ names) → LeftAlone before after (layout.target ++ names)) :
    after.Faithful layout where
  plain := stamped.plain
  past := by
    intro names entry nonempty found
    have clock := stamped.clock
    rcases stamped.stamped found with ⟨same, sameTime⟩ | ⟨-, bounded⟩
    · rw [sameTime]
      exact Int.le_trans (faithful.past nonempty same) clock
    · exact bounded
  faithful := by
    intro source names content modified mode mirrors found notOlder
    have kept := leftAlone source names mirrors ⟨content, modified, mode, found⟩
    rw [kept.notOlder_iff] at notOlder
    rcases stamped.stamped found with ⟨same, -⟩ | ⟨later, -⟩
    · obtain ⟨content', modified', mode', stamp, copyMode, isSource, isCopy⟩ :=
        faithful.faithful mirrors same notOlder
      rw [same] at isSource
      cases isSource
      exact ⟨content, modified, mode, stamp, copyMode, found, kept.entry.trans isCopy⟩
    · -- A source written just now is newer than everything below the target.
      obtain ⟨entry, copy, order⟩ := notOlder
      have bounded := faithful.past mirrors.nonempty copy
      have changed : before.clock.nanoseconds < modified.nanoseconds := later
      omega

/-! ## Writing a copy -/

section Writing

variable {content : List UInt8} {modified : Instant} {mode copyMode : Nat}
variable {other : Location} {inner : List String}

theorem find?_written_of_ne {location : Location} (differs : location ≠ place) :
    (before.written place content mode).tree.find? location = before.tree.find? location :=
  FileTree.find?_set_of_ne differs _ _

theorem sameFiles_written (layout : Layout) (before : Workspace) (names : List String)
    (content : List UInt8) (mode : Nat) :
    layout.SameFiles before.tree (before.written (layout.target ++ names) content mode).tree := by
  intro source root inner bytes stamp otherMode
  rw [find?_written_of_ne (root.differs inner names)]

theorem hasCopy_written
    (root : layout.Root source)
    (found : before.tree.find? (source ++ names) = some (.file content modified mode)) :
    (before.written (layout.target ++ names) content copyMode).HasCopy layout source names :=
  ⟨content, modified, mode, _, copyMode,
    (find?_written_of_ne (root.differs names names)).trans found, FileTree.find?_set_self _ _ _⟩

/-- Writing the copy of a file keeps all copies there are. -/
theorem HasCopy.written
    (copy : before.HasCopy layout other inner) (otherRoot : layout.Root other)
    (root : layout.Root source)
    (only : ∀ other, layout.Root other → before.tree.HoldsFile (other ++ names) → source = other)
    (found : before.tree.find? (source ++ names) = some (.file content modified mode)) :
    (before.written (layout.target ++ names) content copyMode).HasCopy layout other inner := by
  obtain ⟨bytes, stamp, otherMode, copied, otherCopyMode, isSource, isCopy⟩ := copy
  by_cases same : inner = names
  · subst same
    have sameRoot := only other otherRoot ⟨bytes, stamp, otherMode, isSource⟩
    subst sameRoot
    exact hasCopy_written root found
  · have differs : layout.target ++ inner ≠ layout.target ++ names :=
      fun equal => same (List.append_cancel_left equal)
    exact ⟨bytes, stamp, otherMode, copied, otherCopyMode,
      (find?_written_of_ne (otherRoot.differs inner names)).trans isSource,
      (find?_written_of_ne differs).trans isCopy⟩

/-- A directory that is not in the place of a copy may change in a faithful workspace. -/
theorem Faithful.changing
    (faithful : before.Faithful layout) {directory : Location}
    (clear : ∀ source names, layout.Mirrors source names → before.tree.HoldsFile (source ++ names) →
      layout.target ++ names ≠ directory) :
    (before.changing directory).tick.Faithful layout := by
  refine faithful.of_stamped (stamped_changing faithful.plain directory) ?_
  intro source names mirrors file
  exact ⟨rfl, lookup_changedAt.trans (if_neg (clear source names mirrors file))⟩

/-- Writing the copy of a file keeps a workspace faithful, if no other copy is to take the place of
the directory that it is in. -/
theorem Faithful.written
    (faithful : before.Faithful layout) (root : layout.Root source)
    (only : ∀ other, layout.Root other → before.tree.HoldsFile (other ++ names) → source = other)
    (clear : ∀ other inner, layout.Mirrors other inner → before.tree.HoldsFile (other ++ inner) →
      layout.target ++ inner ≠ (layout.target ++ names).dropLast)
    (found : before.tree.find? (source ++ names) = some (.file content modified mode))
    (plain : (before.written (layout.target ++ names) content copyMode).tree.Plain) :
    (before.written (layout.target ++ names) content copyMode).Faithful layout where
  plain := plain
  past := by
    intro inner entry nonempty held
    have stamped := stamped_written faithful.plain plain
    rcases stamped.stamped held with ⟨same, sameTime⟩ | ⟨-, bounded⟩
    · rw [sameTime]
      exact Int.le_trans (faithful.past nonempty same) stamped.clock
    · exact bounded
  faithful := by
    intro other inner bytes stamp otherMode mirrors held notOlder
    rw [find?_written_of_ne (mirrors.root.differs inner names)] at held
    by_cases same : inner = names
    · subst same
      have sameRoot := only other mirrors.root ⟨bytes, stamp, otherMode, held⟩
      subst sameRoot
      exact hasCopy_written root found
    · have differs : layout.target ++ inner ≠ layout.target ++ names :=
        fun equal => same (List.append_cancel_left equal)
      have notAbove := clear other inner mirrors ⟨bytes, stamp, otherMode, held⟩
      rw [(leftAlone_written differs notAbove content copyMode).notOlder_iff] at notOlder
      have copyBefore := faithful.faithful mirrors held notOlder
      exact copyBefore.written mirrors.root root only found

end Writing

end Workspace

end ClojureBuild
