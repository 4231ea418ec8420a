import ClojureBuild.Proofs.Workspace.Copies
import ClojureBuild.Proofs.Workspace.LinkedDirectories
import ClojureBuild.Proofs.Workspace.Survey

/-!
# What lasts

Making directories and copying files take nothing away: what stood somewhere still does, a directory as
a directory, and no link leads elsewhere.  A path to a directory leads there still, unless it has lost a
link on the way to a file; and what a walk has found is found again where it is still a file.
-/

namespace ClojureBuild

namespace FileTree

variable {before between after : FileTree} {location place other : Location} {pieces : List String}

/-- What stood somewhere still does, as a directory if it was one, and what is a link there was the
same link. -/
def Lasts (before after : FileTree) : Prop :=
  ∀ location entry, before.find? location = some entry →
    ∃ later, after.find? location = some later ∧ later.isDirectory = entry.isDirectory ∧
      (later.isLink = true → later = entry)

namespace Lasts

theorem refl (tree : FileTree) : tree.Lasts tree :=
  fun _ entry found => ⟨entry, found, rfl, fun _ => rfl⟩

theorem trans (first : before.Lasts between) (second : between.Lasts after) :
    before.Lasts after := by
  intro location entry found
  obtain ⟨middle, foundMiddle, kind, linked⟩ := first location entry found
  obtain ⟨later, foundLater, laterKind, laterLinked⟩ := second location middle foundMiddle
  refine ⟨later, foundLater, laterKind.trans kind, ?_⟩
  intro isLink
  have same := laterLinked isLink
  rw [same] at isLink ⊢
  exact linked isLink

theorem holdsDirectory (lasts : before.Lasts after) (directory : before.HoldsDirectory location) :
    after.HoldsDirectory location := by
  obtain ⟨modified, found⟩ := directory
  obtain ⟨later, foundLater, kind, -⟩ := lasts location _ found
  rw [holdsDirectory_iff, foundLater]
  exact kind

/-- An entry has been put where there was none, or one of the same kind. -/
theorem set {entry : Entry} (noLink : entry.isLink = false)
    (replaces : ∀ held, before.find? place = some held → held.isDirectory = entry.isDirectory) :
    before.Lasts (before.set place entry) := by
  intro location held found
  by_cases same : location = place
  · rw [same] at found ⊢
    refine ⟨entry, find?_set_self _ _ _, (replaces held found).symm, ?_⟩
    intro isLink
    rw [noLink] at isLink
    cases isLink
  · exact ⟨held, by rw [find?_set_of_ne same, found], rfl, fun _ => rfl⟩

/-! ## Following pieces -/

/-- A file leads to no directory, whatever comes after it. -/
theorem not_holdsDirectory_of_file {tree : FileTree} {followLast : Bool}
    {onLink : Location → Path → List String → Resolution} (file : tree.HoldsFile location)
    (found : tree.followPieces followLast onLink location pieces = .found other) :
    ¬ tree.HoldsDirectory other := by
  cases pieces with
  | nil =>
      cases found
      exact file.not_holdsDirectory
  | cons piece rest =>
      rw [followPieces_cons_of_not_holdsDirectory file.not_holdsDirectory] at found
      cases found

/-- Pieces that led somewhere lead to no other directory. -/
theorem eq_of_followPieces {onLink onLinkLater : Location → Path → List String → Resolution}
    (lasts : before.Lasts after) (directory : after.HoldsDirectory other)
    (onward : ∀ location target rest, onLink location target rest = .found place →
      onLinkLater location target rest = .found other → other = place)
    (found : before.followPieces true onLink location pieces = .found place)
    (foundLater : after.followPieces true onLinkLater location pieces = .found other) :
    other = place := by
  induction pieces generalizing location with
  | nil =>
      cases found
      cases foundLater
      rfl
  | cons piece rest inductionHypothesis =>
      cases before.pieceReading location piece with
      | failed failure step =>
          rw [step] at found
          cases found
      | onward next isNext above step =>
          rw [step above] at found
          rw [step (lasts.holdsDirectory above)] at foundLater
          exact inductionHypothesis found foundLater
      | name solid short above step =>
          rw [step above] at found
          rw [step (lasts.holdsDirectory above)] at foundLater
          cases held : before.find? (location ++ [piece]) with
          | none =>
              rw [held] at found
              exact absurd found (resolveMissing_ne_found _ rest)
          | some entry =>
              obtain ⟨later, heldLater, kind, linked⟩ := lasts _ entry held
              rw [held] at found
              rw [heldLater] at foundLater
              cases later with
              | link target =>
                  have same := linked rfl
                  subst same
                  simp only [Bool.not_true, Bool.and_false, Bool.false_eq_true, if_false]
                    at found foundLater
                  exact onward location target rest found foundLater
              | directory modified =>
                  cases entry with
                  | directory earlier =>
                      exact inductionHypothesis found foundLater
                  | file content earlier mode =>
                      cases kind
                  | link target =>
                      cases kind
              | file content modified mode =>
                  cases entry with
                  | directory earlier =>
                      cases kind
                  | file earlierContent earlier earlierMode =>
                      exact inductionHypothesis found foundLater
                  | link target =>
                      have isFile : after.HoldsFile (location ++ [piece]) :=
                        ⟨content, modified, mode, heldLater⟩
                      exact absurd directory (not_holdsDirectory_of_file isFile foundLater)

theorem eq_of_followLinks {links : Nat} (lasts : before.Lasts after)
    (directory : after.HoldsDirectory other)
    (found : before.followLinks true links location pieces = .found place)
    (foundLater : after.followLinks true links location pieces = .found other) :
    other = place := by
  induction links generalizing location pieces with
  | zero =>
      apply lasts.eq_of_followPieces directory _ found foundLater
      intro location target rest failed
      cases failed
  | succ links inductionHypothesis =>
      apply lasts.eq_of_followPieces directory _ found foundLater
      intro location target rest foundThere foundThereLater
      exact inductionHypothesis foundThere foundThereLater

end Lasts

end FileTree

namespace Workspace

variable {start workspace before between after : Workspace} {path root : Path}
variable {location place : Location} {names : List String} {entry : Entry} {hindrances : Hindrances}

/-- The tree of a workspace lasts, and paths start where they did. -/
structure Lasting (before after : Workspace) : Prop where
  wellFormed : after.tree.WellFormed
  current : after.current = before.current
  lasts : before.tree.Lasts after.tree

namespace Lasting

theorem refl (wellFormed : workspace.tree.WellFormed) : Lasting workspace workspace :=
  ⟨wellFormed, rfl, FileTree.Lasts.refl workspace.tree⟩

theorem trans (first : Lasting before between) (second : Lasting between after) :
    Lasting before after where
  wellFormed := second.wellFormed
  current := second.current.trans first.current
  lasts := first.lasts.trans second.lasts

theorem eq_of_leadsToDirectory (lasting : Lasting before after)
    (found : before.status path = .ok (place, entry))
    (leads : after.LeadsToDirectory path location) : location = place := by
  obtain ⟨resolved, directory⟩ := leadsToDirectory_iff.1 leads
  have resolvedBefore := (look_eq_ok_iff_resolve.1 found).1
  have written := FileTree.written_of_resolve_found resolved
  rw [resolve_eq_followLinks written.1 written.2] at resolved resolvedBefore
  rw [lasting.current] at resolved
  exact lasting.lasts.eq_of_followLinks directory resolvedBefore resolved

/-- No file has become a directory. -/
theorem isDirectory_eq_false_of_isFile (lasting : Lasting before after)
    (file : before.isFile path = true) : after.isDirectory path = false := by
  rw [← Bool.not_eq_true, isDirectory_iff_leadsToDirectory]
  intro directory
  obtain ⟨location, leads⟩ := directory
  obtain ⟨place, content, modified, mode, found⟩ := (before.isFile_iff path).1 file
  have same := lasting.eq_of_leadsToDirectory found leads
  obtain ⟨later, foundLater, kind, -⟩ := lasting.lasts place _ (find?_of_status found)
  obtain ⟨changed, held⟩ := leads.holdsDirectory
  rw [same, foundLater] at held
  cases held
  cases kind

/-- A link in a directory was one before. -/
theorem isLink_join (lasting : Lasting before after) {name : String} (fileName : FileName name)
    (leads : before.LeadsToDirectory path location)
    (leadsLater : after.LeadsToDirectory path location)
    (held : before.tree.find? (location ++ [name]) = some entry)
    (isLink : after.isLink (path.join ⟨name⟩) = true) :
    before.isLink (path.join ⟨name⟩) = true := by
  obtain ⟨later, heldLater, -, linked⟩ := lasting.lasts _ entry held
  rw [Workspace.isLink, leadsLater.look_join fileName heldLater] at isLink
  rw [linked isLink] at isLink
  rw [Workspace.isLink, leads.look_join fileName held]
  exact isLink

/-- Where a walk has come to, a link leads back only if it did before. -/
theorem leadsBack (lasting : Lasting before after) (wellFormed : before.tree.WellFormed)
    (met : before.Meets none root names) (enters : before.Enters none root names place)
    (back : after.LeadsBack root names) : before.LeadsBack root names := by
  obtain ⟨isLink, location, leads, front, above⟩ := back
  obtain ⟨modified, found⟩ := enters.leads
  have same := lasting.eq_of_leadsToDirectory found leads
  obtain ⟨aboveLocation, entersAbove⟩ := met.enters_initial above.isInitial above.differs
  obtain ⟨changed, foundAbove⟩ := entersAbove.leads
  have sameAbove := lasting.eq_of_leadsToDirectory foundAbove above.leads
  have leadsAbove := entersAbove.leads
  rw [← sameAbove, same] at leadsAbove
  refine ⟨?_, place, enters.leads, front, above.isInitial, above.differs, leadsAbove⟩
  -- the link is the entry of the last name in a directory that the walk has gone into
  cases List.eq_nil_or_concat names with
  | inl empty =>
      rw [empty] at above
      exact absurd above not_liesAbove_nil
  | inr nonempty =>
      obtain ⟨outer, name, split⟩ := nonempty
      rw [List.concat_eq_append] at split
      rw [split, Path.below_concat] at leads isLink ⊢
      rw [split] at met
      obtain ⟨-, held, entersOuter, isName⟩ := meets_concat_iff.1 met
      obtain ⟨entry, foundEntry⟩ := FileTree.mem_names_iff.1 isName
      have fileName := wellFormed.named foundEntry
      obtain ⟨earlier, foundOuter⟩ := entersOuter.leads
      have written :=
        FileTree.written_of_resolve_found (look_eq_ok_iff_resolve.1 foundOuter).1
      obtain ⟨later, foundLater⟩ := leads
      obtain ⟨outerLater, leadsOuter, -⟩ :=
        exists_leadsToDirectory_of_status written.1 fileName.toPlainName foundLater
      rw [lasting.eq_of_leadsToDirectory foundOuter leadsOuter] at leadsOuter
      exact lasting.isLink_join fileName entersOuter.leads leadsOuter foundEntry isLink

/-- What a walk from a root has found it finds again, if it is still a file. -/
theorem finds (lasting : Lasting before after) (wellFormed : before.tree.WellFormed)
    (directory : before.isDirectory root = true) (finds : before.Finds none root names)
    (stillFile : after.isFile (root.below names) = true) : after.Finds none root names := by
  have met := ((finds_iff wellFormed directory).1 finds).1
  refine ⟨finds.nonempty, finds.plain, stillFile, ?_⟩
  intro initial nonempty isInitial
  refine ⟨rfl, ?_⟩
  intro back
  have differs : initial ≠ names := by
    intro whole
    rw [whole] at back
    obtain ⟨-, location, leads, -⟩ := back
    exact not_leadsToDirectory_of_isFile stillFile leads
  obtain ⟨place, enters⟩ := met.enters_initial isInitial differs
  have metInitial : before.Meets none root initial := by
    intro front name within
    exact met front name (within.trans isInitial)
  exact enters.onward (lasting.leadsBack wellFormed metInitial enters back)

/-! ## What keeps a tree as it is -/

/-- A tree that is the same lasts. -/
theorem of_tree_eq (wellFormed : before.tree.WellFormed) (sameTree : after.tree = before.tree)
    (current : after.current = before.current) : Lasting before after where
  wellFormed := sameTree ▸ wellFormed
  current := current
  lasts := sameTree ▸ FileTree.Lasts.refl before.tree

/-- An entry of the same kind has taken the place of what stood at a name in a directory, if anything
did. -/
theorem enter {name : String} (wellFormed : workspace.tree.WellFormed)
    (directory : workspace.tree.HoldsDirectory place) (fileName : FileName name)
    (noLink : entry.isLink = false)
    (replaces : ∀ held, workspace.tree.find? (place ++ [name]) = some held →
      held.isDirectory = entry.isDirectory) :
    Lasting workspace (workspace.enter (place ++ [name]) entry) where
  wellFormed := by
    apply wellFormed.set directory fileName
    intro replaced
    obtain ⟨modified, found⟩ := replaced
    exact (replaces _ found).symm
  current := rfl
  lasts := FileTree.Lasts.set noLink replaces

end Lasting

theorem lasting_of_makeDirectory (wellFormed : before.tree.WellFormed)
    (made : before.makeDirectory path = .ok after) : Lasting before after := by
  obtain ⟨-, location, resolved, rfl⟩ := makeDirectory_eq_ok_iff.1 made
  obtain ⟨directory, name, isPlace, holds, fileName, missing⟩ :=
    exists_directory_of_missing (Or.inl resolved)
  rw [isPlace] at missing ⊢
  have begun : Lasting before (before.tick.changedAt (directory ++ [name]) before.tick.clock) :=
    .of_tree_eq wellFormed rfl rfl
  refine begun.trans (Lasting.enter wellFormed holds fileName rfl ?_)
  intro held found
  have foundBefore : before.tree.find? (directory ++ [name]) = some held := found
  rw [missing] at foundBefore
  cases foundBefore

theorem lasting_makeDirectories (lasting : Lasting start workspace) (path : Path) :
    Lasting start (workspace.makeDirectories path).2 := by
  apply keeps_makeChain _ _ lasting
  intro before after path _ lastingBefore made
  exact lastingBefore.trans (lasting_of_makeDirectory lastingBefore.wellFormed made)

/-- A file takes the place of no directory. -/
theorem exists_directory_of_placeFor (wellFormed : workspace.tree.WellFormed)
    (placed : workspace.placeFor path = .ok place) :
    ∃ directory name, place = directory ++ [name] ∧ workspace.tree.HoldsDirectory directory ∧
      FileName name ∧ ¬ workspace.tree.HoldsDirectory place := by
  obtain ⟨-, noDirectory, resolved⟩ := placeFor_eq_ok_iff.1 placed
  cases resolved with
  | inl found =>
      obtain ⟨entry, held⟩ :=
        Option.ne_none_iff_exists'.1 (FileTree.present_of_resolve wellFormed found.1)
      cases List.eq_nil_or_concat place with
      | inl top =>
          rw [top] at noDirectory
          exact absurd wellFormed.top noDirectory
      | inr nonempty =>
          obtain ⟨directory, name, split⟩ := nonempty
          rw [List.concat_eq_append] at split
          rw [split] at held
          exact ⟨directory, name, split, wellFormed.parent held, wellFormed.named held, noDirectory⟩
  | inr missing =>
      obtain ⟨directory, name, isPlace, holds, fileName, -⟩ := exists_directory_of_missing missing
      exact ⟨directory, name, isPlace, holds, fileName, noDirectory⟩

theorem lasting_written (wellFormed : workspace.tree.WellFormed)
    (placed : workspace.placeFor path = .ok place) (content : List UInt8) (mode : Nat) :
    Lasting workspace (workspace.written place content mode) := by
  obtain ⟨directory, name, isPlace, holds, fileName, noDirectory⟩ :=
    exists_directory_of_placeFor wellFormed placed
  rw [isPlace] at noDirectory ⊢
  have begun : Lasting workspace workspace.tick := .of_tree_eq wellFormed rfl rfl
  refine begun.trans (Lasting.enter wellFormed holds fileName rfl ?_)
  intro held found
  have foundBefore : workspace.tree.find? (directory ++ [name]) = some held := found
  rw [FileTree.holdsDirectory_iff, foundBefore] at noDirectory
  exact Bool.eq_false_iff.2 noDirectory

/-- Whatever comes of a copy, nothing is lost. -/
theorem lasting_copy (wellFormed : workspace.tree.WellFormed) (source destination : Path) :
    Lasting workspace (workspace.copy hindrances source destination).2 := by
  obtain undone | ⟨directory, place, content, mode, -, placed, isWritten⟩ :=
    copy_cases workspace hindrances source destination
  · exact .of_tree_eq wellFormed undone.tree_eq undone.current_eq
  · have begun : Lasting workspace (workspace.changing directory) := .of_tree_eq wellFormed rfl rfl
    have placedLater : (workspace.changing directory).placeFor destination = .ok place := placed
    rw [isWritten]
    exact begun.trans (lasting_written begun.wellFormed placedLater content mode)

end Workspace

end ClojureBuild
