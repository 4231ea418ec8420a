import ClojureBuild.Proofs.Workspace.Copies

/-!
# Advancing workspaces

A workspace advances when nothing in it is lost: what has been there stays or gives way to something
newer of the same kind.  It is filled at a place when what lies elsewhere is the same.
-/

namespace ClojureBuild.Workspace

variable {before between after workspace : Workspace} {place location : Location}
variable {names : List String} {entry : Entry} {instant : Instant} {path : Path}

/-- Nothing has been lost, and what is new is newer. -/
structure Advanced (before after : Workspace) : Prop extends Stamped before after where
  home : after.home = before.home
  grows : before.tree.Grows after.tree

namespace Advanced

theorem refl (plain : workspace.tree.Plain) : Advanced workspace workspace where
  toStamped := Stamped.refl plain
  home := rfl
  grows := FileTree.Grows.refl _

theorem trans (first : Advanced before between) (second : Advanced between after) :
    Advanced before after where
  toStamped := first.toStamped.trans second.toStamped
  home := second.home.trans first.home
  grows := first.grows.trans second.grows

/-- What a path leads to stays where it is, and its new state is of the same kind. -/
theorem status
    (plain : before.tree.Plain) (advanced : Advanced before after)
    (found : before.status path = .ok (location, entry)) :
    ∃ later, after.status path = .ok (location, later) ∧
      ((later = entry ∧
          after.lastModified location later = before.lastModified location entry) ∨
        before.clock.nanoseconds < (after.lastModified location later).nanoseconds) ∧
        later.isDirectory = entry.isDirectory ∧ later.isFile = entry.isFile := by
  rcases (status_eq_ok_iff plain).1 found with ⟨written, followed, held⟩
  have followedLater := advanced.grows.follow plain advanced.plain followed
  rw [← advanced.current] at followedLater
  have leads {later : Entry} (heldLater : after.tree.find? location = some later) :
      after.status path = .ok (location, later) :=
    (status_eq_ok_iff advanced.plain).2 ⟨written, followedLater, heldLater⟩
  have newer {later : Entry} (heldLater : after.tree.find? location = some later) :
      (later = entry ∧
          after.lastModified location later = before.lastModified location entry) ∨
        before.clock.nanoseconds < (after.lastModified location later).nanoseconds := by
    rcases advanced.stamped heldLater with ⟨same, sameTime⟩ | between
    · rw [held] at same
      cases same
      exact Or.inl ⟨rfl, sameTime⟩
    · exact Or.inr between.1
  cases entry with
  | directory modified =>
      rcases advanced.grows.directories ⟨modified, held⟩ with ⟨later, heldLater⟩
      exact ⟨_, leads heldLater, newer heldLater, rfl, rfl⟩
  | file content modified mode =>
      rcases advanced.grows.files ⟨content, modified, mode, held⟩ with ⟨_, _, _, heldLater⟩
      exact ⟨_, leads heldLater, newer heldLater, rfl, rfl⟩
  | link target =>
      exact absurd held (plain.linkless location target)

theorem leadsToDirectory
    (plain : before.tree.Plain) (advanced : Advanced before after)
    (leads : before.LeadsToDirectory path location) : after.LeadsToDirectory path location :=
  leadsToDirectory_of_grows plain advanced.plain advanced.grows advanced.current leads

theorem isPresent
    (plain : before.tree.Plain) (advanced : Advanced before after)
    (present : before.isPresent path = true) : after.isPresent path = true := by
  rcases (isPresent_iff _ _).1 present with ⟨location, entry, found⟩
  rcases advanced.status plain found with ⟨later, foundAfter, -⟩
  exact (isPresent_iff _ _).2 ⟨location, later, foundAfter⟩

/-- What was not older than an instant of the past stays so. -/
theorem notOlder
    (plain : before.tree.Plain) (advanced : Advanced before after)
    (past : instant.nanoseconds ≤ before.clock.nanoseconds)
    (notOlder : before.NotOlder location instant) : after.NotOlder location instant := by
  rcases notOlder with ⟨entry, found, order⟩
  rcases advanced.grows.present plain found with ⟨later, held⟩
  refine ⟨later, held, ?_⟩
  rcases advanced.stamped held with ⟨same, sameTime⟩ | ⟨newer, -⟩
  · rw [found] at same
    cases same
    rwa [sameTime]
  · omega

end Advanced

/-! ## Filling a place -/

/-- Files and directories have been put at or below a location, none in place of a directory. -/
structure Filled (place : Location) (before after : Workspace) : Prop
    extends Advanced before after where
  outside : ∀ location, (∀ names, location ≠ place ++ names) →
    after.tree.find? location = before.tree.find? location

namespace Filled

theorem refl (plain : workspace.tree.Plain) (place : Location) :
    Filled place workspace workspace where
  toAdvanced := Advanced.refl plain
  outside := fun _ _ => rfl

theorem trans (first : Filled place before between) (second : Filled place between after) :
    Filled place before after where
  toAdvanced := first.toAdvanced.trans second.toAdvanced
  outside := fun location elsewhere =>
    (second.outside location elsewhere).trans (first.outside location elsewhere)

end Filled

theorem OnlyMade.advanced
    {places : Location → Prop} (only : OnlyMade places before after) : Advanced before after where
  toStamped := only.toStamped
  home := only.home
  grows := only.grows

theorem OnlyMade.filled
    {places : Location → Prop} (only : OnlyMade places before after)
    (below : ∀ location, places location → ∃ names, location = place ++ names) :
    Filled place before after where
  toAdvanced := only.advanced
  outside := by
    intro location elsewhere
    refine only.find?_eq fun inPlaces => ?_
    rcases below location inPlaces with ⟨names, same⟩
    exact elsewhere names same

theorem filled_written
    (plain : workspace.tree.Plain) (nonempty : names ≠ [])
    (fileNames : ∀ name ∈ names, FileName name)
    (directory : workspace.tree.HoldsDirectory (place ++ names).dropLast)
    (noDirectory : ¬ workspace.tree.HoldsDirectory (place ++ names))
    (content : List UInt8) (mode : Nat) :
    Filled place workspace (workspace.written (place ++ names) content mode) where
  toStamped := by
    apply stamped_written plain
    rcases (List.eq_nil_or_concat names).resolve_left nonempty with ⟨front, last, rfl⟩
    rw [List.concat_eq_append, ← List.append_assoc] at *
    rw [List.dropLast_concat] at directory
    exact plain_written plain directory (fileNames last (by simp)) noDirectory content mode
  home := rfl
  grows := FileTree.Grows.set_file noDirectory _ _ _
  outside := fun location elsewhere => FileTree.find?_set_of_ne (elsewhere names) _ _

/-- That a directory changes fills nothing. -/
theorem filled_changing (plain : workspace.tree.Plain) (place directory : Location) :
    Filled place workspace (workspace.changing directory).tick where
  toStamped := stamped_changing plain directory
  home := rfl
  grows := FileTree.Grows.refl _
  outside := fun _ _ => rfl

end ClojureBuild.Workspace
