import ClojureBuild.FileTree.Freshness
import ClojureBuild.Proofs.FileTree.Plain
import ClojureBuild.Proofs.Workspace.Lookup

/-!
# Times of modification

The last change of a directory is what counts, and it counts for directories only.  So an output is up
to date when something stands there that was not modified before the input, be it a directory in which
some other name has just changed.
-/

namespace ClojureBuild.Workspace

variable {workspace before after : Workspace} {path output input : Path}
variable {directory location : Location} {entry : Entry} {instant now : Instant}

/-! ## Changes -/

@[simp]
theorem lookup_changedAt :
    (workspace.changedAt directory now).changes.lookup location =
      if location = directory then some now else workspace.changes.lookup location := by
  have others :=
    FileTree.lookup_filter_key (fun key => decide (key ≠ directory)) workspace.changes location
  rw [changedAt]
  by_cases same : location = directory
  · simp [same]
  · have differs : (location == directory) = false := by
      simpa using same
    simp only [List.lookup_cons, differs, others]
    simp [same]

theorem changedAt_changedAt (workspace : Workspace) (directory : Location) (earlier now : Instant) :
    (workspace.changedAt directory earlier).changedAt directory now =
      workspace.changedAt directory now := by
  simp [changedAt, List.filter_filter]

theorem lastModified_changedAt :
    (workspace.changedAt directory now).lastModified location entry =
      if location = directory ∧ entry.isDirectory = true then now
      else workspace.lastModified location entry := by
  rw [lastModified, lastModified, lookup_changedAt]
  by_cases same : location = directory
  · cases entry.isDirectory <;> simp [same]
  · simp [same]

@[simp]
theorem lastModified_file (workspace : Workspace) (location : Location) (content : List UInt8)
    (modified : Instant) (mode : Nat) :
    workspace.lastModified location (.file content modified mode) = modified :=
  rfl

/-- A directory that has just been made has just changed, wherever another one has changed too. -/
theorem lastModified_of_made (made : Instant) :
    ((workspace.changedAt location now).changedAt directory now).lastModified location
      (.directory made) = now := by
  simp [lastModified_changedAt, Entry.isDirectory]

/-! ## Locations left alone -/

/-- Nothing has happened at a location: what stands there is the same, and has not changed. -/
structure LeftAlone (before after : Workspace) (location : Location) : Prop where
  entry : after.tree.find? location = before.tree.find? location
  change : after.changes.lookup location = before.changes.lookup location

namespace LeftAlone

theorem refl (workspace : Workspace) (location : Location) : LeftAlone workspace workspace location :=
  ⟨rfl, rfl⟩

theorem lastModified (leftAlone : LeftAlone before after location) (entry : Entry) :
    after.lastModified location entry = before.lastModified location entry := by
  rw [Workspace.lastModified, Workspace.lastModified, leftAlone.change]

end LeftAlone

/-! ## Freshness -/

/-- Something stands at a location that is not older than an instant. -/
def NotOlder (workspace : Workspace) (location : Location) (instant : Instant) : Prop :=
  ∃ entry,
    workspace.tree.find? location = some entry ∧
      instant.nanoseconds ≤ (workspace.lastModified location entry).nanoseconds

theorem LeftAlone.notOlder_iff (leftAlone : LeftAlone before after location) :
    after.NotOlder location instant ↔ before.NotOlder location instant := by
  simp only [NotOlder, leftAlone.entry, leftAlone.lastModified]

theorem modified?_eq_ok_some_iff (workspace : Workspace) (path : Path) (instant : Instant) :
    workspace.modified? path = .ok (some instant) ↔
      ∃ location entry, workspace.status path = .ok (location, entry) ∧
        workspace.lastModified location entry = instant := by
  unfold modified?
  cases looked : workspace.status path with
  | ok held =>
      obtain ⟨location, entry⟩ := held
      simp
  | error failure =>
      cases failure with
      | notFound =>
          simp
      | _ =>
          simp

theorem isFresh_of_modified? (known : workspace.modified? input = .ok (some instant))
    (output : Path) :
    workspace.isFresh output input = .ok true ↔
      ∃ written, workspace.modified? output = .ok (some written) ∧
        instant.nanoseconds ≤ written.nanoseconds := by
  unfold isFresh
  cases looked : workspace.modified? output with
  | error failure =>
      simp [bind, Except.bind]
  | ok found =>
      cases found with
      | none =>
          simp [bind, Except.bind, pure, Except.pure]
      | some written =>
          simp [bind, Except.bind, pure, Except.pure, known, Instant.atMost]

end ClojureBuild.Workspace
