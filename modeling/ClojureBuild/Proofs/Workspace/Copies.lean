import ClojureBuild.Proofs.Workspace.Destinations

/-!
# Fresh outputs and copies in plain workspaces

An output below a directory is up to date when something stands at its location that is not older
than the input.  A copy to there succeeds only where no directory stands, and then puts a file with
the bytes and the permissions of the source in that place, at the next instant.  Apart from that only
the directory that the file is in changes.
-/

namespace ClojureBuild.Workspace

variable {workspace after : Workspace} {path base source : Path} {place location : Location}
variable {names : List String} {last : String} {entry : Entry} {hindrances : Hindrances}

/-! ## Freshness -/

/-- An output below a directory is up to date when something not older stands there. -/
theorem isFresh_below_iff
    (plain : workspace.tree.Plain) (leads : workspace.LeadsToDirectory base place)
    (plainNames : ∀ name ∈ names, PlainName name)
    (found : workspace.status source = .ok (location, entry)) :
    workspace.isFresh (base.below names) source = .ok true ↔
      workspace.NotOlder (place ++ names) (workspace.lastModified location entry) := by
  have known : workspace.modified? source = .ok (some (workspace.lastModified location entry)) :=
    (modified?_eq_ok_some_iff _ _ _).2 ⟨location, entry, found, rfl⟩
  rw [isFresh_of_modified? known]
  simp only [modified?_eq_ok_some_iff, status_below_iff plain leads plainNames, NotOlder]
  constructor
  · rintro ⟨written, ⟨reached, output, ⟨rfl, held⟩, rfl⟩, order⟩
    exact ⟨output, held, order⟩
  · rintro ⟨output, held, order⟩
    exact ⟨_, ⟨_, output, ⟨rfl, held⟩, rfl⟩, order⟩

/-! ## Copies -/

/-- A copy that succeeds is written where its destination says. -/
theorem of_copy {destination : Path}
    (copied : workspace.copy hindrances source destination = (.ok (), after)) :
    ∃ directory location place content modified mode,
      workspace.WorksIn destination directory ∧
        workspace.status source = .ok (location, .file content modified mode) ∧
          workspace.placeFor destination = .ok place ∧
            after = (workspace.changing directory).written place content mode := by
  obtain ⟨directory, location, content, modified, mode, place, works, found, placed, isWritten, -⟩ :=
    of_copyThrough copied
  exact ⟨directory, location, place, content, modified, mode, works, found, placed, isWritten⟩

/-- A copy that fails has left nothing behind, or its file stands where its destination says, without
the permissions of its source. -/
theorem of_copy_eq_error {destination : Path} {failure : FileFailure}
    (failed : workspace.copy hindrances source destination = (.error failure, after)) :
    workspace.Undone destination after ∨
      ∃ directory location place content modified mode,
        workspace.WorksIn destination directory ∧
          workspace.status source = .ok (location, .file content modified mode) ∧
            workspace.placeFor destination = .ok place ∧
              after = (workspace.changing directory).written place content temporaryMode := by
  cases of_copyThrough_eq_error failed with
  | inl undone =>
      exact Or.inl undone
  | inr replaced =>
      obtain ⟨mode, -, isReplaced, -⟩ := replaced
      obtain ⟨-, directory, location, content, modified, place, works, found, placed, isWritten⟩ :=
        takesPlace_of_replace isReplaced
      exact Or.inr
        ⟨directory, location, place, content, modified, mode, works, found, placed, isWritten⟩

/-- Whatever comes of a copy, it has left nothing behind, or a file stands where its destination
says. -/
theorem copy_cases (workspace : Workspace) (hindrances : Hindrances) (source destination : Path) :
    workspace.Undone destination (workspace.copy hindrances source destination).2 ∨
      ∃ directory place content mode, workspace.WorksIn destination directory ∧
        workspace.placeFor destination = .ok place ∧
          (workspace.copy hindrances source destination).2 =
            (workspace.changing directory).written place content mode := by
  cases copied : workspace.copy hindrances source destination with
  | mk outcome after =>
      cases outcome with
      | ok _ =>
          obtain ⟨directory, -, place, content, -, mode, works, -, placed, isWritten⟩ :=
            of_copy copied
          exact Or.inr ⟨directory, place, content, mode, works, placed, isWritten⟩
      | error failure =>
          refine (of_copy_eq_error copied).imp_right ?_
          rintro ⟨directory, -, place, content, -, -, works, -, placed, isWritten⟩
          exact ⟨directory, place, content, temporaryMode, works, placed, isWritten⟩

/-- A copy to a destination is written in the directory of the destination, and in place of none. -/
theorem written_below
    (plain : workspace.tree.Plain) (leads : workspace.LeadsToDirectory base place)
    (nonempty : names ≠ []) (plainNames : ∀ name ∈ names, PlainName name)
    {directory taken : Location} (works : workspace.WorksIn (base.below names) directory)
    (placed : workspace.placeFor (base.below names) = .ok taken) (content : List UInt8)
    (mode : Nat) :
    workspace.tree.HoldsDirectory (place ++ names).dropLast ∧
      ¬ workspace.tree.HoldsDirectory (place ++ names) ∧
        (workspace.changing directory).written taken content mode =
          workspace.written (place ++ names) content mode := by
  have opens := ((leadsToDirectory_iff_opens plain).1 leads).2
  obtain ⟨other, otherwise, rfl, holds, noDirectory, -⟩ :=
    of_placeFor_below plain nonempty plainNames placed
  obtain rfl := opens.unique otherwise
  rw [eq_of_worksIn_below plain nonempty plainNames opens works, written_changing]
  exact ⟨holds, noDirectory, rfl⟩

/-- A copy that succeeds takes the place of what was no directory. -/
theorem of_copy_below
    (plain : workspace.tree.Plain) (leads : workspace.LeadsToDirectory base place)
    (nonempty : names ≠ []) (plainNames : ∀ name ∈ names, PlainName name)
    (found : workspace.status source = .ok (location, entry))
    (copied : workspace.copy hindrances source (base.below names) = (.ok (), after)) :
    ∃ content modified mode,
      entry = .file content modified mode ∧
        workspace.tree.HoldsDirectory (place ++ names).dropLast ∧
          ¬ workspace.tree.HoldsDirectory (place ++ names) ∧
            after = workspace.written (place ++ names) content mode := by
  obtain ⟨above, isLocation, taken, content, modified, mode, works, isFile, placed, rfl⟩ :=
    of_copy copied
  obtain ⟨rfl, rfl⟩ := Prod.mk.inj (Except.ok.inj (found.symm.trans isFile))
  exact ⟨content, modified, mode, rfl,
    written_below plain leads nonempty plainNames works placed content mode⟩

/-- A copy that fails has changed nothing but its directory, or it has taken the place of what was no
directory. -/
theorem of_copy_below_eq_error
    (plain : workspace.tree.Plain) (leads : workspace.LeadsToDirectory base place)
    (nonempty : names ≠ []) (plainNames : ∀ name ∈ names, PlainName name)
    (found : workspace.status source = .ok (location, entry)) {failure : FileFailure}
    (failed : workspace.copy hindrances source (base.below names) = (.error failure, after)) :
    after = workspace ∨ after = (workspace.changing (place ++ names).dropLast).tick ∨
      ∃ content modified mode,
        entry = .file content modified mode ∧
          workspace.tree.HoldsDirectory (place ++ names).dropLast ∧
            ¬ workspace.tree.HoldsDirectory (place ++ names) ∧
              after = workspace.written (place ++ names) content temporaryMode := by
  obtain (same | ⟨above, works, rfl⟩) | ⟨above, isLocation, taken, content, modified, mode, works,
    isFile, placed, rfl⟩ := of_copy_eq_error failed
  · exact Or.inl same
  · have opens := ((leadsToDirectory_iff_opens plain).1 leads).2
    rw [eq_of_worksIn_below plain nonempty plainNames opens works]
    exact Or.inr (Or.inl rfl)
  · obtain ⟨rfl, rfl⟩ := Prod.mk.inj (Except.ok.inj (found.symm.trans isFile))
    exact Or.inr (Or.inr ⟨content, modified, mode, rfl,
      written_below plain leads nonempty plainNames works placed content temporaryMode⟩)

/-! ## Written files -/

theorem plain_written
    (plain : workspace.tree.Plain) {directory : Location}
    (holds : workspace.tree.HoldsDirectory directory) (fileName : FileName last)
    (noDirectory : ¬ workspace.tree.HoldsDirectory (directory ++ [last]))
    (content : List UInt8) (mode : Nat) :
    (workspace.written (directory ++ [last]) content mode).tree.Plain :=
  plain.set holds fileName rfl fun isDirectory => absurd isDirectory noDirectory

/-- A directory that changes carries the time of its change. -/
theorem stamped_changing (plain : workspace.tree.Plain) (directory : Location) :
    Stamped workspace (workspace.changing directory).tick :=
  (Stamped.refl plain).tick.changedAt between_tick directory

/-- A file that is written carries the time when it is, and so does its directory. -/
theorem stamped_written (plain : workspace.tree.Plain) {content : List UInt8} {mode : Nat}
    (afterPlain : (workspace.written location content mode).tree.Plain) :
    Stamped workspace (workspace.written location content mode) :=
  (stamped_changing plain location.dropLast).put afterPlain between_tick

/-- Writing a file leaves all other locations alone but its directory. -/
theorem leftAlone_written {other : Location} (differs : other ≠ location)
    (notAbove : other ≠ location.dropLast) (content : List UInt8) (mode : Nat) :
    LeftAlone workspace (workspace.written location content mode) other where
  entry := FileTree.find?_set_of_ne differs _ _
  change := lookup_changedAt.trans (if_neg notAbove)

end ClojureBuild.Workspace
