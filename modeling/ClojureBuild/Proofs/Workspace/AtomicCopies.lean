import ClojureBuild.FileTree.Copy
import ClojureBuild.Proofs.Build.Results
import ClojureBuild.Proofs.FileTree.PutFile
import ClojureBuild.Proofs.Path.Steps
import ClojureBuild.Proofs.Workspace.Times

/-!
# Atomic copies

A copy fills a temporary file and moves it to the destination.  Whatever step of this is refused, the
temporary file is thrown away and the tree is the one from before; all that may tell of it is when the
directory of the temporary file has changed.  After the move only the permissions are left to be set,
and the destination leads to nothing else than the file that has been moved there.
-/

namespace ClojureBuild

namespace FileTree

variable {tree : FileTree} {place : Location} {entry other : Entry}

theorem erase_eq_self (missing : tree.find? place = none) : tree.erase place = tree := by
  rw [find?, List.lookup_eq_none_iff] at missing
  apply congrArg FileTree.mk
  rw [List.filter_eq_self]
  intro held member
  have differs := missing held member
  rw [bne_iff_ne] at differs
  exact decide_eq_true differs.symm

theorem erase_set : (tree.set place entry).erase place = tree.erase place := by
  simp [set, erase]

theorem set_set : (tree.set place entry).set place other = tree.set place other := by
  rw [set, erase_set, set]

end FileTree

namespace Workspace

variable {workspace after replaced : Workspace} {path source destination directory : Path}
variable {place location : Location} {content : List UInt8} {mode : Nat} {entry opened : Entry}
variable {hindrance : Hindrance} {name : String} {failure : SystemFailure}

/-! ## Where a copy goes -/

/-- A missing name that a path ends in is one that an entry of its directory could have. -/
theorem exists_directory_of_missing
    (missing : workspace.resolveName path = .absent place ∨
      workspace.resolveName path = .absentDirectory place) :
    ∃ directory name, place = directory ++ [name] ∧ workspace.tree.HoldsDirectory directory ∧
      FileName name ∧ workspace.tree.find? place = none := by
  rw [resolveName, resolve] at missing
  cases FileTree.pathReading workspace.current path.withoutTrailingSlashes with
  | refused failure step =>
      simp [step] at missing
  | followed written noZero step =>
      rw [step] at missing
      obtain ⟨directory, name, isLast, isPlace, holds, isMissing, solid, short⟩ :=
        FileTree.of_followLinks_missing
          (fun _ nonempty => path.body_withoutTrailingSlashes_ne nonempty) missing
      have fileName := FileName.of_mem_body (List.mem_of_getLast? isLast) noZero solid short
      exact ⟨directory, name, isPlace, holds, fileName, isMissing⟩

theorem not_holdsDirectory_of_missing
    (missing : workspace.resolveName path = .absent place ∨
      workspace.resolveName path = .absentDirectory place) :
    ¬ workspace.tree.HoldsDirectory place := by
  obtain ⟨-, -, -, -, -, absent⟩ := exists_directory_of_missing missing
  intro holds
  obtain ⟨modified, found⟩ := holds
  rw [absent] at found
  cases found

/-- A file can be moved to where nothing stands, unless a slash ends the path. -/
theorem placeFor_eq_ok_iff_of_missing
    (missing : workspace.resolveName path = .absent location ∨
      workspace.resolveName path = .absentDirectory location) :
    workspace.placeFor path = .ok place ↔
      path.endsInSlash = false ∧ ¬ workspace.tree.HoldsDirectory place ∧ location = place := by
  have noDirectory := not_holdsDirectory_of_missing missing
  have checked :
      workspace.placeFor path =
        if path.endsInSlash then .error .notDirectory else .ok location := by
    cases missing with
    | inl absent =>
        rw [placeFor, absent]
    | inr absent =>
        rw [placeFor, absent]
  rw [checked]
  cases path.endsInSlash with
  | true =>
      simp
  | false =>
      by_cases same : location = place
      · simp [← same, noDirectory]
      · simp [same]

/-- A file can be moved to where no directory stands, unless dots or a slash end the path. -/
theorem placeFor_eq_ok_iff :
    workspace.placeFor path = .ok place ↔
      path.endsInSlash = false ∧ ¬ workspace.tree.HoldsDirectory place ∧
        ((workspace.resolveName path = .found place ∧ endsInDots path = false) ∨
          workspace.resolveName path = .absent place ∨
            workspace.resolveName path = .absentDirectory place) := by
  cases resolved : workspace.resolveName path with
  | found found =>
      rw [FileTree.holdsDirectory_iff, placeFor, resolved]
      cases endsInDots path with
      | true =>
          simp
      | false =>
          cases path.endsInSlash with
          | true =>
              simp
          | false =>
              by_cases same : found = place
              · simp [← same]
              · by_cases isDirectory : (workspace.tree.find? found).any Entry.isDirectory = true
                · simp [same, isDirectory]
                · simp [same, isDirectory]
  | absent missing =>
      rw [placeFor_eq_ok_iff_of_missing (Or.inl resolved)]
      simp
  | absentDirectory missing =>
      rw [placeFor_eq_ok_iff_of_missing (Or.inr resolved)]
      simp
  | failed failure =>
      simp [placeFor, resolved]

/-- What a file takes the place of is what the path itself leads to. -/
theorem names_of_placeFor (placed : workspace.placeFor path = .ok place) :
    (workspace.resolve false path).Names place := by
  obtain ⟨plainEnd, -, resolved⟩ := placeFor_eq_ok_iff.1 placed
  rw [resolveName, Path.withoutTrailingSlashes_eq_self plainEnd] at resolved
  exact resolved.imp_left And.left

/-- What a file takes the place of is no directory. -/
theorem eq_of_look_of_placeFor (placed : workspace.placeFor path = .ok location)
    (looked : workspace.look false path = .ok (place, entry)) :
    place = location ∧ entry.isDirectory = false := by
  obtain ⟨resolved, isEntry⟩ := look_eq_ok_iff_resolve.1 looked
  have names := names_of_placeFor placed
  rw [resolved] at names
  simp only [Resolution.Names, Resolution.found.injEq, reduceCtorEq, or_false] at names
  have noDirectory := (placeFor_eq_ok_iff.1 placed).2.1
  rw [← names, FileTree.holdsDirectory_iff, isEntry] at noDirectory
  exact ⟨names, Bool.eq_false_iff.2 noDirectory⟩

/-! ## What a copy writes -/

/-- The workspace after a file has been written at the next instant. -/
def written (workspace : Workspace) (location : Location) (content : List UInt8) (mode : Nat) :
    Workspace :=
  workspace.tick.enter location (.file content workspace.tick.clock mode)

/-- The workspace in which a directory is to change at the next instant. -/
def changing (workspace : Workspace) (directory : Location) : Workspace :=
  workspace.changedAt directory workspace.tick.clock

/-- That a file is written changes its directory anyway. -/
theorem written_changing (workspace : Workspace) (content : List UInt8) (mode : Nat) :
    (workspace.changing place.dropLast).written place content mode =
      workspace.written place content mode := by
  have sameChange :=
    changedAt_changedAt workspace.tick place.dropLast workspace.tick.clock workspace.tick.clock
  exact congrArg (put · place (.file content workspace.tick.clock mode)) sameChange

theorem putsFile_written (missing : workspace.tree.find? place = none) (content : List UInt8) :
    FileTree.PutsFile place workspace.tree (workspace.written place content mode).tree := by
  apply FileTree.PutsFile.set
  rw [FileTree.holdsDirectory_iff, missing]
  exact Bool.false_ne_true

/-- A temporary file is made and then written. -/
theorem withContent_withTemporary :
    (workspace.withTemporary place).withContent place content =
      workspace.written place content temporaryMode := by
  simp only [withTemporary, withContent, written, enter, put, FileTree.set_set]
  rfl

/-- Without its temporary file a workspace is what it was, but that its directory has changed. -/
theorem discard_written (missing : workspace.tree.find? place = none) :
    (workspace.written place content mode).discard place =
      (workspace.changing place.dropLast).tick := by
  simp [written, enter, put, discard, changing, changedAt, tick, FileTree.erase_set,
    FileTree.erase_eq_self missing, List.filter_filter]

/-- A temporary file does not lead a copy elsewhere. -/
theorem placeFor_of_written (missing : workspace.tree.find? place = none)
    (placed : (workspace.written place content mode).placeFor path = .ok location) :
    workspace.placeFor path = .ok location := by
  have puts : FileTree.PutsFile place workspace.tree (workspace.written place content mode).tree :=
    putsFile_written missing content
  obtain ⟨plainEnd, noDirectory, resolved⟩ := placeFor_eq_ok_iff.1 placed
  rw [puts.holdsDirectory_iff] at noDirectory
  refine placeFor_eq_ok_iff.2 ⟨plainEnd, noDirectory, ?_⟩
  have gains : Resolution.Gains place (workspace.resolveName path)
      ((workspace.written place content mode).resolveName path) :=
    puts.gains_resolve missing
  obtain same | ⟨absent, found⟩ | ⟨failure, failed⟩ := gains
  · rwa [same] at resolved
  · rw [found] at resolved
    simp only [Resolution.found.injEq, reduceCtorEq, or_false] at resolved
    rw [← resolved.1]
    exact Or.inr (Or.inl absent)
  · simp [failed] at resolved

/-- After a file has been moved to it, a destination leads to this file or, whatever it holds, to
none. -/
theorem allFind_written (placed : workspace.placeFor path = .ok location) :
    Resolution.AllFind location fun written : List UInt8 × Nat × Bool =>
      (workspace.written location written.1 written.2.1).resolve written.2.2 path := by
  apply FileTree.PutsFile.allFind_resolve _ (names_of_placeFor placed)
  intro written
  exact FileTree.PutsFile.set (placeFor_eq_ok_iff.1 placed).2.1

/-! ## The steps of a copy -/

theorem pass_eq_ok_iff {step : CopyStep} :
    hindrance.pass step = .ok () ↔ hindrance.refusal? step = none := by
  rw [Hindrance.pass]
  cases hindrance.refusal? step with
  | none =>
      simp
  | some failure =>
      simp

theorem openSource_eq_ok_iff :
    workspace.openSource hindrance source = .ok opened ↔
      hindrance.refusal? .openSource = none ∧ hindrance.refusal? .readPermissions = none ∧
        ∃ held, workspace.status source = .ok (held, opened) := by
  simp only [openSource, Build.bind_eq_ok_iff]
  constructor
  · intro done
    obtain ⟨_, opens, ⟨held, entry⟩, found, _, reads, last⟩ := done
    cases last
    exact ⟨pass_eq_ok_iff.1 opens, pass_eq_ok_iff.1 reads, held, found⟩
  · intro done
    obtain ⟨opens, reads, held, found⟩ := done
    exact ⟨(), pass_eq_ok_iff.2 opens, (held, opened), found, (), pass_eq_ok_iff.2 reads, rfl⟩

/-- A temporary file is made where nothing stands, in the directory that a path leads to. -/
theorem of_placeForTemporary
    (placed : workspace.placeForTemporary hindrance directory name = .ok place) :
    hindrance.refusal? .makeTemporary = none ∧
      workspace.LeadsToDirectory directory place.dropLast ∧ workspace.tree.find? place = none := by
  simp only [placeForTemporary, Build.bind_eq_ok_iff] at placed
  obtain ⟨_, makes, ⟨above, entry⟩, found, settled⟩ := placed
  refine ⟨pass_eq_ok_iff.1 makes, ?_⟩
  cases entry with
  | directory modified =>
      dsimp only at settled
      split at settled
      · cases settled
      · next free =>
          cases settled
          rw [List.dropLast_concat]
          exact ⟨⟨modified, found⟩, Option.not_isSome_iff_eq_none.1 free⟩
  | file content modified mode =>
      cases settled
  | link target =>
      cases settled

theorem of_moveTemporary (moved : workspace.moveTemporary hindrance place path = .ok after) :
    hindrance.refusal? .flush = none ∧ hindrance.refusal? .move = none ∧
      ∃ location entry, workspace.placeFor path = .ok location ∧
        workspace.tree.find? place = some entry ∧
          after = (workspace.discard place).enter location entry := by
  simp only [moveTemporary, Build.bind_eq_ok_iff] at moved
  obtain ⟨_, flushes, _, moves, location, placed, last⟩ := moved
  refine ⟨pass_eq_ok_iff.1 flushes, pass_eq_ok_iff.1 moves, ?_⟩
  split at last
  · next entry found =>
      cases last
      exact ⟨location, entry, placed, found, rfl⟩
  · cases last

/-- What is left of a temporary file that has been filled and moved. -/
theorem of_fillAndMove (missing : workspace.tree.find? place = none)
    (done : workspace.fillAndMove hindrance place opened path = (.ok mode, after)) :
    (hindrance.refusal? .write = none ∧ hindrance.refusal? .flush = none ∧
      hindrance.refusal? .move = none) ∧
      ∃ content modified location, opened = .file content modified mode ∧
        workspace.placeFor path = .ok location ∧
          after =
            (workspace.changing place.dropLast).written location content temporaryMode := by
  unfold fillAndMove fill at done
  cases opened with
  | file content modified sourceMode =>
      dsimp only at done
      cases writes : hindrance.pass .write with
      | error failure =>
          simp only [writes, Prod.mk.injEq, reduceCtorEq, false_and] at done
      | ok _ =>
          simp only [writes, withContent_withTemporary] at done
          split at done
          · cases done
          · next moved isMoved =>
              cases done
              obtain ⟨flushes, moves, location, entry, placed, found, rfl⟩ :=
                of_moveTemporary isMoved
              have isFile :
                  (workspace.written place content temporaryMode).tree.find? place =
                    some (.file content workspace.tick.clock temporaryMode) :=
                FileTree.find?_set_self _ _ _
              rw [isFile] at found
              cases found
              refine ⟨⟨pass_eq_ok_iff.1 writes, flushes, moves⟩, content, modified, location, rfl,
                placeFor_of_written missing placed, ?_⟩
              rw [discard_written missing]
              rfl
  | directory modified =>
      cases done
  | link target =>
      cases done

/-- A temporary file that cannot be filled and moved leaves nothing behind. -/
theorem eq_of_fillAndMove_eq_error (missing : workspace.tree.find? place = none)
    (failed : workspace.fillAndMove hindrance place opened path = (.error failure, after)) :
    after = (workspace.changing place.dropLast).tick := by
  unfold fillAndMove fill at failed
  cases opened with
  | file content modified sourceMode =>
      dsimp only at failed
      cases writes : hindrance.pass .write with
      | error refused =>
          simp only [writes, withContent_withTemporary] at failed
          cases failed
          exact discard_written missing
      | ok _ =>
          simp only [writes, withContent_withTemporary] at failed
          split at failed
          · cases failed
            exact discard_written missing
          · cases failed
  | directory modified =>
      cases failed
      exact discard_written missing
  | link target =>
      cases failed
      exact discard_written missing

/-! ## Putting a file in the place of another -/

/-- A copy to a destination makes its temporary file in a directory. -/
def WorksIn (workspace : Workspace) (destination : Path) (directory : Location) : Prop :=
  ∃ parent, destination.parent? = some parent ∧
    workspace.LeadsToDirectory (workspace.temporaryDirectory parent) directory

/-- A copy to a destination has left nothing behind.  If it has got as far as making its temporary
file, the directory of the file has changed. -/
def Undone (workspace : Workspace) (destination : Path) (after : Workspace) : Prop :=
  after = workspace ∨
    ∃ directory, workspace.WorksIn destination directory ∧
      after = (workspace.changing directory).tick

theorem Undone.tree_eq (undone : workspace.Undone destination after) :
    after.tree = workspace.tree := by
  obtain rfl | ⟨directory, -, rfl⟩ := undone
  · rfl
  · rfl

theorem Undone.current_eq (undone : workspace.Undone destination after) :
    after.current = workspace.current := by
  obtain rfl | ⟨directory, -, rfl⟩ := undone
  · rfl
  · rfl

/-- A file has taken the place that a destination names. -/
structure TakesPlace (workspace : Workspace) (hindrance : Hindrance) (source destination : Path)
    (mode : Nat) (replaced : Workspace) : Prop where
  unrefused : ∀ step, step ≠ .setPermissions → hindrance.refusal? step = none
  moved : ∃ directory held content modified location,
    workspace.WorksIn destination directory ∧
      workspace.status source = .ok (held, .file content modified mode) ∧
        workspace.placeFor destination = .ok location ∧
          replaced = (workspace.changing directory).written location content temporaryMode

theorem takesPlace_of_replace
    (done : workspace.replace hindrance name source destination = (.ok mode, replaced)) :
    TakesPlace workspace hindrance source destination mode replaced := by
  unfold replace at done
  cases isParent : destination.parent? with
  | none =>
      simp [isParent] at done
  | some parent =>
      cases opens : workspace.openSource hindrance source with
      | error failure =>
          simp [isParent, opens] at done
      | ok opened =>
          cases placed : workspace.placeForTemporary hindrance
              (workspace.temporaryDirectory parent) name with
          | error failure =>
              simp [isParent, opens, placed] at done
          | ok place =>
              simp only [isParent, opens, placed, Prod.mk.injEq, Build.mapError_eq_ok_iff] at done
              obtain ⟨makes, leads, missing⟩ := of_placeForTemporary placed
              obtain ⟨isOpen, reads, held, found⟩ := openSource_eq_ok_iff.1 opens
              obtain ⟨⟨writes, flushes, moves⟩, content, modified, location, rfl, isPlace, rfl⟩ :=
                of_fillAndMove missing (Prod.ext done.1 done.2)
              refine ⟨?_, place.dropLast, held, content, modified, location,
                ⟨parent, isParent, leads⟩, found, isPlace, rfl⟩
              intro step early
              cases step <;> first | assumption | exact absurd rfl early

theorem undone_of_replace_eq_error {failure : FileFailure}
    (failed : workspace.replace hindrance name source destination = (.error failure, after)) :
    workspace.Undone destination after := by
  unfold replace at failed
  split at failed
  · cases failed
    exact Or.inl rfl
  · next parent isParent =>
      split at failed
      · cases failed
        exact Or.inl rfl
      · dsimp only at failed
        split at failed
        · cases failed
          exact Or.inl rfl
        · next place placed =>
            simp only [Prod.mk.injEq, Build.mapError_eq_error_iff] at failed
            obtain ⟨⟨reason, -, isReason⟩, rfl⟩ := failed
            obtain ⟨-, leads, missing⟩ := of_placeForTemporary placed
            exact Or.inr ⟨place.dropLast, ⟨parent, isParent, leads⟩,
              eq_of_fillAndMove_eq_error missing (Prod.ext isReason rfl)⟩

/-! ## Whole copies -/

theorem of_setMode (done : workspace.setMode hindrance path mode = .ok after) :
    ∃ location entry, workspace.status path = .ok (location, entry) ∧
      after = workspace.put location (entry.withMode mode) := by
  simp only [setMode, Build.bind_eq_ok_iff] at done
  obtain ⟨-, -, ⟨location, entry⟩, found, last⟩ := done
  cases last
  exact ⟨location, entry, found, rfl⟩

/-- A copy that succeeds has written a file at the location that its destination named, and the
destination leads to it. -/
theorem of_copyThrough
    (done : workspace.copyThrough hindrance name source destination = (.ok (), after)) :
    ∃ directory held content modified mode location,
      workspace.WorksIn destination directory ∧
        workspace.status source = .ok (held, .file content modified mode) ∧
          workspace.placeFor destination = .ok location ∧
            after = (workspace.changing directory).written location content mode ∧
              ∀ followLast, after.resolve followLast destination = .found location := by
  unfold copyThrough at done
  split at done
  · cases done
  · next mode replaced isReplaced =>
      split at done
      · cases done
      · next changed isChanged =>
          cases done
          obtain ⟨-, directory, held, content, modified, location, works, found, placed, rfl⟩ :=
            takesPlace_of_replace isReplaced
          obtain ⟨reached, entry, looked, rfl⟩ := of_setMode isChanged
          obtain ⟨resolved, isEntry⟩ := look_eq_ok_iff_resolve.1 looked
          have placedLater : (workspace.changing directory).placeFor destination = .ok location :=
            placed
          cases allFind_written placedLater with
          | inr failed =>
              obtain ⟨failure, fails⟩ := failed
              have nowhere := fails (content, temporaryMode, true)
              dsimp only at nowhere
              rw [nowhere] at resolved
              cases resolved
          | inl finds =>
              have here := finds (content, temporaryMode, true)
              dsimp only at here
              rw [here] at resolved
              cases resolved
              have isFile :
                  ((workspace.changing directory).written location content temporaryMode).tree.find?
                      location = some (.file content workspace.tick.clock temporaryMode) :=
                FileTree.find?_set_self _ _ _
              rw [isFile] at isEntry
              cases isEntry
              have isWritten :
                  ((workspace.changing directory).written location content temporaryMode).put location
                      (.file content workspace.tick.clock mode) =
                    (workspace.changing directory).written location content mode := by
                simp only [written, enter, put, FileTree.set_set]
                rfl
              refine ⟨directory, held, content, modified, mode, location, works, found, placed,
                isWritten, ?_⟩
              intro followLast
              rw [Entry.withMode, isWritten]
              exact finds (content, mode, followLast)

/-- A copy that fails leaves nothing behind unless only the permissions were still to be set. -/
theorem of_copyThrough_eq_error {failure : FileFailure}
    (failed : workspace.copyThrough hindrance name source destination = (.error failure, after)) :
    workspace.Undone destination after ∨
      ∃ mode reason, workspace.replace hindrance name source destination = (.ok mode, after) ∧
        after.setMode hindrance destination mode = .error reason := by
  unfold copyThrough at failed
  split at failed
  · next reason left isReplaced =>
      cases failed
      exact Or.inl (undone_of_replace_eq_error isReplaced)
  · next mode replaced isReplaced =>
      split at failed
      · next reason isReason =>
          cases failed
          exact Or.inr ⟨mode, reason, isReplaced, isReason⟩
      · cases failed

theorem copyThrough_of_replace_eq_error {failure : FileFailure}
    (failed : workspace.replace hindrance name source destination = (.error failure, after)) :
    workspace.copyThrough hindrance name source destination = (.error failure, after) := by
  rw [copyThrough, failed]

/-- What keeps a copy from putting anything in the place of its destination. -/
inductive Thwarted (workspace : Workspace) (hindrance : Hindrance) (source destination : Path) :
    Prop
  | refused (step : CopyStep) (failure : SystemFailure) (early : step ≠ .setPermissions)
      (isRefused : hindrance.refusal? step = some failure)
  | noSource (failure : SystemFailure) (missing : workspace.status source = .error failure)
  | directorySource (isDirectory : workspace.isDirectory source = true)
  | noParent (isTop : destination.parent? = none)
  | noDirectory (parent : Path) (isParent : destination.parent? = some parent)
      (missing : workspace.isDirectory (workspace.temporaryDirectory parent) = false)
  | directoryDestination (location : Location) (modified : Instant)
      (found : workspace.look false destination = .ok (location, .directory modified))

/-- Nothing is put in place of a directory, and nothing without a source, a directory for it and
leave to do so. -/
theorem Thwarted.not_takesPlace (thwarted : Thwarted workspace hindrance source destination) :
    ¬ TakesPlace workspace hindrance source destination mode replaced := by
  intro takes
  obtain ⟨directory, held, content, modified, location, works, found, placed, -⟩ := takes.moved
  cases thwarted with
  | refused step failure early isRefused =>
      rw [takes.unrefused step early] at isRefused
      cases isRefused
  | noSource failure missing =>
      rw [missing] at found
      cases found
  | directorySource isDirectory =>
      obtain ⟨place, changed, foundDirectory⟩ := (workspace.isDirectory_iff _).1 isDirectory
      rw [foundDirectory] at found
      cases found
  | noParent isTop =>
      obtain ⟨parent, isParent, -⟩ := works
      rw [isTop] at isParent
      cases isParent
  | noDirectory parent isParent missing =>
      obtain ⟨other, isOther, leads⟩ := works
      rw [isParent] at isOther
      cases isOther
      rw [isDirectory_iff_leadsToDirectory.2 ⟨directory, leads⟩] at missing
      cases missing
  | directoryDestination place changed foundDirectory =>
      obtain ⟨-, noDirectory⟩ := eq_of_look_of_placeFor placed foundDirectory
      cases noDirectory

/-- A copy replaces its destination or leaves the tree as it was, whichever step of it is refused;
`copy` takes a name that no entry has.

When it succeeds, the destination itself has become a file with the content and the permissions of
the source, in the place of whatever was there and was no directory, every other entry is what it was,
and no directory has changed but those that held a name of the file.  When it fails, the tree is
exactly the one from before, without the temporary file, unless only the permissions could not be set;
and what thwarts a copy makes it fail and leave everything. -/
theorem copyThrough_replaces_or_leaves (workspace : Workspace) (hindrance : Hindrance)
    (name : String) (source destination : Path) :
    (∀ after, workspace.copyThrough hindrance name source destination = (.ok (), after) →
      ∃ held location content modified mode,
        workspace.status source = .ok (held, .file content modified mode) ∧
          (∀ followLast, after.look followLast destination =
            .ok (location, .file content after.clock mode)) ∧
          (∀ place entry, workspace.look false destination = .ok (place, entry) →
            place = location ∧ entry.isDirectory = false) ∧
          (∀ other, other ≠ location → after.tree.find? other = workspace.tree.find? other) ∧
          ∀ directory, directory ≠ location.dropLast → ¬ workspace.WorksIn destination directory →
            after.changes.lookup directory = workspace.changes.lookup directory) ∧
    (∀ failure after,
      workspace.copyThrough hindrance name source destination = (.error failure, after) →
        (after.tree = workspace.tree ∧ workspace.Undone destination after) ∨
          ∃ mode reason, workspace.replace hindrance name source destination = (.ok mode, after) ∧
            after.setMode hindrance destination mode = .error reason) ∧
    (Thwarted workspace hindrance source destination →
      ∃ failure after,
        workspace.copyThrough hindrance name source destination = (.error failure, after) ∧
          after.tree = workspace.tree ∧ workspace.Undone destination after) := by
  refine ⟨?_, ?_, ?_⟩
  · intro after done
    obtain ⟨worked, held, content, modified, mode, location, works, found, placed, rfl, finds⟩ :=
      of_copyThrough done
    refine ⟨held, location, content, modified, mode, found, ?_, ?_, ?_, ?_⟩
    · intro followLast
      exact look_eq_ok_iff_resolve.2 ⟨finds followLast, FileTree.find?_set_self _ _ _⟩
    · intro place entry looked
      exact eq_of_look_of_placeFor placed looked
    · intro other differs
      exact FileTree.find?_set_of_ne differs _ _
    · intro directory notAbove notWorked
      have notHere : directory ≠ worked := fun same => notWorked (same ▸ works)
      exact (lookup_changedAt.trans (if_neg notAbove)).trans
        (lookup_changedAt.trans (if_neg notHere))
  · intro failure after failed
    exact (of_copyThrough_eq_error failed).imp_left fun undone => ⟨undone.tree_eq, undone⟩
  · intro thwarted
    cases outcome : workspace.replace hindrance name source destination with
    | mk result after =>
        cases result with
        | error failure =>
            have undone := undone_of_replace_eq_error outcome
            exact ⟨failure, after, copyThrough_of_replace_eq_error outcome, undone.tree_eq, undone⟩
        | ok mode =>
            exact absurd (takesPlace_of_replace outcome) thwarted.not_takesPlace

/-- A link at the destination gives way to the file, and what it led to stays. -/
example :
    let tree : FileTree := ⟨[([], .directory ⟨0⟩), (["in"], .file [104, 105] ⟨0⟩ 420),
      (["held"], .file [] ⟨0⟩ 384), (["out"], .link ⟨"held"⟩)]⟩
    let copied := (Workspace.mk tree [] ⟨"/"⟩ ⟨1⟩ []).copy unhindered ⟨"in"⟩ ⟨"/out"⟩
    copied.1 = .ok () ∧ copied.2.tree.find? ["out"] = some (.file [104, 105] ⟨2⟩ 420) ∧
      copied.2.tree.find? ["held"] = some (.file [] ⟨0⟩ 384) := by
  decide +kernel

end Workspace

end ClojureBuild
