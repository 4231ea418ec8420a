import ClojureBuild.Proofs.FileTree.Links
import ClojureBuild.Workspace

/-!
# Making directories through links

Whatever links a workspace holds, making directories keeps every entry, also when it fails half-way.
Every new entry is a directory, and one of the paths to be made names it.  What each directory keeps,
a chain of them keeps.
-/

namespace ClojureBuild.Workspace

variable {workspace before between after : Workspace} {path : Path} {paths more : List Path}
variable {location : Location} {entry : Entry}

/-! ## One directory -/

theorem makeDirectory_eq_ok_iff :
    before.makeDirectory path = .ok after ↔
      path.text ≠ "" ∧ ∃ location, before.resolveName path = .absent location ∧
        after = before.tick.enterDirectory location := by
  by_cases empty : path.text = ""
  · simp [makeDirectory, empty]
  · cases resolved : before.resolveName path with
    | absent location =>
        simp [makeDirectory, empty, resolved, eq_comm]
    | found location =>
        simp [makeDirectory, empty, resolved]
    | absentDirectory location =>
        simp [makeDirectory, empty, resolved]
    | failed failure =>
        simp [makeDirectory, empty, resolved]

/-! ## Chains of directories -/

/-- What comes of one try to make a directory: it is made, or it is there already, or it is refused.
Only in the first case has something happened. -/
inductive Tried (path : Path) (before : Workspace) : Except SystemFailure Unit × Workspace → Prop
  | made {after : Workspace} (done : before.makeDirectory path = .ok after) :
      Tried path before (.ok (), after)
  | stood (directory : before.isDirectory path = true) : Tried path before (.ok (), before)
  | refused (failure : SystemFailure) : Tried path before (.error failure, before)

/-- The first directory of a chain is tried at once or after all others have been made, unless one of
these could not be made. -/
theorem tried_makeChain (path : Path) (above : List Path) (workspace : Workspace) :
    Tried path workspace (makeChain (path :: above) workspace) ∨
      (∃ prepared, makeChain above workspace = (.ok (), prepared) ∧
        Tried path prepared (makeChain (path :: above) workspace)) ∨
      ∃ failure, (makeChain above workspace).1 = .error failure ∧
        makeChain (path :: above) workspace = makeChain above workspace := by
  have settle (before : Workspace) (failure : SystemFailure) :
      Tried path before
        (if failure = .alreadyExists && before.isDirectory path then (.ok (), before)
        else (.error failure, before)) := by
    split
    · next stands =>
        exact Tried.stood (Bool.and_eq_true_iff.1 stands).2
    · exact Tried.refused failure
  rw [makeChain]
  split
  · next changed done =>
      exact Or.inl (Tried.made done)
  · right
    split
    · next prepared ready =>
        refine Or.inl ⟨prepared, ready, ?_⟩
        split
        · next changed done =>
            exact Tried.made done
        · exact settle prepared _
    · next failed =>
        right
        cases outcome : (makeChain above workspace).1 with
        | ok _ =>
            exact (failed _ (Prod.ext outcome rfl)).elim
        | error failure =>
            exact ⟨failure, rfl, rfl⟩
  · exact Or.inl (settle workspace _)

/-- What making one directory of a chain keeps, making the chain keeps. -/
theorem keeps_makeChain {invariant : Workspace → Prop} (chain : List Path)
    (each : ∀ {before after path}, path ∈ chain → invariant before →
      before.makeDirectory path = .ok after → invariant after)
    (held : invariant workspace) : invariant (makeChain chain workspace).2 := by
  induction chain with
  | nil =>
      exact held
  | cons path above inductionHypothesis =>
      have heldAbove := inductionHypothesis fun member => each (List.mem_cons_of_mem path member)
      have step {before : Workspace} {reached : Except SystemFailure Unit × Workspace}
          (heldBefore : invariant before) (tried : Tried path before reached) :
          invariant reached.2 := by
        cases tried with
        | made done =>
            exact each List.mem_cons_self heldBefore done
        | stood directory =>
            exact heldBefore
        | refused failure =>
            exact heldBefore
      rcases tried_makeChain path above workspace with tried | ⟨prepared, ready, tried⟩ | failed
      · exact step held tried
      · rw [ready] at heldAbove
        exact step heldAbove tried
      · obtain ⟨failure, -, same⟩ := failed
        rw [same]
        exact heldAbove

/-! ## Directories that are made -/

/-- Some of the directories that paths name have been made, and nothing else has changed. -/
structure MadeFor (paths : List Path) (before after : Workspace) : Prop where
  current : after.current = before.current
  home : after.home = before.home
  kept : before.tree.Within after.tree
  made : ∀ {location entry},
    before.tree.find? location = none → after.tree.find? location = some entry →
      entry.isDirectory = true ∧ ∃ path ∈ paths, after.resolveName path = .found location

theorem resolveName_of_kept
    (current : after.current = before.current) (kept : before.tree.Within after.tree)
    (found : before.resolveName path = .found location) :
    after.resolveName path = .found location := by
  rw [resolveName, resolve, current]
  exact kept.resolve (Or.inl found)

namespace MadeFor

theorem refl (paths : List Path) (workspace : Workspace) : MadeFor paths workspace workspace where
  current := rfl
  home := rfl
  kept := FileTree.Within.refl workspace.tree
  made := by
    intro location entry missing found
    rw [missing] at found
    cases found

theorem trans (first : MadeFor paths before between) (second : MadeFor paths between after) :
    MadeFor paths before after where
  current := second.current.trans first.current
  home := second.home.trans first.home
  kept := FileTree.Within.trans first.kept second.kept
  made := by
    intro location entry missing found
    cases held : between.tree.find? location with
    | none =>
        exact second.made held found
    | some other =>
        rw [second.kept held] at found
        cases found
        obtain ⟨directory, path, member, named⟩ := first.made missing held
        exact ⟨directory, path, member, resolveName_of_kept second.current second.kept named⟩

theorem mono (made : MadeFor paths before after) (wider : ∀ path ∈ paths, path ∈ more) :
    MadeFor more before after where
  current := made.current
  home := made.home
  kept := made.kept
  made := by
    intro location entry missing found
    obtain ⟨directory, path, member, named⟩ := made.made missing found
    exact ⟨directory, path, wider path member, named⟩

end MadeFor

/-- One directory has been made. -/
theorem madeFor_of_makeDirectory (done : before.makeDirectory path = .ok after) :
    MadeFor [path] before after := by
  obtain ⟨-, location, named, rfl⟩ := makeDirectory_eq_ok_iff.1 done
  have missing := FileTree.find?_of_resolve_eq_absent named
  have isNew :
      (before.tick.enterDirectory location).tree.find? location =
        some (.directory before.tick.clock) :=
    FileTree.find?_set_self before.tree location _
  have elsewhere {place : Location} (differs : place ≠ location) :
      (before.tick.enterDirectory location).tree.find? place =
        before.tree.find? place :=
    FileTree.find?_set_of_ne differs _ _
  have kept :
      before.tree.Within (before.tick.enterDirectory location).tree := by
    intro place entry found
    have differs : place ≠ location := by
      intro same
      rw [same, missing] at found
      cases found
    rw [elsewhere differs, found]
  refine ⟨rfl, rfl, kept, ?_⟩
  intro place entry absent found
  by_cases same : place = location
  · rw [same, isNew] at found
    cases found
    refine ⟨rfl, path, List.mem_singleton_self path, ?_⟩
    rw [same]
    exact kept.resolve (Or.inr ⟨named, _, isNew⟩)
  · rw [elsewhere same, absent] at found
    cases found

/-- A chain of directories is made from the first one that can be made on. -/
theorem madeFor_makeChain (chain : List Path) (workspace : Workspace) :
    MadeFor chain workspace (makeChain chain workspace).2 := by
  apply keeps_makeChain chain _ (MadeFor.refl chain workspace)
  intro before after path member made done
  exact made.trans ((madeFor_of_makeDirectory done).mono (by simpa using member))

/-- The paths whose directories are made for a path: it and those above it. -/
def onTheWayTo (path : Path) : List Path :=
  withAncestors (path.components.length + 1) path

theorem madeFor_makeDirectories (workspace : Workspace) (path : Path) :
    MadeFor (onTheWayTo path) workspace (workspace.makeDirectories path).2 :=
  madeFor_makeChain (onTheWayTo path) workspace

end ClojureBuild.Workspace
