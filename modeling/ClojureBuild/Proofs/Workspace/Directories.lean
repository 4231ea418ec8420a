import ClojureBuild.Proofs.FileTree.Growth
import ClojureBuild.Proofs.Path.Steps
import ClojureBuild.Proofs.Workspace.LinkedDirectories
import ClojureBuild.Proofs.Workspace.Status
import ClojureBuild.Proofs.Workspace.Times

/-!
# Making directories in plain workspaces

Making directories adds directories where nothing was, at locations on the way of the path, and
leaves everything else alone, also when it fails half-way.  Only the directories that hold the new ones
change.  When it succeeds the path leads to a directory, and when the path leads to one already nothing
happens.
-/

namespace ClojureBuild.Workspace

variable {workspace before between after : Workspace} {path base : Path}
variable {location place : Location} {entry : Entry} {names : List String} {instant : Instant}

/-! ## Steps -/

theorem spelled_eq_spell_steps (workspace : Workspace) (path : Path) :
    workspace.spelled path =
      FileTree.spell (FileTree.startOf workspace.current path) path.steps := by
  rw [spelled, Path.steps, FileTree.spell_filter]

/-- What follows a path is looked up in the directory at a location.  After the empty path this is
the current directory. -/
structure Opens (workspace : Workspace) (path : Path) (location : Location) : Prop where
  zeroFree : ∀ step ∈ path.steps, '\x00' ∉ step.toList
  followed : workspace.tree.follow (FileTree.startOf workspace.current path) path.steps =
    .found location
  directory : workspace.tree.HoldsDirectory location

theorem leadsToDirectory_iff_opens (plain : workspace.tree.Plain) :
    workspace.LeadsToDirectory path location ↔ path.text ≠ "" ∧ workspace.Opens path location := by
  rw [LeadsToDirectory]
  simp only [status_eq_ok_iff plain, Path.zero_notMem_text_iff]
  constructor
  · rintro ⟨modified, ⟨written, zeroFree⟩, followed, found⟩
    exact ⟨written, zeroFree, FileTree.follow_filter plain followed, modified, found⟩
  · rintro ⟨written, zeroFree, followed, modified, found⟩
    exact ⟨modified, ⟨written, zeroFree⟩,
      FileTree.follow_of_filter plain ⟨modified, found⟩ followed, found⟩

theorem Opens.eq_spelled
    (plain : workspace.tree.Plain) (opens : workspace.Opens path location) :
    location = workspace.spelled path := by
  rw [spelled_eq_spell_steps]
  exact FileTree.eq_spell_of_follow plain opens.followed

/-! ## Absolute paths -/

/-- The location that an absolute path spells. -/
def placeOf (path : Path) : Location :=
  FileTree.spell [] path.steps

theorem startOf_of_isAbsolute (absolute : path.isAbsolute = true) (current : Location) :
    FileTree.startOf current path = [] := by
  rw [FileTree.startOf, if_pos absolute]

theorem spelled_of_isAbsolute (absolute : path.isAbsolute = true) :
    workspace.spelled path = placeOf path := by
  rw [spelled_eq_spell_steps, startOf_of_isAbsolute absolute, placeOf]

theorem placeOf_below (base : Path) (plainNames : ∀ name ∈ names, PlainName name) :
    placeOf (base.below names) = placeOf base ++ names := by
  rw [placeOf, Path.steps_below base plainNames, FileTree.spell_append,
    FileTree.spell_of_plain _ plainNames, placeOf]

theorem placeOf_of_onward (onward : ∀ step ∈ path.steps, PlainName step) :
    placeOf path = path.steps := by
  rw [placeOf, FileTree.spell_of_plain [] onward, List.nil_append]

/-- Without steps back a path is spelled like the path that leads to its place from above. -/
theorem same_below_of_placeOf
    (baseAbsolute : base.isAbsolute = true) (baseOnward : ∀ step ∈ base.steps, PlainName step)
    (absolute : path.isAbsolute = true) (onward : ∀ step ∈ path.steps, PlainName step)
    (place : placeOf path = placeOf base ++ names) : (base.below names).same path = true := by
  rw [placeOf_of_onward onward, placeOf_of_onward baseOnward] at place
  have plainNames : ∀ name ∈ names, PlainName name := by
    intro name member
    exact onward name (place ▸ List.mem_append_right base.steps member)
  rw [Path.same, Path.components_below base plainNames,
    Path.components_of_plain_steps baseAbsolute baseOnward,
    Path.components_of_plain_steps absolute onward, place]
  simp

/-- An absolute path leads to a directory when its steps do and no zero is in them. -/
theorem leadsToDirectory_iff_of_isAbsolute
    (plain : workspace.tree.Plain) (absolute : path.isAbsolute = true) :
    workspace.LeadsToDirectory path location ↔
      (∀ step ∈ path.steps, '\x00' ∉ step.toList) ∧
        workspace.tree.follow [] path.steps = .found location ∧
          workspace.tree.HoldsDirectory location := by
  rw [leadsToDirectory_iff_opens plain, ← startOf_of_isAbsolute absolute workspace.current]
  constructor
  · rintro ⟨-, zeroFree, followed, directory⟩
    exact ⟨zeroFree, followed, directory⟩
  · rintro ⟨zeroFree, followed, directory⟩
    exact ⟨Path.text_ne_empty_of_isAbsolute absolute, zeroFree, followed, directory⟩

theorem eq_placeOf_of_leadsToDirectory
    (plain : workspace.tree.Plain) (absolute : path.isAbsolute = true)
    (leads : workspace.LeadsToDirectory path location) : location = placeOf path := by
  obtain ⟨modified, found⟩ := leads
  rw [spelled_of_status plain found, spelled_of_isAbsolute absolute]

/-- A path without steps back leads to its place as long as something is below it. -/
theorem leadsToDirectory_of_onward
    (plain : workspace.tree.Plain) (absolute : path.isAbsolute = true)
    (onward : ∀ step ∈ path.steps, PlainName step) (nonempty : names ≠ [])
    (file : workspace.tree.HoldsFile (placeOf path ++ names)) :
    workspace.LeadsToDirectory path (placeOf path) := by
  obtain ⟨content, modified, mode, found⟩ := file
  have directory := plain.holdsDirectory_of_append nonempty found
  rw [placeOf_of_onward onward] at directory ⊢
  obtain ⟨changed, held⟩ := directory
  have held' : workspace.tree.find? ([] ++ path.steps) = some (.directory changed) := held
  refine (leadsToDirectory_iff_of_isAbsolute plain absolute).2 ⟨?_, ?_, changed, held⟩
  · exact fun step member => (plain.fileName_of_mem held' step member).noZero
  · exact FileTree.follow_names plain held'

/-! ## Stamps -/

/-- An instant is later than the clock of one workspace and not later than that of another one. -/
def Between (before after : Workspace) (instant : Instant) : Prop :=
  before.clock.nanoseconds < instant.nanoseconds ∧ instant.nanoseconds ≤ after.clock.nanoseconds

/-- Time has not run backwards, and whatever is new or has changed carries a time in between. -/
structure Stamped (before after : Workspace) : Prop where
  plain : after.tree.Plain
  current : after.current = before.current
  clock : before.clock.nanoseconds ≤ after.clock.nanoseconds
  stamped : ∀ {location entry}, after.tree.find? location = some entry →
    (before.tree.find? location = some entry ∧
      after.lastModified location entry = before.lastModified location entry) ∨
        Between before after (after.lastModified location entry)

namespace Stamped

theorem refl (plain : workspace.tree.Plain) : Stamped workspace workspace where
  plain := plain
  current := rfl
  clock := Int.le_refl _
  stamped := fun found => Or.inl ⟨found, rfl⟩

theorem trans (first : Stamped before between) (second : Stamped between after) :
    Stamped before after where
  plain := second.plain
  current := second.current.trans first.current
  clock := Int.le_trans first.clock second.clock
  stamped := by
    intro location entry found
    have firstClock := first.clock
    have secondClock := second.clock
    rcases second.stamped found with ⟨same, sameTime⟩ | ⟨later, bounded⟩
    · rw [sameTime]
      rcases first.stamped same with unchanged | ⟨later, bounded⟩
      · exact Or.inl unchanged
      · exact Or.inr ⟨later, Int.le_trans bounded secondClock⟩
    · exact Or.inr ⟨Int.lt_of_le_of_lt firstClock later, bounded⟩

theorem tick (stamped : Stamped before after) : Stamped before after.tick where
  plain := stamped.plain
  current := stamped.current
  clock := by
    have earlier := stamped.clock
    simp only [Workspace.tick, Instant.next]
    omega
  stamped := by
    intro location entry found
    rcases stamped.stamped found with same | ⟨later, bounded⟩
    · exact Or.inl same
    · refine Or.inr ⟨later, Int.le_trans bounded ?_⟩
      simp only [Workspace.tick, Instant.next]
      omega

/-- A directory that changes in between carries the time of its change. -/
theorem changedAt (stamped : Stamped before after) (between : Between before after instant)
    (directory : Location) : Stamped before (after.changedAt directory instant) where
  plain := stamped.plain
  current := stamped.current
  clock := stamped.clock
  stamped := by
    intro location entry found
    rw [lastModified_changedAt]
    split
    · exact Or.inr between
    · exact stamped.stamped found

/-- What is put somewhere carries a time in between. -/
theorem put (stamped : Stamped before after) (plain : (after.put location entry).tree.Plain)
    (between : Between before after (after.lastModified location entry)) :
    Stamped before (after.put location entry) where
  plain := plain
  current := stamped.current
  clock := stamped.clock
  stamped := by
    intro place held found
    by_cases same : place = location
    · subst same
      have isNew : some entry = some held :=
        (FileTree.find?_set_self after.tree _ _).symm.trans found
      cases isNew
      exact Or.inr between
    · exact stamped.stamped ((FileTree.find?_set_of_ne same _ _).symm.trans found)

end Stamped

theorem between_tick : Between before before.tick before.tick.clock := by
  simp only [Between, tick, Instant.next]
  omega

/-! ## One directory -/

/-- Only directories have been made, at some of the given locations.  What has changed are these
directories and those that hold them. -/
structure OnlyMade (places : Location → Prop) (before after : Workspace) : Prop
    extends Stamped before after where
  home : after.home = before.home
  kept : ∀ {location entry},
    before.tree.find? location = some entry → after.tree.find? location = some entry
  made : ∀ {location entry},
    before.tree.find? location = none → after.tree.find? location = some entry →
      places location ∧ entry.isDirectory = true
  changed : ∀ location, after.changes.lookup location = before.changes.lookup location ∨
    ∃ new, before.tree.find? new = none ∧ places new ∧ (new = location ∨ new.dropLast = location)

namespace OnlyMade

variable {places more : Location → Prop}

theorem refl (plain : workspace.tree.Plain) (places : Location → Prop) :
    OnlyMade places workspace workspace where
  toStamped := Stamped.refl plain
  home := rfl
  kept := id
  made := by
    intro location entry absent found
    rw [absent] at found
    cases found
  changed := fun _ => Or.inl rfl

theorem trans
    (first : OnlyMade places before between) (second : OnlyMade places between after) :
    OnlyMade places before after where
  toStamped := first.toStamped.trans second.toStamped
  home := second.home.trans first.home
  kept := second.kept ∘ first.kept
  made := by
    intro location entry absent found
    cases held : between.tree.find? location with
    | none =>
        exact second.made held found
    | some other =>
        rw [second.kept held] at found
        cases found
        exact first.made absent held
  changed := by
    intro location
    cases second.changed location with
    | inl same =>
        rw [same]
        exact first.changed location
    | inr isNew =>
        obtain ⟨new, absent, inPlaces, here⟩ := isNew
        refine Or.inr ⟨new, ?_, inPlaces, here⟩
        rw [Option.eq_none_iff_forall_ne_some] at absent ⊢
        exact fun entry found => absent entry (first.kept found)

theorem refine
    (only : OnlyMade places before after)
    (implied : ∀ location,
      before.tree.find? location = none → places location → more location) :
    OnlyMade more before after where
  toStamped := only.toStamped
  home := only.home
  kept := only.kept
  made := by
    intro location entry absent found
    obtain ⟨inPlaces, directory⟩ := only.made absent found
    exact ⟨implied location absent inPlaces, directory⟩
  changed := by
    intro location
    refine (only.changed location).imp_right ?_
    rintro ⟨new, absent, inPlaces, here⟩
    exact ⟨new, absent, implied new absent inPlaces, here⟩

theorem mono
    (only : OnlyMade places before after) (wider : ∀ location, places location → more location) :
    OnlyMade more before after :=
  only.refine fun location _ => wider location

theorem grows (only : OnlyMade places before after) : before.tree.Grows after.tree where
  directories := fun ⟨modified, found⟩ => ⟨modified, only.kept found⟩
  files := fun ⟨content, modified, mode, found⟩ => ⟨content, modified, mode, only.kept found⟩

theorem find?_eq
    (only : OnlyMade places before after) (elsewhere : ¬ places location) :
    after.tree.find? location = before.tree.find? location := by
  cases held : before.tree.find? location with
  | some entry =>
      exact only.kept held
  | none =>
      cases found : after.tree.find? location with
      | none =>
          rfl
      | some entry =>
          exact absurd (only.made held found).1 elsewhere

/-- Nothing happens where no directory is made, unless one is made in what stands there. -/
theorem leftAlone
    (only : OnlyMade places before after) (elsewhere : ¬ places location)
    (notAbove : ∀ new, places new → new.dropLast ≠ location) : LeftAlone before after location where
  entry := only.find?_eq elsewhere
  change := by
    apply (only.changed location).resolve_right
    rintro ⟨new, -, inPlaces, rfl | rfl⟩
    · exact elsewhere inPlaces
    · exact notAbove new inPlaces rfl

/-- Making directories makes no files. -/
theorem find?_eq_file_iff
    (only : OnlyMade places before after) {content : List UInt8} {modified : Instant}
    {mode : Nat} :
    after.tree.find? location = some (.file content modified mode) ↔
      before.tree.find? location = some (.file content modified mode) := by
  refine ⟨fun found => ?_, only.kept⟩
  cases held : before.tree.find? location with
  | some entry =>
      rw [only.kept held] at found
      exact found
  | none =>
      have directory := (only.made held found).2
      cases directory

theorem holdsFile_iff (only : OnlyMade places before after) :
    after.tree.HoldsFile location ↔ before.tree.HoldsFile location := by
  simp only [FileTree.HoldsFile, only.find?_eq_file_iff]

end OnlyMade

/-- A new directory is put into one that does not hold its name. -/
theorem onlyMade_enterDirectory
    (plain : before.tree.Plain) {front : Location} {name : String}
    (directory : before.tree.HoldsDirectory front) (fileName : FileName name)
    (absent : before.tree.find? (front ++ [name]) = none) :
    OnlyMade (· = front ++ [name]) before (before.tick.enterDirectory (front ++ [name])) where
  toStamped := by
    have ticked : Stamped before before.tick := (Stamped.refl plain).tick
    have changed :=
      (ticked.changedAt between_tick (front ++ [name])).changedAt between_tick
        (front ++ [name]).dropLast
    refine changed.put (plain.set directory fileName rfl fun _ => rfl) ?_
    rw [lastModified_of_made]
    exact between_tick
  home := rfl
  kept := by
    intro location entry found
    have differs : location ≠ front ++ [name] := by
      rintro rfl
      rw [absent] at found
      cases found
    exact (FileTree.find?_set_of_ne differs _ _).trans found
  made := by
    intro location entry missing found
    by_cases same : location = front ++ [name]
    · subst same
      have isNew : some (Entry.directory before.tick.clock) = some entry :=
        (FileTree.find?_set_self before.tree _ _).symm.trans found
      cases isNew
      exact ⟨rfl, rfl⟩
    · have unchanged : before.tree.find? location = some entry :=
        (FileTree.find?_set_of_ne same _ _).symm.trans found
      rw [missing] at unchanged
      cases unchanged
  changed := by
    intro location
    by_cases here : front ++ [name] = location ∨ (front ++ [name]).dropLast = location
    · exact Or.inr ⟨_, absent, rfl, here⟩
    · left
      rw [not_or] at here
      have twice :
          (before.tick.enterDirectory (front ++ [name])).changes.lookup location =
            ((before.tick.changedAt (front ++ [name]) before.tick.clock).changedAt
              (front ++ [name]).dropLast before.tick.clock).changes.lookup location := rfl
      rw [twice, lookup_changedAt, if_neg (Ne.symm here.2), lookup_changedAt,
        if_neg (Ne.symm here.1)]
      rfl

/-- A path that leads to a missing name spells its location. -/
theorem of_resolveName_eq_absent
    (plain : workspace.tree.Plain) (resolved : workspace.resolveName path = .absent place) :
    ∃ rest name front,
      path.steps = rest ++ [name] ∧ place = front ++ [name] ∧ workspace.spelled path = place ∧
        workspace.tree.follow (FileTree.startOf workspace.current path) rest = .found front ∧
          workspace.tree.HoldsDirectory front ∧ workspace.tree.find? place = none ∧
            FileName name ∧ ∀ step ∈ path.steps, '\x00' ∉ step.toList := by
  have sameSteps := path.steps_withoutTrailingSlashes
  have sameStart :
      FileTree.startOf workspace.current path.withoutTrailingSlashes =
        FileTree.startOf workspace.current path := by
    simp only [FileTree.startOf, path.isAbsolute_withoutTrailingSlashes]
  rw [resolveName, resolve] at resolved
  cases FileTree.pathReading workspace.current path.withoutTrailingSlashes with
  | refused failure step =>
      rw [step] at resolved
      cases resolved
  | followed written noZero step =>
      rw [step, FileTree.followLinks_eq_follow plain, sameStart] at resolved
      obtain ⟨rest, name, front, split, rfl, toFront, directory, absent, solid, short⟩ :=
        FileTree.of_follow_eq_absent resolved
      have fileName : FileName name :=
        FileName.of_mem_body (by simp [split]) noZero solid short
      have steps :
          path.steps = rest.filter (fun piece => !Path.isFiller piece) ++ [name] := by
        rw [← sameSteps, Path.steps, split, List.filter_append]
        simp [Path.isFiller, solid.1, solid.2.1]
      have plainLast : ∀ other ∈ [name], PlainName other :=
        List.forall_mem_singleton.2 fileName.toPlainName
      have spelled : workspace.spelled path = front ++ [name] := by
        rw [spelled_eq_spell_steps, steps, FileTree.spell_append, FileTree.spell_filter,
          ← FileTree.eq_spell_of_follow plain toFront, FileTree.spell_of_plain front plainLast]
      rw [Path.zero_notMem_text_iff, sameSteps] at noZero
      exact ⟨_, name, front, steps, rfl, spelled, FileTree.follow_filter plain toFront,
        directory, absent, fileName, noZero⟩

/-- What happens when one directory is made. -/
theorem onlyMade_of_makeDirectory
    (plain : before.tree.Plain) (made : before.makeDirectory path = .ok after) :
    OnlyMade (· = before.spelled path) before after ∧
      after.LeadsToDirectory path (before.spelled path) := by
  obtain ⟨written, location, resolved, rfl⟩ := makeDirectory_eq_ok_iff.1 made
  obtain ⟨rest, name, front, steps, rfl, spelled, toFront, directory, absent, fileName,
    zeroFree⟩ := of_resolveName_eq_absent plain resolved
  have only := onlyMade_enterDirectory plain directory fileName absent
  have held :
      (before.tick.enterDirectory (front ++ [name])).tree.find? (front ++ [name]) =
        some (.directory before.tick.clock) :=
    FileTree.find?_set_self _ _ _
  have toName := FileTree.follow_append_of_found (only.grows.follow plain only.plain toFront) [name]
  rw [FileTree.follow_singleton only.plain (only.grows.directories directory) fileName,
    if_pos (Option.isSome_iff_exists.2 ⟨_, held⟩), ← steps, ← only.current] at toName
  rw [spelled]
  exact ⟨only, (leadsToDirectory_iff_opens only.plain).2 ⟨written, zeroFree, toName, _, held⟩⟩

/-- A path that leads to a directory leads there in a tree that has grown. -/
theorem leadsToDirectory_of_grows
    (plain : before.tree.Plain) (afterPlain : after.tree.Plain)
    (grows : before.tree.Grows after.tree) (current : after.current = before.current)
    (leads : before.LeadsToDirectory path location) : after.LeadsToDirectory path location := by
  obtain ⟨modified, found⟩ := leads
  obtain ⟨written, followed, held⟩ := (status_eq_ok_iff plain).1 found
  obtain ⟨later, heldLater⟩ := grows.directories ⟨modified, held⟩
  refine ⟨later, (status_eq_ok_iff afterPlain).2 ⟨written, ?_, heldLater⟩⟩
  rw [current]
  exact grows.follow plain afterPlain followed

theorem OnlyMade.leadsToDirectory
    {places : Location → Prop} (plain : before.tree.Plain) (only : OnlyMade places before after)
    (leads : before.LeadsToDirectory path location) : after.LeadsToDirectory path location :=
  leadsToDirectory_of_grows plain only.plain only.grows only.current leads

/-- What happens when several directories are made, whether this succeeds or not. -/
theorem onlyMade_makeChain (plain : workspace.tree.Plain) (chain : List Path) :
    OnlyMade (fun location => ∃ path ∈ chain, workspace.spelled path = location) workspace
      (makeChain chain workspace).2 := by
  apply keeps_makeChain chain _ (OnlyMade.refl plain _)
  intro before after path member only done
  obtain ⟨made, -⟩ := onlyMade_of_makeDirectory only.plain done
  rw [spelled_eq_of_current only.current] at made
  exact only.trans (made.mono fun location same => ⟨path, member, same.symm⟩)

theorem Tried.leadsToDirectory
    {reached : Except SystemFailure Unit × Workspace} (tried : Tried path before reached)
    (plain : before.tree.Plain) (done : reached.1 = .ok ()) :
    reached.2.LeadsToDirectory path (before.spelled path) := by
  cases tried with
  | made made =>
      exact (onlyMade_of_makeDirectory plain made).2
  | stood directory =>
      exact leadsToDirectory_spelled plain directory
  | refused failure =>
      cases done

/-- The first one of the directories that have been made is a directory. -/
theorem leadsToDirectory_of_makeChain
    (plain : workspace.tree.Plain) {above : List Path}
    (done : (makeChain (path :: above) workspace).1 = .ok ()) :
    (makeChain (path :: above) workspace).2.LeadsToDirectory path (workspace.spelled path) := by
  rcases tried_makeChain path above workspace with tried | ⟨prepared, ready, tried⟩ | failed
  · exact tried.leadsToDirectory plain done
  · have only := onlyMade_makeChain plain above
    rw [ready] at only
    rw [← spelled_eq_of_current only.current]
    exact tried.leadsToDirectory only.plain done
  · obtain ⟨failure, isFailure, same⟩ := failed
    rw [same, isFailure] at done
    cases done

/-- A location on the way of a path followed from another location. -/
def OnTheWayFrom (start : Location) (path : Path) (location : Location) : Prop :=
  ∃ initial, initial <+: path.steps ∧ FileTree.spell start initial = location

/-- A location on the way of a path: an initial part of its steps spells it. -/
def OnTheWay (path : Path) (location : Location) : Prop :=
  ∃ initial, initial <+: path.steps ∧ FileTree.spell [] initial = location

theorem withAncestors_eq_nil_or_cons (path : Path) :
    (path.parent? = none ∧ withAncestors (path.components.length + 1) path = []) ∨
      ∃ above, withAncestors (path.components.length + 1) path = path :: above := by
  rw [withAncestors]
  cases path.parent? with
  | none =>
      exact Or.inl ⟨rfl, rfl⟩
  | some parent =>
      exact Or.inr ⟨_, rfl⟩

/-- Making directories on the way of a path makes directories only, and when it succeeds the path leads
to one, unless it has no parent. -/
theorem onlyMade_makeDirectories_from (plain : workspace.tree.Plain) (path : Path) :
    OnlyMade (OnTheWayFrom (FileTree.startOf workspace.current path) path) workspace
        (workspace.makeDirectories path).2 ∧
      ((workspace.makeDirectories path).1 = .ok () → path.parent? ≠ none →
        (workspace.makeDirectories path).2.LeadsToDirectory path (workspace.spelled path)) := by
  have only := onlyMade_makeChain plain (withAncestors (path.components.length + 1) path)
  refine ⟨only.mono ?_, ?_⟩
  · rintro location ⟨other, member, same⟩
    obtain ⟨kind, isInitial⟩ := Path.of_mem_withAncestors member
    refine ⟨other.steps, isInitial, ?_⟩
    rw [← same, spelled_eq_spell_steps, FileTree.startOf, FileTree.startOf, kind]
  · intro done notTop
    rcases withAncestors_eq_nil_or_cons path with ⟨top, -⟩ | ⟨rest, some⟩
    · exact absurd top notTop
    · rw [makeDirectories, some] at done ⊢
      exact leadsToDirectory_of_makeChain plain done

/-- Making directories on the way of an absolute path makes directories only, and when it succeeds
the path leads to one. -/
theorem onlyMade_makeDirectories
    (plain : workspace.tree.Plain) (absolute : path.isAbsolute = true) :
    OnlyMade (OnTheWay path) workspace (workspace.makeDirectories path).2 ∧
      ((workspace.makeDirectories path).1 = .ok () →
        (workspace.makeDirectories path).2.LeadsToDirectory path (placeOf path)) := by
  obtain ⟨only, leads⟩ := onlyMade_makeDirectories_from plain path
  rw [startOf_of_isAbsolute absolute] at only
  refine ⟨only, ?_⟩
  intro done
  rcases withAncestors_eq_nil_or_cons path with ⟨top, none⟩ | ⟨rest, some⟩
  · have steps := Path.steps_of_parent?_eq_none absolute top
    rw [makeDirectories, none, makeChain, leadsToDirectory_iff_of_isAbsolute plain absolute,
      placeOf, steps]
    exact ⟨by simp, rfl, plain.top⟩
  · rw [← spelled_of_isAbsolute absolute]
    apply leads done
    intro top
    rw [withAncestors, top] at some
    cases some

/-- Nothing happens when the path leads to a directory already. -/
theorem makeDirectories_of_isDirectory
    (plain : workspace.tree.Plain) (absolute : path.isAbsolute = true)
    (directory : workspace.isDirectory path = true) :
    workspace.makeDirectories path = (.ok (), workspace) := by
  rcases withAncestors_eq_nil_or_cons path with ⟨-, none⟩ | ⟨above, some⟩
  · rw [makeDirectories, none, makeChain]
  · have exists? : workspace.makeDirectory path = .error .alreadyExists := by
      obtain ⟨location, leads⟩ := isDirectory_iff_leadsToDirectory.1 directory
      rw [leadsToDirectory_iff_of_isAbsolute plain absolute,
        ← path.steps_withoutTrailingSlashes,
        ← leadsToDirectory_iff_of_isAbsolute plain
          (path.isAbsolute_withoutTrailingSlashes.trans absolute)] at leads
      obtain ⟨modified, found⟩ := leads
      obtain ⟨⟨written, noZero⟩, followed, -⟩ := (status_eq_ok_iff plain).1 found
      rw [makeDirectory, if_neg (Path.text_ne_empty_of_isAbsolute absolute), resolveName, resolve,
        FileTree.resolve_eq_follow plain false workspace.current written noZero, followed]
    rw [makeDirectories, some, makeChain, exists?]
    simp [directory]

end ClojureBuild.Workspace
