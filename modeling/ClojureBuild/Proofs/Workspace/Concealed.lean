import ClojureBuild.FileTree.Copy
import ClojureBuild.FileTree.Freshness
import ClojureBuild.FileTree.Walk
import ClojureBuild.Proofs.FileTree.Plain

/-!
# Concealed contents

Some files of a workspace are concealed when their contents are taken away, and nothing else of them.
Almost nothing that is asked of a workspace depends on contents, so the answers stay what they are.
-/

namespace ClojureBuild

/-- The entry without its content, if it is a file. -/
def Entry.withoutContent : Entry → Entry
  | .directory modified => .directory modified
  | .file _ modified mode => .file [] modified mode
  | .link target => .link target

namespace FileTree

/-- What is seen of an entry at a location when some files are concealed. -/
def shown (hidden : List Location) (location : Location) (entry : Entry) : Entry :=
  if location ∈ hidden then entry.withoutContent else entry

/-- The tree in which some files are concealed. -/
def conceal (hidden : List Location) (tree : FileTree) : FileTree :=
  ⟨tree.entries.map fun held => (held.1, shown hidden held.1 held.2)⟩

variable {hidden : List Location} {location : Location} {entry : Entry} {tree : FileTree}

theorem shown_of_notMem (seen : location ∉ hidden) : shown hidden location entry = entry :=
  if_neg seen

/-- What does not depend on the content of an entry does not depend on what is seen of it. -/
theorem of_shown {α : Type} {ask : Entry → α} (blind : ∀ entry, ask entry.withoutContent = ask entry) :
    ask (shown hidden location entry) = ask entry := by
  rw [shown]
  split
  · exact blind entry
  · rfl

@[simp]
theorem isDirectory_shown : (shown hidden location entry).isDirectory = entry.isDirectory :=
  of_shown fun entry => by cases entry <;> rfl

@[simp]
theorem isFile_shown : (shown hidden location entry).isFile = entry.isFile :=
  of_shown fun entry => by cases entry <;> rfl

@[simp]
theorem isLink_shown : (shown hidden location entry).isLink = entry.isLink :=
  of_shown fun entry => by cases entry <;> rfl

@[simp]
theorem modified_shown : (shown hidden location entry).modified = entry.modified :=
  of_shown fun entry => by cases entry <;> rfl

@[simp]
theorem shown_directory (modified : Instant) :
    shown hidden location (.directory modified) = .directory modified :=
  ite_self _

@[simp]
theorem shown_link (target : Path) : shown hidden location (.link target) = .link target :=
  ite_self _

theorem exists_shown_file (hidden : List Location) (location : Location) (content : List UInt8)
    (modified : Instant) (mode : Nat) :
    ∃ seen, shown hidden location (.file content modified mode) = .file seen modified mode := by
  rw [shown]
  split
  · exact ⟨[], rfl⟩
  · exact ⟨content, rfl⟩

@[simp]
theorem shown_shown :
    shown hidden location (shown hidden location entry) = shown hidden location entry := by
  by_cases isHidden : location ∈ hidden
  · simp only [shown, if_pos isHidden]
    cases entry <;> rfl
  · simp only [shown, if_neg isHidden]

theorem shown_withMode (mode : Nat) :
    shown hidden location (entry.withMode mode) = (shown hidden location entry).withMode mode := by
  by_cases isHidden : location ∈ hidden
  · simp only [shown, if_pos isHidden]
    cases entry <;> rfl
  · simp only [shown, if_neg isHidden]

/-! ## Trees -/

@[simp]
theorem find?_conceal (location : Location) :
    (tree.conceal hidden).find? location = (tree.find? location).map (shown hidden location) := by
  obtain ⟨entries⟩ := tree
  simp only [conceal, find?]
  induction entries with
  | nil =>
      rfl
  | cons held rest inductionHypothesis =>
      rw [List.map_cons, List.lookup_cons, List.lookup_cons, inductionHypothesis]
      by_cases same : location = held.1
      · subst same
        simp
      · have differs : (location == held.1) = false := by
          simpa using same
        simp only [differs]

@[simp]
theorem length_entries_conceal : (tree.conceal hidden).entries.length = tree.entries.length :=
  List.length_map _

@[simp]
theorem names_conceal (directory : Location) :
    (tree.conceal hidden).names directory = tree.names directory := by
  rw [names, conceal, List.filterMap_map, names]
  rfl

@[simp]
theorem conceal_conceal : (tree.conceal hidden).conceal hidden = tree.conceal hidden := by
  simp only [conceal, List.map_map, Function.comp_def, shown_shown]

theorem conceal_erase (location : Location) :
    (tree.erase location).conceal hidden = (tree.conceal hidden).erase location := by
  simp only [conceal, erase, List.filter_map]
  rfl

theorem conceal_set (location : Location) (entry : Entry) :
    (tree.set location entry).conceal hidden =
      (tree.conceal hidden).set location (shown hidden location entry) := by
  rw [set, set, ← conceal_erase, conceal, conceal, List.map_cons]

variable {followLast : Bool}

theorem followPieces_conceal {onLink : Location → Path → List String → Resolution}
    (pieces : List String) (location : Location) :
    (tree.conceal hidden).followPieces followLast onLink location pieces =
      tree.followPieces followLast onLink location pieces := by
  induction pieces generalizing location with
  | nil =>
      rfl
  | cons piece rest inductionHypothesis =>
      simp only [followPieces, inductionHypothesis, find?_conceal, Option.all_map, isDirectory_shown]
      cases tree.find? (location ++ [piece]) with
      | none =>
          rfl
      | some entry =>
          cases entry with
          | directory modified =>
              simp only [Option.map_some, shown_directory]
          | link target =>
              simp only [Option.map_some, shown_link]
          | file content modified mode =>
              obtain ⟨seen, isSeen⟩ :=
                exists_shown_file hidden (location ++ [piece]) content modified mode
              simp only [Option.map_some, isSeen]

theorem followLinks_conceal (links : Nat) (location : Location) (pieces : List String) :
    (tree.conceal hidden).followLinks followLast links location pieces =
      tree.followLinks followLast links location pieces := by
  induction links generalizing location pieces with
  | zero =>
      exact followPieces_conceal pieces location
  | succ links inductionHypothesis =>
      simp only [followLinks, inductionHypothesis]
      exact followPieces_conceal pieces location

@[simp]
theorem resolve_conceal (current : Location) (path : Path) :
    (tree.conceal hidden).resolve followLast current path = tree.resolve followLast current path := by
  simp only [resolve, followLinks_conceal]

end FileTree

namespace Workspace

/-- The workspace in which some files are concealed. -/
def conceal (hidden : List Location) (workspace : Workspace) : Workspace :=
  { workspace with tree := workspace.tree.conceal hidden }

variable {hidden : List Location} {workspace : Workspace}

/-! ## Looking -/

@[simp]
theorem resolve_conceal (followLast : Bool) (path : Path) :
    (workspace.conceal hidden).resolve followLast path = workspace.resolve followLast path :=
  FileTree.resolve_conceal workspace.current path

theorem look_conceal (followLast : Bool) (path : Path) :
    (workspace.conceal hidden).look followLast path =
      (workspace.look followLast path).map fun found =>
        (found.1, FileTree.shown hidden found.1 found.2) := by
  rw [look, resolve_conceal, look]
  cases workspace.resolve followLast path with
  | found location =>
      dsimp only [conceal]
      rw [FileTree.find?_conceal]
      cases workspace.tree.find? location <;> rfl
  | absent location =>
      rfl
  | absentDirectory location =>
      rfl
  | failed failure =>
      rfl

theorem status_conceal (path : Path) :
    (workspace.conceal hidden).status path =
      (workspace.status path).map fun found => (found.1, FileTree.shown hidden found.1 found.2) :=
  look_conceal true path

theorem entrySatisfies_conceal {property : Entry → Bool}
    (blind : ∀ entry, property entry.withoutContent = property entry) (path : Path) :
    (workspace.conceal hidden).entrySatisfies property path =
      workspace.entrySatisfies property path := by
  rw [entrySatisfies, status_conceal, entrySatisfies]
  cases workspace.status path with
  | ok found =>
      exact FileTree.of_shown blind
  | error failure =>
      rfl

@[simp]
theorem isFile_conceal (path : Path) : (workspace.conceal hidden).isFile path = workspace.isFile path :=
  entrySatisfies_conceal (fun entry => by cases entry <;> rfl) path

@[simp]
theorem isDirectory_conceal (path : Path) :
    (workspace.conceal hidden).isDirectory path = workspace.isDirectory path :=
  entrySatisfies_conceal (fun entry => by cases entry <;> rfl) path

@[simp]
theorem isPresent_conceal (path : Path) :
    (workspace.conceal hidden).isPresent path = workspace.isPresent path :=
  entrySatisfies_conceal (fun _ => rfl) path

@[simp]
theorem isLink_conceal (path : Path) : (workspace.conceal hidden).isLink path = workspace.isLink path := by
  rw [isLink, look_conceal, isLink]
  cases workspace.look false path with
  | ok found =>
      exact FileTree.isLink_shown
  | error failure =>
      rfl

@[simp]
theorem absolute_conceal (path : Path) :
    (workspace.conceal hidden).absolute path = workspace.absolute path :=
  rfl

theorem lastModified_conceal (location : Location) (entry : Entry) :
    (workspace.conceal hidden).lastModified location (FileTree.shown hidden location entry) =
      workspace.lastModified location entry := by
  rw [lastModified, FileTree.isDirectory_shown, FileTree.modified_shown]
  rfl

theorem modified?_conceal (path : Path) :
    (workspace.conceal hidden).modified? path = workspace.modified? path := by
  rw [modified?, status_conceal, modified?]
  cases workspace.status path with
  | ok found =>
      exact congrArg (Except.ok ∘ some) (lastModified_conceal found.1 found.2)
  | error failure =>
      rfl

@[simp]
theorem isFresh_conceal (output input : Path) :
    (workspace.conceal hidden).isFresh output input = workspace.isFresh output input := by
  simp only [isFresh, modified?_conceal]

/-! ## Walks -/

theorem visits_conceal (skip : Option Path) (fuel : Nat) (chain : Chain) (path : Path) :
    (workspace.conceal hidden).visits skip fuel chain path = workspace.visits skip fuel chain path := by
  induction fuel generalizing chain path with
  | zero =>
      rfl
  | succ fuel inductionHypothesis =>
      simp only [visits, status_conceal, isLink_conceal, inductionHypothesis]
      cases workspace.status path with
      | error failure =>
          rfl
      | ok found =>
          obtain ⟨location, entry⟩ := found
          cases entry with
          | directory modified =>
              simp only [Except.map, FileTree.shown_directory, conceal, FileTree.names_conceal]
          | link target =>
              simp only [Except.map, FileTree.shown_link]
          | file content modified mode =>
              obtain ⟨seen, isSeen⟩ :=
                FileTree.exists_shown_file hidden location content modified mode
              simp only [Except.map, isSeen]

@[simp]
theorem walk_conceal (root : Path) (skip : Option Path) :
    (workspace.conceal hidden).walk root skip = workspace.walk root skip := by
  have sameBound : (workspace.conceal hidden).walkBound = workspace.walkBound := by
    simp only [walkBound, conceal, FileTree.length_entries_conceal]
  rw [walk, visits_conceal, sameBound, walk]

/-! ## Making directories -/

theorem conceal_put (location : Location) (entry : Entry) :
    (workspace.put location entry).conceal hidden =
      (workspace.conceal hidden).put location (FileTree.shown hidden location entry) := by
  simp only [conceal, put, FileTree.conceal_set]

theorem conceal_enter (location : Location) (entry : Entry) :
    (workspace.enter location entry).conceal hidden =
      (workspace.conceal hidden).enter location (FileTree.shown hidden location entry) :=
  conceal_put location entry

theorem conceal_enterDirectory (workspace : Workspace) (location : Location) :
    (workspace.enterDirectory location).conceal hidden =
      (workspace.conceal hidden).enterDirectory location := by
  rw [enterDirectory, conceal_enter, FileTree.shown_directory]
  rfl

theorem makeDirectory_conceal (path : Path) :
    (workspace.conceal hidden).makeDirectory path =
      (workspace.makeDirectory path).map (conceal hidden) := by
  simp only [makeDirectory, resolveName, resolve_conceal]
  split
  · rfl
  · cases workspace.resolve false path.withoutTrailingSlashes with
    | absent location =>
        exact congrArg Except.ok (conceal_enterDirectory workspace.tick location).symm
    | _ =>
        rfl

theorem makeChain_conceal (chain : List Path) (workspace : Workspace) :
    makeChain chain (workspace.conceal hidden) =
      ((makeChain chain workspace).1, (makeChain chain workspace).2.conceal hidden) := by
  induction chain generalizing workspace with
  | nil =>
      rfl
  | cons path above inductionHypothesis =>
      simp only [makeChain, makeDirectory_conceal, inductionHypothesis]
      cases workspace.makeDirectory path with
      | ok changed =>
          rfl
      | error failure =>
          cases failure with
          | notFound =>
              obtain ⟨outcome, prepared⟩ := makeChain above workspace
              cases outcome with
              | error failure =>
                  rfl
              | ok _ =>
                  simp only [Except.map, makeDirectory_conceal]
                  cases prepared.makeDirectory path with
                  | ok changed =>
                      rfl
                  | error failure =>
                      simp only [isDirectory_conceal]
                      split <;> rfl
          | _ =>
              simp only [Except.map, isDirectory_conceal]
              split <;> rfl

/-- Making directories goes on alike whatever is concealed. -/
theorem makeDirectories_conceal (path : Path) :
    (workspace.conceal hidden).makeDirectories path =
      ((workspace.makeDirectories path).1, (workspace.makeDirectories path).2.conceal hidden) :=
  makeChain_conceal _ workspace

/-! ## Workspaces that differ in concealed contents -/

/-- A question about workspaces has the same answer whatever is concealed. -/
def Blind {α : Type} (hidden : List Location) (question : Workspace → α) : Prop :=
  ∀ workspace, question (workspace.conceal hidden) = question workspace

/-- Two workspaces differ at most in what some files hold. -/
def SameBut (hidden : List Location) (one other : Workspace) : Prop :=
  one.conceal hidden = other.conceal hidden

namespace SameBut

variable {one other : Workspace} {location place : Location} {path : Path} {content : List UInt8}

theorem answer {α : Type} {question : Workspace → α} (same : SameBut hidden one other)
    (blind : Blind hidden question) : question one = question other := by
  rw [← blind one, same, blind other]

theorem clock (same : SameBut hidden one other) : one.clock = other.clock :=
  same.answer fun _ => rfl

/-- A path leads to the same location, and to entries that look the same. -/
theorem status_cases (same : SameBut hidden one other) (path : Path) :
    (∃ failure, one.status path = .error failure ∧ other.status path = .error failure) ∨
      ∃ location entry otherEntry, one.status path = .ok (location, entry) ∧
        other.status path = .ok (location, otherEntry) ∧
          FileTree.shown hidden location entry = FileTree.shown hidden location otherEntry := by
  have alike := congrArg (fun workspace : Workspace => workspace.status path) same
  rw [status_conceal, status_conceal] at alike
  cases found : one.status path with
  | error failure =>
      cases otherFound : other.status path with
      | error reason =>
          rw [found, otherFound] at alike
          cases alike
          exact .inl ⟨failure, rfl, rfl⟩
      | ok otherHeld =>
          rw [found, otherFound] at alike
          cases alike
  | ok held =>
      cases otherFound : other.status path with
      | error reason =>
          rw [found, otherFound] at alike
          cases alike
      | ok otherHeld =>
          obtain ⟨location, entry⟩ := held
          obtain ⟨otherLocation, otherEntry⟩ := otherHeld
          rw [found, otherFound] at alike
          simp only [Except.map, Except.ok.injEq, Prod.mk.injEq] at alike
          obtain ⟨rfl, sameEntry⟩ := alike
          exact .inr ⟨location, entry, otherEntry, rfl, rfl, sameEntry⟩

/-- What is not concealed is the same. -/
theorem status_eq (same : SameBut hidden one other)
    (seen : ∀ location entry, one.status path = .ok (location, entry) → location ∉ hidden) :
    one.status path = other.status path := by
  obtain ⟨failure, failed, otherFailed⟩ | ⟨location, entry, otherEntry, found, otherFound, sameEntry⟩ :=
    same.status_cases path
  · rw [failed, otherFailed]
  · have isSeen := seen location entry found
    rw [FileTree.shown_of_notMem isSeen, FileTree.shown_of_notMem isSeen] at sameEntry
    rw [found, otherFound, sameEntry]

theorem tick (same : SameBut hidden one other) : SameBut hidden one.tick other.tick :=
  congrArg Workspace.tick same

theorem put {entry otherEntry : Entry} (same : SameBut hidden one other)
    (sameEntry : FileTree.shown hidden location entry = FileTree.shown hidden location otherEntry) :
    SameBut hidden (one.put location entry) (other.put location otherEntry) := by
  rw [SameBut, conceal_put, conceal_put, same, sameEntry]

theorem enter {entry otherEntry : Entry} (same : SameBut hidden one other)
    (sameEntry : FileTree.shown hidden location entry = FileTree.shown hidden location otherEntry) :
    SameBut hidden (one.enter location entry) (other.enter location otherEntry) := by
  rw [SameBut, conceal_enter, conceal_enter, same, sameEntry]

theorem withTemporary (same : SameBut hidden one other) (place : Location) :
    SameBut hidden (one.withTemporary place) (other.withTemporary place) := by
  refine same.tick.enter ?_
  rw [same.tick.clock]

theorem withContent (same : SameBut hidden one other) (place : Location) (content : List UInt8) :
    SameBut hidden (one.withContent place content) (other.withContent place content) := by
  refine same.put ?_
  rw [same.clock]

theorem discard (same : SameBut hidden one other) (place : Location) :
    SameBut hidden (one.discard place) (other.discard place) := by
  have erased := congrArg (fun workspace : Workspace => workspace.discard place) same
  simpa only [SameBut, conceal, Workspace.discard, changedAt, FileTree.conceal_erase] using erased

theorem makeDirectories (same : SameBut hidden one other) (path : Path) :
    (one.makeDirectories path).1 = (other.makeDirectories path).1 ∧
      SameBut hidden (one.makeDirectories path).2 (other.makeDirectories path).2 := by
  have made := congrArg (fun workspace : Workspace => workspace.makeDirectories path) same
  simp only [makeDirectories_conceal, Prod.mk.injEq] at made
  exact made

end SameBut

/-! ## Copies -/

theorem blind_placeFor (path : Path) : Blind hidden fun workspace => workspace.placeFor path := by
  intro workspace
  simp only [placeFor, resolveName, resolve_conceal]
  cases workspace.resolve false path.withoutTrailingSlashes with
  | found location =>
      simp only [conceal, FileTree.find?_conceal, Option.any_map, FileTree.isDirectory_shown]
  | _ =>
      rfl

theorem blind_temporaryDirectory (parent : Path) :
    Blind hidden fun workspace => workspace.temporaryDirectory parent :=
  fun _ => rfl

theorem blind_temporaryName (directory : Path) :
    Blind hidden fun workspace => workspace.temporaryName directory := by
  intro workspace
  simp only [temporaryName, status_conceal]
  cases workspace.status directory with
  | error failure =>
      rfl
  | ok found =>
      simp only [Except.map, conceal, FileTree.names_conceal]

theorem blind_placeForTemporary (hindrance : Hindrance) (directory : Path) (name : String) :
    Blind hidden fun workspace => workspace.placeForTemporary hindrance directory name := by
  intro workspace
  simp only [placeForTemporary, status_conceal]
  cases hindrance.pass .makeTemporary with
  | error failure =>
      rfl
  | ok _ =>
      cases workspace.status directory with
      | error failure =>
          rfl
      | ok found =>
          obtain ⟨location, entry⟩ := found
          cases entry with
          | directory modified =>
              simp only [bind, Except.bind, Except.map, FileTree.shown_directory, conceal,
                FileTree.find?_conceal, Option.isSome_map]
          | link target =>
              simp only [bind, Except.bind, Except.map, FileTree.shown_link]
          | file content modified mode =>
              obtain ⟨seen, isSeen⟩ :=
                FileTree.exists_shown_file hidden location content modified mode
              simp only [bind, Except.bind, Except.map, isSeen]

namespace SameBut

variable {one other : Workspace} {place : Location} {source destination : Path}
variable {hindrances : Hindrances}

/-- Changes that look the same fail alike or leave workspaces that differ in concealed contents. -/
theorem cases_of_map_conceal {first second : Except SystemFailure Workspace}
    (alike : first.map (conceal hidden) = second.map (conceal hidden)) :
    (∃ failure, first = .error failure ∧ second = .error failure) ∨
      ∃ one other, first = .ok one ∧ second = .ok other ∧ SameBut hidden one other := by
  cases first with
  | error failure =>
      cases second with
      | error reason =>
          cases alike
          exact .inl ⟨failure, rfl, rfl⟩
      | ok other =>
          cases alike
  | ok one =>
      cases second with
      | error reason =>
          cases alike
      | ok other =>
          exact .inr ⟨one, other, rfl, rfl, Except.ok.inj alike⟩

theorem moveTemporary (same : SameBut hidden one other)
    (atPlace : one.tree.find? place = other.tree.find? place) (hindrance : Hindrance)
    (destination : Path) :
    (one.moveTemporary hindrance place destination).map (conceal hidden) =
      (other.moveTemporary hindrance place destination).map (conceal hidden) := by
  simp only [Workspace.moveTemporary, same.answer (blind_placeFor destination), atPlace]
  cases hindrance.pass .flush with
  | error failure =>
      rfl
  | ok _ =>
      cases hindrance.pass .move with
      | error failure =>
          rfl
      | ok _ =>
          cases other.placeFor destination with
          | error failure =>
              rfl
          | ok location =>
              simp only [bind, Except.bind]
              cases other.tree.find? place with
              | none =>
                  rfl
              | some entry =>
                  exact congrArg Except.ok ((same.discard place).enter rfl)

theorem fillAndMove (same : SameBut hidden one other) (hindrance : Hindrance) (place : Location)
    (opened : Entry) (destination : Path) :
    (one.fillAndMove hindrance place opened destination).1 =
        (other.fillAndMove hindrance place opened destination).1 ∧
      SameBut hidden (one.fillAndMove hindrance place opened destination).2
        (other.fillAndMove hindrance place opened destination).2 := by
  have made := same.withTemporary place
  cases opened with
  | directory modified =>
      exact ⟨rfl, made.discard place⟩
  | link target =>
      exact ⟨rfl, made.discard place⟩
  | file content modified mode =>
      unfold Workspace.fillAndMove fill
      cases hindrance.pass .write with
      | error failure =>
          exact ⟨rfl, (made.withContent place _).discard place⟩
      | ok _ =>
          have filled := made.withContent place content
          have atPlace : ((one.withTemporary place).withContent place content).tree.find? place =
              ((other.withTemporary place).withContent place content).tree.find? place := by
            simp only [Workspace.withContent, Workspace.put, FileTree.find?_set_self, made.clock]
          obtain ⟨failure, failed, otherFailed⟩ | ⟨moved, otherMoved, done, otherDone, sameMoved⟩ :=
            cases_of_map_conceal (filled.moveTemporary atPlace hindrance destination)
          · simp only [failed, otherFailed]
            exact ⟨trivial, filled.discard place⟩
          · simp only [done, otherDone]
            exact ⟨trivial, sameMoved⟩

theorem setMode (same : SameBut hidden one other) (hindrance : Hindrance) (path : Path) (mode : Nat) :
    (one.setMode hindrance path mode).map (conceal hidden) =
      (other.setMode hindrance path mode).map (conceal hidden) := by
  simp only [Workspace.setMode]
  cases hindrance.pass .setPermissions with
  | error failure =>
      rfl
  | ok _ =>
      obtain ⟨failure, failed, otherFailed⟩ |
          ⟨location, entry, otherEntry, found, otherFound, sameEntry⟩ := same.status_cases path
      · rw [failed, otherFailed]
        rfl
      · rw [found, otherFound]
        refine congrArg Except.ok (same.put ?_)
        rw [FileTree.shown_withMode, FileTree.shown_withMode, sameEntry]

theorem replace (same : SameBut hidden one other)
    (seen : ∀ location entry, one.status source = .ok (location, entry) → location ∉ hidden)
    (hindrance : Hindrance) (name : String) (destination : Path) :
    (one.replace hindrance name source destination).1 =
        (other.replace hindrance name source destination).1 ∧
      SameBut hidden (one.replace hindrance name source destination).2
        (other.replace hindrance name source destination).2 := by
  have sameSource : one.openSource hindrance source = other.openSource hindrance source := by
    simp only [openSource, same.status_eq seen]
  simp only [Workspace.replace, sameSource]
  cases destination.parent? with
  | none =>
      exact ⟨rfl, same⟩
  | some parent =>
      cases other.openSource hindrance source with
      | error failure =>
          exact ⟨rfl, same⟩
      | ok opened =>
          have sameDirectory : one.temporaryDirectory parent = other.temporaryDirectory parent :=
            same.answer (blind_temporaryDirectory parent)
          simp only [sameDirectory, same.answer (blind_placeForTemporary hindrance _ name)]
          cases other.placeForTemporary hindrance (other.temporaryDirectory parent) name with
          | error failure =>
              exact ⟨rfl, same⟩
          | ok place =>
              obtain ⟨sameOutcome, sameAfter⟩ := same.fillAndMove hindrance place opened destination
              exact ⟨congrArg (Except.mapError FileFailure.system) sameOutcome, sameAfter⟩

theorem copyThrough (same : SameBut hidden one other)
    (seen : ∀ location entry, one.status source = .ok (location, entry) → location ∉ hidden)
    (hindrance : Hindrance) (name : String) (destination : Path) :
    (one.copyThrough hindrance name source destination).1 =
        (other.copyThrough hindrance name source destination).1 ∧
      SameBut hidden (one.copyThrough hindrance name source destination).2
        (other.copyThrough hindrance name source destination).2 := by
  obtain ⟨sameOutcome, sameReplaced⟩ := same.replace seen hindrance name destination
  unfold Workspace.copyThrough
  generalize one.replace hindrance name source destination = first at sameOutcome sameReplaced ⊢
  generalize other.replace hindrance name source destination = second at sameOutcome sameReplaced ⊢
  obtain ⟨outcome, replaced⟩ := first
  obtain ⟨otherOutcome, otherReplaced⟩ := second
  cases sameOutcome
  cases outcome with
  | error failure =>
      exact ⟨rfl, sameReplaced⟩
  | ok mode =>
      obtain ⟨failure, failed, otherFailed⟩ | ⟨left, otherLeft, done, otherDone, sameLeft⟩ :=
        cases_of_map_conceal (sameReplaced.setMode hindrance destination mode)
      · simp only [failed, otherFailed]
        exact ⟨trivial, sameReplaced⟩
      · simp only [done, otherDone]
        exact ⟨trivial, sameLeft⟩

/-- A copy goes on alike whatever is concealed, unless it is a concealed file that is copied. -/
theorem copy (same : SameBut hidden one other)
    (seen : ∀ location entry, one.status source = .ok (location, entry) → location ∉ hidden)
    (destination : Path) :
    (one.copy hindrances source destination).1 = (other.copy hindrances source destination).1 ∧
      SameBut hidden (one.copy hindrances source destination).2
        (other.copy hindrances source destination).2 := by
  unfold Workspace.copy
  cases destination.parent? with
  | none =>
      rw [same.clock]
      exact same.copyThrough seen _ ".tmp" destination
  | some parent =>
      have sameName : one.temporaryName (one.temporaryDirectory parent) =
          other.temporaryName (other.temporaryDirectory parent) := by
        rw [same.answer (blind_temporaryDirectory parent)]
        exact same.answer (blind_temporaryName _)
      dsimp only
      rw [sameName, same.clock]
      exact same.copyThrough seen _ _ destination

end SameBut

end Workspace

end ClojureBuild
