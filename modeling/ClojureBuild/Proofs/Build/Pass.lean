import ClojureBuild.Proofs.Build.Coverage
import ClojureBuild.Proofs.Build.Mirrors
import ClojureBuild.Proofs.Workspace.Destinations

/-!
# One pass over a root

What a pass does to a workspace without links, wherever its target is and however root and target are
written.  The target need not be there when the pass begins.  Then the first file is copied, whatever
stands at its place, and the directories made for it decide where the other copies are.  From then on
every file is judged by what stands at its place, and no file is in the way of another one.
-/

namespace ClojureBuild

namespace Workspace

variable {before between after workspace : Workspace} {root place : Location}
variable {names inner : List String} {copied more : List (List String)}
variable {made wider : Location → Prop} {location : Location}

/-! ## Copies below a place -/

/-- Files below a root have been copied to the same names below a place.  Apart from that only
directories have been made, at certain locations.  What has changed are the directories of the copies,
those that have been made and those that hold them. -/
structure Copies (root place : Location) (copied : List (List String)) (made : Location → Prop)
    (before after : Workspace) : Prop where
  plain : after.tree.Plain
  current : after.current = before.current
  clock : before.clock.nanoseconds ≤ after.clock.nanoseconds
  grows : before.tree.Grows after.tree
  written : ∀ names ∈ copied, ∃ content modified mode changed,
    before.tree.find? (root ++ names) = some (.file content modified mode) ∧
      after.tree.find? (place ++ names) = some (.file content changed mode) ∧
        before.clock.nanoseconds < changed.nanoseconds ∧
          changed.nanoseconds ≤ after.clock.nanoseconds
  elsewhere : ∀ location, (∀ names ∈ copied, location ≠ place ++ names) →
    after.tree.find? location = before.tree.find? location ∨
      (before.tree.find? location = none ∧ after.tree.HoldsDirectory location ∧ made location)
  changed : ∀ location, after.changes.lookup location = before.changes.lookup location ∨
    (∃ names ∈ copied, location = (place ++ names).dropLast) ∨
      ∃ new, before.tree.find? new = none ∧ made new ∧ (new = location ∨ new.dropLast = location)

namespace Copies

theorem of_onlyMade (only : OnlyMade made before after) (root place : Location) :
    Copies root place [] made before after where
  plain := only.plain
  current := only.current
  clock := only.clock
  grows := only.grows
  written := by
    intro names member
    cases member
  elsewhere := by
    intro location _
    cases held : before.tree.find? location with
    | some entry =>
        exact Or.inl (only.kept held)
    | none =>
        cases found : after.tree.find? location with
        | none =>
            exact Or.inl rfl
        | some entry =>
            obtain ⟨inMade, isDirectory⟩ := only.made held found
            right
            refine ⟨rfl, ?_, inMade⟩
            rw [FileTree.holdsDirectory_iff, found]
            exact isDirectory
  changed := fun location => (only.changed location).imp_right Or.inr

theorem mono (copies : Copies root place copied made before after)
    (implied : ∀ location, made location → wider location) :
    Copies root place copied wider before after where
  plain := copies.plain
  current := copies.current
  clock := copies.clock
  grows := copies.grows
  written := copies.written
  elsewhere := by
    intro location elsewhere
    cases copies.elsewhere location elsewhere with
    | inl same =>
        exact Or.inl same
    | inr isMade =>
        exact Or.inr ⟨isMade.1, isMade.2.1, implied location isMade.2.2⟩
  changed := by
    intro location
    refine (copies.changed location).imp_right (Or.imp_right ?_)
    rintro ⟨new, absent, inMade, here⟩
    exact ⟨new, absent, implied new inMade, here⟩

/-- What is missing afterwards has been missing before. -/
theorem absent_before (copies : Copies root place copied made before after)
    (absent : after.tree.find? location = none) : before.tree.find? location = none := by
  have elsewhere : ∀ names ∈ copied, location ≠ place ++ names := by
    rintro names member rfl
    obtain ⟨content, modified, mode, changed, -, copy, -⟩ := copies.written names member
    rw [absent] at copy
    cases copy
  cases copies.elsewhere location elsewhere with
  | inl same =>
      rw [← same, absent]
  | inr isMade =>
      exact isMade.1

/-- A file that is not written over stays as it is. -/
theorem find?_eq_of_file
    (copies : Copies root place copied made before after)
    (elsewhere : ∀ names ∈ copied, location ≠ place ++ names)
    (file : before.tree.HoldsFile location) :
    after.tree.find? location = before.tree.find? location := by
  apply (copies.elsewhere location elsewhere).resolve_right
  intro isMade
  obtain ⟨content, modified, mode, found⟩ := file
  rw [found] at isMade
  cases isMade.1

/-- What comes to stand where nothing is copied to is a directory. -/
theorem find?_eq_of_file_after
    (copies : Copies root place copied made before after)
    (elsewhere : ∀ names ∈ copied, location ≠ place ++ names)
    (file : after.tree.HoldsFile location) :
    after.tree.find? location = before.tree.find? location := by
  apply (copies.elsewhere location elsewhere).resolve_right
  intro isMade
  exact file.not_holdsDirectory isMade.2.1

theorem trans
    (first : Copies root place copied made before between)
    (second : Copies root place more made between after)
    (apart : ∀ names ∈ copied, ∀ inner ∈ more, root ++ inner ≠ place ++ names)
    (once : ∀ names ∈ copied, names ∉ more) :
    Copies root place (copied ++ more) made before after where
  plain := second.plain
  current := second.current.trans first.current
  clock := Int.le_trans first.clock second.clock
  grows := first.grows.trans second.grows
  written := by
    intro names member
    have firstClock := first.clock
    have secondClock := second.clock
    cases List.mem_append.1 member with
    | inl inFirst =>
        obtain ⟨content, modified, mode, changed, source, copy, later, bounded⟩ :=
          first.written names inFirst
        have differs : ∀ inner ∈ more, place ++ names ≠ place ++ inner := by
          intro inner inMore same
          exact once names inFirst (List.append_cancel_left same ▸ inMore)
        have kept := second.find?_eq_of_file differs ⟨content, changed, mode, copy⟩
        exact ⟨content, modified, mode, changed, source, kept.trans copy, later,
          Int.le_trans bounded secondClock⟩
    | inr inSecond =>
        obtain ⟨content, modified, mode, changed, source, copy, later, bounded⟩ :=
          second.written names inSecond
        have kept := first.find?_eq_of_file_after
          (fun other inCopied => apart other inCopied names inSecond)
          ⟨content, modified, mode, source⟩
        exact ⟨content, modified, mode, changed, kept.symm.trans source, copy,
          Int.lt_of_le_of_lt firstClock later, bounded⟩
  elsewhere := by
    intro location elsewhere
    have inFirst := first.elsewhere location
      fun names member => elsewhere names (List.mem_append_left more member)
    have inSecond := second.elsewhere location
      fun names member => elsewhere names (List.mem_append_right copied member)
    cases inSecond with
    | inl same =>
        rw [same]
        cases inFirst with
        | inl unchanged =>
            exact Or.inl unchanged
        | inr isMade =>
            obtain ⟨absent, ⟨modified, directory⟩, inMade⟩ := isMade
            exact Or.inr ⟨absent, ⟨modified, same.trans directory⟩, inMade⟩
    | inr isMade =>
        obtain ⟨absent, directory, inMade⟩ := isMade
        cases inFirst with
        | inl unchanged =>
            exact Or.inr ⟨unchanged.symm.trans absent, directory, inMade⟩
        | inr earlier =>
            obtain ⟨modified, held⟩ := earlier.2.1
            rw [absent] at held
            cases held
  changed := by
    intro location
    rcases second.changed location with same | ⟨names, inMore, isAbove⟩ | ⟨new, absent, isMade⟩
    · rw [same]
      refine (first.changed location).imp_right (Or.imp_left ?_)
      rintro ⟨names, inCopied, isAbove⟩
      exact ⟨names, List.mem_append_left more inCopied, isAbove⟩
    · exact Or.inr (Or.inl ⟨names, List.mem_append_right copied inMore, isAbove⟩)
    · exact Or.inr (Or.inr ⟨new, first.absent_before absent, isMade⟩)

end Copies

/-! ## Current copies -/

/-- The file at some names below a place is not older than the one at these names below a root. -/
def isCurrentCopy (workspace : Workspace) (root place : Location) (names : List String) : Bool :=
  match workspace.tree.find? (root ++ names), workspace.tree.find? (place ++ names) with
  | some source, some copy =>
      source.modified.atMost (workspace.lastModified (place ++ names) copy)
  | _, _ => false

theorem isCurrentCopy_iff :
    workspace.isCurrentCopy root place names = true ↔
      ∃ source, workspace.tree.find? (root ++ names) = some source ∧
        workspace.NotOlder (place ++ names) source.modified := by
  unfold isCurrentCopy NotOlder
  cases workspace.tree.find? (root ++ names) with
  | none =>
      simp
  | some source =>
      cases workspace.tree.find? (place ++ names) with
      | none =>
          simp
      | some copy =>
          simp [Instant.atMost]

theorem isCurrentCopy_congr
    (source : after.tree.find? (root ++ names) = before.tree.find? (root ++ names))
    (copy : LeftAlone before after (place ++ names)) :
    after.isCurrentCopy root place names = before.isCurrentCopy root place names := by
  simp only [isCurrentCopy, source, copy.entry, copy.lastModified]

end Workspace

namespace Build

open Workspace

variable {before between after : Workspace} {rootPath target source : Path}
variable {root place location : Location} {names : List String} {listed others : List (List String)}
variable {entry : Entry} {report : ResourceReport} {excluded : List Namespace}

/-! ## One file -/

/-- A file has been written to its names below the directory that the target opens to, after the
directories for it have been made. -/
structure Landed (target : Path) (place : Location) (names : List String) (entry : Entry)
    (before ready after : Workspace) : Prop where
  only : OnlyMade
    (fun location =>
      OnTheWayFrom (FileTree.startOf before.current target) target location ∨
        Needed place names location)
    before ready
  opens : ready.Opens target place
  directory : ready.tree.HoldsDirectory (place ++ names).dropLast
  noDirectory : ¬ ready.tree.HoldsDirectory (place ++ names)
  fileNames : ∀ name ∈ names, FileName name
  written : ∃ content modified mode,
    entry = .file content modified mode ∧ after = ready.written (place ++ names) content mode

theorem exists_landed_of_copiedTo
    (plain : before.tree.Plain) (nonempty : names ≠ [])
    (plainNames : ∀ name ∈ names, PlainName name)
    (found : before.status source = .ok (location, entry))
    (copied : CopiedTo source (target.below names) before after) :
    ∃ ready, Landed target (before.spelled target) names entry before ready after := by
  obtain ⟨parent, ready, above, reached, taken, content, modified, mode, isParent, prepared, works,
    isFile, placed, isWritten⟩ := copied
  have only := onlyMade_makeDirectories_parent plain nonempty plainNames isParent
  rw [prepared] at only
  obtain ⟨directory, opens, rfl, holds, noDirectory, fileNames⟩ :=
    of_placeFor_below only.plain nonempty plainNames placed
  rw [eq_of_worksIn_below only.plain nonempty plainNames opens works, written_changing]
    at isWritten
  have isPlace : directory = before.spelled target := by
    rw [opens.eq_spelled only.plain, spelled_eq_of_current only.current]
  rw [only.status plain found] at isFile
  cases isFile
  rw [isPlace] at opens holds noDirectory isWritten
  exact ⟨ready, only, opens, holds, noDirectory, fileNames, content, modified, mode, rfl, isWritten⟩

namespace Landed

variable {ready : Workspace}

theorem copies_ready
    (landed : Landed target place names entry before ready after) (nonempty : names ≠ [])
    (made : Location → Prop)
    (found : ready.tree.find? (root ++ names) = some entry) :
    Copies root place [names] made ready after := by
  obtain ⟨content, modified, mode, rfl, rfl⟩ := landed.written
  obtain ⟨front, last, split⟩ := (List.eq_nil_or_concat names).resolve_left nonempty
  rw [List.concat_eq_append] at split
  have isPlain : (ready.written (place ++ names) content mode).tree.Plain := by
    have directory := landed.directory
    have noDirectory := landed.noDirectory
    have lastName := landed.fileNames last (by simp [split])
    rw [split, ← List.append_assoc] at noDirectory ⊢
    rw [split, ← List.append_assoc, List.dropLast_concat] at directory
    exact plain_written landed.only.plain directory lastName noDirectory content mode
  have clock := (stamped_written landed.only.plain isPlain).clock
  refine ⟨isPlain, rfl, clock, FileTree.Grows.set_file landed.noDirectory _ _ _, ?_, ?_, ?_⟩
  · intro other member
    rw [List.mem_singleton.1 member]
    refine ⟨content, modified, mode, ready.tick.clock, found, FileTree.find?_set_self _ _ _, ?_, ?_⟩
    · simp only [tick, Instant.next]
      omega
    · exact Int.le_refl _
  · intro other elsewhere
    left
    exact FileTree.find?_set_of_ne (elsewhere names (List.mem_singleton_self names)) _ _
  · intro other
    by_cases above : other = (place ++ names).dropLast
    · exact Or.inr (Or.inl ⟨names, List.mem_singleton_self names, above⟩)
    · exact Or.inl (lookup_changedAt.trans (if_neg above))

end Landed

/-! ## All files -/

/-- A file below a root with its destination. -/
def pairOf (rootPath target : Path) (names : List String) : Path × Path :=
  (target.below names, rootPath.below names)

/-- Files that a pass over a root can take up: their destinations are none of them. -/
structure TakesUp (rootPath : Path) (root place : Location) (listed : List (List String))
    (workspace : Workspace) : Prop where
  plain : workspace.tree.Plain
  leads : workspace.LeadsToDirectory rootPath root
  files : ∀ names ∈ listed, workspace.tree.HoldsFile (root ++ names)
  apart : ∀ names ∈ listed, ∀ inner ∈ listed, root ++ inner ≠ place ++ names
  distinct : listed.Nodup

namespace TakesUp

theorem names_ne_nil (takesUp : TakesUp rootPath root place listed before)
    (member : names ∈ listed) : names ≠ [] := by
  rintro rfl
  have file := takesUp.files [] member
  rw [List.append_nil] at file
  exact file.not_holdsDirectory takesUp.leads.holdsDirectory

theorem plainNames (takesUp : TakesUp rootPath root place listed before)
    (member : names ∈ listed) : ∀ name ∈ names, PlainName name :=
  takesUp.plain.plainName_of_holdsFile (takesUp.files names member)

theorem exists_status (takesUp : TakesUp rootPath root place listed before)
    (member : names ∈ listed) :
    ∃ content modified mode,
      before.tree.find? (root ++ names) = some (.file content modified mode) ∧
        before.status (rootPath.below names) =
          .ok (root ++ names, .file content modified mode) := by
  obtain ⟨content, modified, mode, found⟩ := takesUp.files names member
  exact ⟨content, modified, mode, found,
    (status_below_iff takesUp.plain takesUp.leads (takesUp.plainNames member)).2 ⟨rfl, found⟩⟩

theorem not_longer {inner : List String} (takesUp : TakesUp rootPath root place listed before)
    (member : names ∈ listed) (inListed : inner ∈ listed) :
    ¬ ∃ rest, rest ≠ [] ∧ inner = names ++ rest :=
  not_longer_of_files takesUp.plain (takesUp.files names member) (takesUp.files inner inListed)

/-- No directory is needed at the destination of a file, nor in it. -/
theorem not_needed {inner : List String} (takesUp : TakesUp rootPath root place listed before)
    (member : names ∈ listed) (inListed : inner ∈ listed) :
    ∀ new, Needed place inner new → new ≠ place ++ names ∧ new.dropLast ≠ place ++ names := by
  intro new needed
  constructor
  · rintro rfl
    exact takesUp.not_longer member inListed (longer_of_needed needed)
  · exact fun holds => takesUp.not_longer member inListed (longer_of_holds_needed needed holds)

theorem tail (takesUp : TakesUp rootPath root place (names :: others) before) :
    TakesUp rootPath root place others before where
  plain := takesUp.plain
  leads := takesUp.leads
  files := fun other member => takesUp.files other (List.mem_cons_of_mem names member)
  apart := fun other member inner inOthers =>
    takesUp.apart other (List.mem_cons_of_mem names member) inner (List.mem_cons_of_mem names inOthers)
  distinct := (List.nodup_cons.1 takesUp.distinct).2

/-- Files can be taken up after directories have been made and others copied. -/
theorem later {made : Location → Prop} {copied : List (List String)}
    (takesUp : TakesUp rootPath root place listed before)
    (copies : Copies root place copied made before after) :
    TakesUp rootPath root place listed after where
  plain := copies.plain
  leads := by
    have leads := takesUp.leads
    rw [leadsToDirectory_iff_opens takesUp.plain] at leads
    rw [leadsToDirectory_iff_opens copies.plain]
    exact ⟨leads.1, leads.2.of_grows takesUp.plain copies.plain copies.current copies.grows⟩
  files := fun other member => copies.grows.files (takesUp.files other member)
  apart := takesUp.apart
  distinct := takesUp.distinct

/-- Copying some of the files leaves the destinations of the others alone. -/
theorem leftAlone {made : Location → Prop} {copied : List (List String)}
    (takesUp : TakesUp rootPath root place listed before)
    (copies : Copies root place copied made before after)
    (among : ∀ names ∈ copied, names ∈ listed) (member : names ∈ listed)
    (notCopied : names ∉ copied)
    (clear : ∀ new, made new → new ≠ place ++ names ∧ new.dropLast ≠ place ++ names) :
    LeftAlone before after (place ++ names) where
  entry := by
    apply (copies.elsewhere _ _).resolve_right
    · exact fun isMade => (clear _ isMade.2.2).1 rfl
    · intro inner inCopied same
      exact notCopied (List.append_cancel_left same ▸ inCopied)
  change := by
    apply (copies.changed _).resolve_right
    rintro (⟨inner, inCopied, above⟩ | ⟨new, -, isMade, here | above⟩)
    · have inListed := among inner inCopied
      exact takesUp.not_longer member inListed
        (longer_of_holds (takesUp.names_ne_nil inListed) above.symm)
    · exact (clear new isMade).1 here
    · exact (clear new isMade).2 above

/-- Copying a file changes neither another one nor what stands at the destination of that one. -/
theorem isCurrentCopy_eq {made : Location → Prop}
    (takesUp : TakesUp rootPath root place (names :: others) before)
    (copies : Copies root place [names] made before after) {other : List String}
    (member : other ∈ others)
    (clear : ∀ new, made new → new ≠ place ++ other ∧ new.dropLast ≠ place ++ other) :
    after.isCurrentCopy root place other = before.isCurrentCopy root place other := by
  have inListed := List.mem_cons_of_mem names member
  have differs : other ∉ [names] := by
    rw [List.mem_singleton]
    rintro rfl
    exact (List.nodup_cons.1 takesUp.distinct).1 member
  refine isCurrentCopy_congr ?_ (takesUp.leftAlone copies (by simp) inListed differs clear)
  apply copies.find?_eq_of_file _ (takesUp.files other inListed)
  intro inner isNames
  rw [List.mem_singleton.1 isNames]
  exact takesUp.apart names List.mem_cons_self other inListed

end TakesUp

/-- The names that have been copied. -/
def copiedAmong (kept : List String → Bool) (listed : List (List String)) : List (List String) :=
  listed.filter fun names => !kept names

theorem mem_of_mem_copiedAmong {kept : List String → Bool}
    (member : names ∈ copiedAmong kept listed) : names ∈ listed :=
  List.mem_of_mem_filter member

theorem notMem_copiedAmong {kept : List String → Bool} (isKept : kept names = true) :
    names ∉ copiedAmong kept listed := by
  simp [copiedAmong, isKept]

theorem copiedAmong_congr {kept same : List String → Bool}
    (agree : ∀ names ∈ listed, kept names = same names) :
    copiedAmong kept listed = copiedAmong same listed := by
  apply List.filter_congr
  intro names member
  rw [agree names member]

theorem copiedAmong_cons_of_kept {kept : List String → Bool} (isKept : kept names = true)
    (others : List (List String)) :
    copiedAmong kept (names :: others) = copiedAmong kept others :=
  List.filter_cons_of_neg (by simp [isKept])

theorem copiedAmong_cons_of_not_kept {kept : List String → Bool} (notKept : kept names = false)
    (others : List (List String)) :
    copiedAmong kept (names :: others) = names :: copiedAmong kept others :=
  List.filter_cons_of_pos (by simp [notKept])

/-- The report on files some of which have been kept and the others copied. -/
def reportOn (target : Path) (kept : List String → Bool) (listed : List (List String)) :
    ResourceReport :=
  ⟨(copiedAmong kept listed).map target.below, (listed.filter kept).map target.below⟩

theorem reportOn_cons (target : Path) (kept : List String → Bool) (names : List String)
    (others : List (List String)) :
    reportOn target kept (names :: others) =
      .append
        (if kept names then ⟨[], [target.below names]⟩ else ⟨[target.below names], []⟩)
        (reportOn target kept others) := by
  cases kept? : kept names with
  | true =>
      simp [reportOn, copiedAmong, ResourceReport.append, kept?]
  | false =>
      simp [reportOn, copiedAmong, ResourceReport.append, kept?]

theorem reportOn_congr {kept same : List String → Bool}
    (agree : ∀ names ∈ listed, kept names = same names) :
    reportOn target kept listed = reportOn target same listed := by
  rw [reportOn, reportOn, List.filter_congr agree, copiedAmong_congr agree]

/-- Directories needed for files that have been copied. -/
def NeededFor (place : Location) (copied : List (List String)) (location : Location) : Prop :=
  ∃ names ∈ copied, Needed place names location

/-- The first file has been copied, and then some of the others. -/
theorem Copies.cons {kept : List String → Bool}
    (takesUp : TakesUp rootPath root place (names :: others) workspace)
    (first : Copies root place [names] made before between)
    (needed : ∀ location, made location → Needed place names location)
    (rest : Copies root place (copiedAmong kept others) (NeededFor place (copiedAmong kept others))
      between after) :
    Copies root place (names :: copiedAmong kept others)
      (NeededFor place (names :: copiedAmong kept others)) before after := by
  apply (first.mono _).trans (rest.mono _)
  · intro other isNames inner inOthers
    rw [List.mem_singleton.1 isNames]
    exact takesUp.apart names List.mem_cons_self inner
      (List.mem_cons_of_mem names (mem_of_mem_copiedAmong inOthers))
  · intro other isNames inOthers
    rw [List.mem_singleton.1 isNames] at inOthers
    exact (List.nodup_cons.1 takesUp.distinct).1 (mem_of_mem_copiedAmong inOthers)
  · intro location isMade
    exact ⟨names, List.mem_cons_self, needed location isMade⟩
  · intro location isMade
    obtain ⟨other, inOthers, neededThere⟩ := isMade
    exact ⟨other, List.mem_cons_of_mem names inOthers, neededThere⟩

/-- Once the target opens, what stands at the destinations decides which files are copied. -/
theorem copies_of_mirrors
    (takesUp : TakesUp rootPath root place listed before) (opens : before.Opens target place)
    (mirrors : Mirrors (listed.map (pairOf rootPath target)) report before after) :
    report = reportOn target (before.isCurrentCopy root place) listed ∧
      Copies root place (copiedAmong (before.isCurrentCopy root place) listed)
        (NeededFor place (copiedAmong (before.isCurrentCopy root place) listed)) before after := by
  induction listed generalizing before report with
  | nil =>
      cases mirrors
      exact ⟨rfl, Copies.of_onlyMade (OnlyMade.refl takesUp.plain _) root place⟩
  | cons names others inductionHypothesis =>
      have nonempty := takesUp.names_ne_nil List.mem_cons_self
      have plainNames := takesUp.plainNames List.mem_cons_self
      obtain ⟨content, modified, mode, held, found⟩ := takesUp.exists_status List.mem_cons_self
      have judged :
          before.isFresh (target.below names) (rootPath.below names) = .ok true ↔
            before.isCurrentCopy root place names = true := by
        rw [isFresh_below_iff_opens takesUp.plain nonempty plainNames found, isCurrentCopy_iff, held]
        constructor
        · rintro ⟨directory, otherwise, notOlder⟩
          exact ⟨_, rfl, opens.unique otherwise ▸ notOlder⟩
        · rintro ⟨source, isSource, notOlder⟩
          cases isSource
          exact ⟨place, opens, notOlder⟩
      cases mirrors with
      | upToDate fresh behind =>
          obtain ⟨rfl, copies⟩ := inductionHypothesis takesUp.tail opens behind
          have current := judged.1 fresh
          rw [reportOn_cons, current, if_pos rfl, copiedAmong_cons_of_kept current]
          exact ⟨rfl, copies⟩
      | written stale copied behind =>
          have notCurrent : before.isCurrentCopy root place names = false := by
            cases current : before.isCurrentCopy root place names with
            | false =>
                rfl
            | true =>
                rw [judged.2 current] at stale
                cases stale
          obtain ⟨ready, landed⟩ :=
            exists_landed_of_copiedTo takesUp.plain nonempty plainNames found copied
          rw [← opens.eq_spelled takesUp.plain] at landed
          have only := landed.only.onlyNeeded takesUp.plain opens
          have first :=
            (Copies.of_onlyMade only root place).trans
              (landed.copies_ready nonempty (Needed place names) (only.kept held))
              (by simp) (by simp)
          rw [List.nil_append] at first
          obtain ⟨rfl, copies⟩ :=
            inductionHypothesis (takesUp.tail.later first)
              (opens.of_grows takesUp.plain first.plain first.current first.grows) behind
          have agree (other : List String) (member : other ∈ others) :=
            takesUp.isCurrentCopy_eq first member
              (takesUp.not_needed (List.mem_cons_of_mem names member) List.mem_cons_self)
          rw [copiedAmong_congr agree] at copies
          rw [reportOn_cons, notCurrent, if_neg Bool.false_ne_true, reportOn_congr agree,
            copiedAmong_cons_of_not_kept notCurrent]
          exact ⟨rfl, Copies.cons takesUp first (fun _ needed => needed) copies⟩

/-- How a pass has judged the files that it takes up.  A file has been kept when its copy was current,
and never the first file when the target did not open. -/
structure Judges (target : Path) (root place : Location) (listed : List (List String))
    (kept : List String → Bool) (before ready after : Workspace) : Prop where
  made : OnlyMade
    (fun location => ∃ names ∈ copiedAmong kept listed, listed.head? = some names ∧
      (OnTheWayFrom (FileTree.startOf before.current target) target location ∨
        Needed place names location))
    before ready
  copies : Copies root place (copiedAmong kept listed)
    (NeededFor place (copiedAmong kept listed)) ready after
  opens : listed ≠ [] → ready.Opens target place
  ready_eq : before.Opens target place → ready = before
  kept_iff : ∀ names ∈ listed, kept names = true ↔
    (listed.head? = some names → before.Opens target place) ∧
      ready.isCurrentCopy root place names = true

theorem judges_of_opens
    (takesUp : TakesUp rootPath root place listed before) (opens : before.Opens target place)
    (mirrors : Mirrors (listed.map (pairOf rootPath target)) report before after) :
    report = reportOn target (before.isCurrentCopy root place) listed ∧
      Judges target root place listed (before.isCurrentCopy root place) before before after := by
  obtain ⟨isReport, copies⟩ := copies_of_mirrors takesUp opens mirrors
  refine ⟨isReport, OnlyMade.refl takesUp.plain _, copies, fun _ => opens, fun _ => rfl, ?_⟩
  intro names member
  simp [opens]

/-- Where the target does not open, the first file is copied before the others are judged. -/
theorem exists_judges_of_not_opens
    (takesUp : TakesUp rootPath root place (names :: others) before)
    (isPlace : before.spelled target = place) (closed : ¬ before.Opens target place)
    (mirrors : Mirrors ((names :: others).map (pairOf rootPath target)) report before after) :
    ∃ kept ready, report = reportOn target kept (names :: others) ∧
      Judges target root place (names :: others) kept before ready after := by
  have nonempty := takesUp.names_ne_nil List.mem_cons_self
  have plainNames := takesUp.plainNames List.mem_cons_self
  obtain ⟨content, modified, mode, held, found⟩ := takesUp.exists_status List.mem_cons_self
  cases mirrors with
  | upToDate fresh behind =>
      obtain ⟨directory, opens, -⟩ :=
        (isFresh_below_iff_opens takesUp.plain nonempty plainNames found).1 fresh
      rw [← isPlace, ← opens.eq_spelled takesUp.plain] at closed
      exact absurd opens closed
  | written stale copied behind =>
      obtain ⟨ready, landed⟩ :=
        exists_landed_of_copiedTo takesUp.plain nonempty plainNames found copied
      rw [isPlace] at landed
      have prepared := Copies.of_onlyMade landed.only root place
      have readyTakesUp := takesUp.later prepared
      have first := landed.copies_ready nonempty (fun _ => False) (landed.only.kept held)
      have opensLater :=
        landed.opens.of_grows landed.only.plain first.plain first.current first.grows
      obtain ⟨isReport, copies⟩ :=
        copies_of_mirrors (readyTakesUp.tail.later first) opensLater behind
      have agree (other : List String) (member : other ∈ others) :=
        readyTakesUp.isCurrentCopy_eq first member fun _ impossible => impossible.elim
      let kept := fun inner => !(inner == names) && ready.isCurrentCopy root place inner
      have keptOthers : ∀ inner ∈ others, ready.isCurrentCopy root place inner = kept inner := by
        intro inner member
        have differs : inner ≠ names := by
          rintro rfl
          exact (List.nodup_cons.1 takesUp.distinct).1 member
        simp [kept, differs]
      have notKept : kept names = false := by
        simp [kept]
      rw [reportOn_congr agree, reportOn_congr keptOthers] at isReport
      rw [copiedAmong_congr agree, copiedAmong_congr keptOthers] at copies
      have sameCopied := copiedAmong_cons_of_not_kept notKept others
      refine ⟨kept, ready, ?_, ?_, ?_, ?_, ?_, ?_⟩
      · rw [reportOn_cons, notKept, if_neg Bool.false_ne_true, isReport]
      · refine landed.only.mono fun location onTheWay => ⟨names, ?_, rfl, onTheWay⟩
        simp [sameCopied]
      · rw [sameCopied]
        exact Copies.cons takesUp first (fun _ impossible => impossible.elim) copies
      · exact fun _ => landed.opens
      · exact fun opens => absurd opens closed
      · intro inner member
        by_cases isFirst : inner = names
        · subst isFirst
          simp [notKept, closed]
        · have inOthers := (List.mem_cons.1 member).resolve_left isFirst
          rw [← keptOthers inner inOthers, List.head?_cons]
          simp [Ne.symm isFirst]

theorem exists_judges
    (takesUp : TakesUp rootPath root place listed before)
    (isPlace : before.spelled target = place)
    (mirrors : Mirrors (listed.map (pairOf rootPath target)) report before after) :
    ∃ kept ready, report = reportOn target kept listed ∧
      Judges target root place listed kept before ready after := by
  by_cases opens : before.Opens target place
  · exact ⟨_, before, judges_of_opens takesUp opens mirrors⟩
  · cases listed with
    | nil =>
        cases mirrors
        refine ⟨fun _ => true, before, rfl, OnlyMade.refl takesUp.plain _, ?_, ?_, fun _ => rfl, ?_⟩
        · exact Copies.of_onlyMade (OnlyMade.refl takesUp.plain _) root place
        · exact fun nonempty => absurd rfl nonempty
        · intro names member
          cases member
    | cons names others =>
        exact exists_judges_of_not_opens takesUp isPlace opens mirrors

/-! ## The files of a pass -/

section Listed

variable {workspace : Workspace} {progress later : Progress} {hindrances : Hindrances}

/-- The names that lead from a root to the files that a walk over it meets. -/
def walkedNames (workspace : Workspace) (root : Path) : List (List String) :=
  if root.same standardInput then [] else workspace.fileNames (workspace.spelled root)

/-- The names of the files that a pass takes up: those of a walk over the root that lie outside the
target and are no excluded sources. -/
def passNames (workspace : Workspace) (root target : Path) (excluded : List Namespace) :
    List (List String) :=
  (walkedNames workspace root).filter fun names =>
    !(workspace.spelled target).isPrefixOf (workspace.spelled root ++ names) &&
      isResource excluded names

/-- A target that neither equals nor contains a root.  When it lies below the root it is spelled like
the root with plain names after it. -/
structure ClearTarget (workspace : Workspace) (root target : Path) : Prop where
  notAbove : ¬ workspace.spelled target <+: workspace.spelled root
  below : workspace.spelled root <+: workspace.spelled target →
    ∃ names, (∀ name ∈ names, PlainName name) ∧ (root.below names).same target = true

/-- The walk leaves out exactly what lies below the target. -/
theorem ClearTarget.avoids_iff (clear : ClearTarget workspace rootPath target)
    (plainNames : ∀ name ∈ names, PlainName name) :
    avoids (some target) rootPath names = true ↔
      ¬ workspace.spelled target <+: workspace.spelled rootPath ++ names := by
  rw [avoids_some_iff]
  constructor
  · intro avoided above
    cases List.prefix_or_prefix_of_prefix above (List.prefix_append _ names) with
    | inl aboveRoot =>
        exact clear.notAbove aboveRoot
    | inr belowRoot =>
        obtain ⟨initial, initialPlain, same⟩ := clear.below belowRoot
        have isPlace := workspace.spelled_eq_of_same same
        rw [workspace.spelled_below rootPath initialPlain] at isPlace
        rw [← isPlace, List.prefix_append_right_inj] at above
        have nonempty : initial ≠ [] := by
          rintro rfl
          rw [List.append_nil] at isPlace
          exact clear.notAbove (isPlace ▸ List.prefix_rfl)
        rw [avoided initial nonempty above] at same
        cases same
  · intro outside initial _ isInitial
    by_contra same
    have initialPlain : ∀ name ∈ initial, PlainName name :=
      fun name member => plainNames name (isInitial.subset member)
    have isPlace := workspace.spelled_eq_of_same (by simpa using same)
    rw [workspace.spelled_below rootPath initialPlain] at isPlace
    rw [← isPlace] at outside
    exact outside ((List.prefix_append_right_inj _).2 isInitial)

theorem walk_eq_walkedNames
    (plain : workspace.tree.Plain) (leads : workspace.LeadsToDirectory rootPath location) :
    workspace.walk rootPath none =
      (.ok ((walkedNames workspace rootPath).map rootPath.below), []) := by
  cases isInput : rootPath.same standardInput with
  | true =>
      rw [walk, isInput, walkedNames, isInput]
      rfl
  | false =>
      rw [walk_none_eq plain leads isInput, walkedNames, isInput, if_neg Bool.false_ne_true,
        ← ((leadsToDirectory_iff_opens plain).1 leads).2.eq_spelled plain]

theorem resourcesBelow_of_walk
    (plain : workspace.tree.Plain) (clear : ClearTarget workspace rootPath target)
    (leads : workspace.LeadsToDirectory rootPath location) {files : List Path}
    {notices : List Notice}
    (walked : workspace.walk rootPath (some target) = (.ok files, notices)) :
    resourcesBelow rootPath target excluded files =
      (passNames workspace rootPath target excluded).map (pairOf rootPath target) := by
  cases isInput : rootPath.same standardInput with
  | true =>
      rw [walk, isInput, if_pos rfl] at walked
      cases walked
      rw [passNames, walkedNames, isInput]
      rfl
  | false =>
      have isPlace := ((leadsToDirectory_iff_opens plain).1 leads).2.eq_spelled plain
      rw [walk_eq plain (some target) leads isInput] at walked
      cases walked
      rw [resourcesBelow_map, passNames, walkedNames, isInput, if_neg Bool.false_ne_true, ← isPlace,
        List.filter_filter]
      · congr 1
        apply List.filter_congr
        intro names member
        have plainNames := plainName_of_mem_fileNames plain.toWellFormed member
        have avoided : avoids (some target) rootPath names =
            !(workspace.spelled target).isPrefixOf (location ++ names) := by
          rw [Bool.eq_iff_iff, clear.avoids_iff plainNames, ← isPlace, Bool.not_eq_true',
            ← Bool.not_eq_true, List.isPrefixOf_iff_prefix]
        rw [avoided, Bool.and_comm]
      · intro names member
        have inFiles := List.mem_of_mem_filter member
        refine ⟨?_, plainName_of_mem_fileNames plain.toWellFormed inFiles⟩
        rintro rfl
        exact nil_notMem_fileNames plain.toWellFormed leads.holdsDirectory inFiles

theorem takesUp_passNames
    (plain : workspace.tree.Plain) (leads : workspace.LeadsToDirectory rootPath root) :
    TakesUp rootPath root (workspace.spelled target)
      (passNames workspace rootPath target excluded) workspace := by
  have isPlace := ((leadsToDirectory_iff_opens plain).1 leads).2.eq_spelled plain
  have walked : ∀ names ∈ walkedNames workspace rootPath,
      names ∈ workspace.fileNames root := by
    intro names member
    rw [walkedNames, ← isPlace] at member
    split at member
    · cases member
    · exact member
  refine ⟨plain, leads, ?_, ?_, ?_⟩
  · intro names member
    exact (mem_fileNames_iff plain.toWellFormed).1 (walked names (List.mem_of_mem_filter member))
  · intro names _ inner inPass same
    have outside := (List.mem_filter.1 inPass).2
    have inside := List.isPrefixOf_iff_prefix.2 (List.prefix_append (workspace.spelled target) names)
    rw [← isPlace, same, inside] at outside
    cases outside
  · apply List.Nodup.filter
    rw [walkedNames]
    split
    · exact List.nodup_nil
    · exact fileNames_nodup plain.toWellFormed _

/-- What a pass that succeeds has done. -/
theorem exists_judges_of_copyResources
    (plain : progress.workspace.tree.Plain)
    (clear : ClearTarget progress.workspace rootPath target)
    (passed : (copyResources hindrances rootPath target excluded).after progress = (.ok report, later)) :
    ∃ root kept ready,
      TakesUp rootPath root (progress.workspace.spelled target)
          (passNames progress.workspace rootPath target excluded) progress.workspace ∧
        report =
            reportOn target kept (passNames progress.workspace rootPath target excluded) ∧
          Judges target root (progress.workspace.spelled target)
            (passNames progress.workspace rootPath target excluded) kept progress.workspace ready
            later.workspace := by
  obtain ⟨files, notices, isDirectory, walked, mirrors⟩ := exists_walk_of_copyResources passed
  obtain ⟨root, leads⟩ := isDirectory_iff_leadsToDirectory.1 isDirectory
  rw [resourcesBelow_of_walk plain clear leads walked] at mirrors
  have takesUp : TakesUp rootPath root (progress.workspace.spelled target)
      (passNames progress.workspace rootPath target excluded) progress.workspace :=
    takesUp_passNames plain leads
  obtain ⟨kept, ready, isReport, judges⟩ := exists_judges takesUp rfl mirrors
  exact ⟨root, kept, ready, takesUp, isReport, judges⟩

end Listed

end Build

end ClojureBuild
