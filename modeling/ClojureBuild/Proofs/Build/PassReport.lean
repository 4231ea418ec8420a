import ClojureBuild.Proofs.Build.Pass

/-!
# The report of a pass

A pass that succeeds reports on every file that it takes up, once and in the order of the walk.  A copy
is left alone when it is current, and every other file is written.  Apart from the directories on the
way to what has been written, nothing else in the tree has changed, and no directory has but those that
hold something new.

Whether a copy is current is told by the tree before the pass, with one exception: directories that are
made for the first file can give a meaning to a target that led nowhere, such as `gone/../out`.
-/

namespace ClojureBuild

namespace Workspace

variable {workspace : Workspace} {rootPath target : Path} {root place : Location}
variable {names : List String} {listed : List (List String)}

/-- Something stands at a destination that is not older than its source. -/
def HasCurrentCopy (workspace : Workspace) (source destination : Path) : Prop :=
  ∃ location origin place copy,
    workspace.status source = .ok (location, origin) ∧
      workspace.status destination = .ok (place, copy) ∧
        (workspace.lastModified location origin).nanoseconds ≤
          (workspace.lastModified place copy).nanoseconds

theorem hasCurrentCopy_iff
    (takesUp : Build.TakesUp rootPath root place listed workspace) (member : names ∈ listed)
    (isPlace : workspace.spelled target = place) :
    workspace.HasCurrentCopy (rootPath.below names) (target.below names) ↔
      workspace.Opens target place ∧ workspace.isCurrentCopy root place names = true := by
  obtain ⟨content, modified, mode, held, found⟩ := takesUp.exists_status member
  rw [isCurrentCopy_iff, held]
  constructor
  · rintro ⟨_, origin, location, copy, source, destination, order⟩
    rw [found] at source
    cases source
    obtain ⟨directory, opens, rfl, isHeld⟩ :=
      (status_below_iff_opens takesUp.plain (takesUp.names_ne_nil member)
        (takesUp.plainNames member)).1 destination
    have same := opens.eq_spelled takesUp.plain
    rw [isPlace] at same
    subst same
    exact ⟨opens, _, rfl, copy, isHeld, order⟩
  · rintro ⟨opens, origin, isOrigin, copy, isHeld, order⟩
    cases isOrigin
    refine ⟨_, _, place ++ names, copy, found, ?_, order⟩
    exact (status_below_iff_opens takesUp.plain (takesUp.names_ne_nil member)
      (takesUp.plainNames member)).2 ⟨place, opens, rfl, isHeld⟩

end Workspace

namespace Build

open Workspace

variable {before ready after : Workspace} {rootPath target : Path} {root place : Location}
variable {names : List String} {listed : List (List String)} {kept : List String → Bool}
variable {excluded : List Namespace} {report : ResourceReport} {progress later : Progress}
variable {hindrances : Hindrances}

/-! ## Lists of destinations -/

theorem below_mem_map_iff
    (plainNames : ∀ names ∈ listed, ∀ name ∈ names, PlainName name) (member : names ∈ listed)
    {some : List (List String)} (among : ∀ names ∈ some, names ∈ listed) :
    target.below names ∈ some.map target.below ↔ names ∈ some := by
  constructor
  · intro mapped
    obtain ⟨inner, inSome, same⟩ := List.mem_map.1 mapped
    have isNames : inner = names := by
      rw [← target.below_same_iff (plainNames inner (among inner inSome))
        (plainNames names member), same]
      exact Path.same_self _
    exact isNames ▸ inSome
  · exact List.mem_map_of_mem

theorem lists_reportOn (target : Path) (kept : List String → Bool) (listed : List (List String)) :
    ResourceReport.Lists (listed.map target.below) (reportOn target kept listed) where
  copied := List.filter_sublist.map target.below
  unchanged := List.filter_sublist.map target.below
  all := by
    rw [reportOn, ← List.map_append]
    apply List.Perm.map
    exact List.perm_append_comm.trans (List.filter_append_perm kept listed)

namespace TakesUp

/-- The destinations of different files are different paths. -/
theorem pairwise_destinations (takesUp : TakesUp rootPath root place listed before)
    (target : Path) :
    (listed.map target.below).Pairwise fun first second => first.same second = false := by
  rw [List.pairwise_map]
  apply takesUp.distinct.imp_of_mem
  intro first second inListed alsoListed differ
  rw [← Bool.not_eq_true]
  exact fun same =>
    differ ((target.below_same_iff (takesUp.plainNames inListed) (takesUp.plainNames alsoListed)).1
      same)

theorem mem_unchanged_iff (takesUp : TakesUp rootPath root place listed before)
    (member : names ∈ listed) :
    target.below names ∈ (reportOn target kept listed).unchanged ↔ kept names = true := by
  rw [reportOn, below_mem_map_iff (fun _ => takesUp.plainNames) member
    (fun _ => List.mem_of_mem_filter), List.mem_filter]
  exact and_iff_right member

theorem mem_copied_iff (takesUp : TakesUp rootPath root place listed before)
    (member : names ∈ listed) :
    target.below names ∈ (reportOn target kept listed).copied ↔
      names ∈ copiedAmong kept listed :=
  below_mem_map_iff (fun _ => takesUp.plainNames) member fun _ => mem_of_mem_copiedAmong

end TakesUp

/-! ## Before and after the target is there -/

theorem onTheWayFrom_below
    (plainNames : ∀ name ∈ names, PlainName name) {location : Location}
    (onTheWay : OnTheWayFrom (FileTree.startOf before.current target) target location ∨
      Needed (before.spelled target) names location) :
    OnTheWayFrom (FileTree.startOf before.current target) (target.below names) location := by
  rw [OnTheWayFrom, Path.steps_below target plainNames]
  cases onTheWay with
  | inl above =>
      obtain ⟨initial, isInitial, isSpelled⟩ := above
      exact ⟨initial, isInitial.trans (List.prefix_append _ names), isSpelled⟩
  | inr needed =>
      obtain ⟨initial, -, isInitial, rfl⟩ := needed
      have inner := isInitial.trans (List.dropLast_prefix names)
      have initialPlain : ∀ name ∈ initial, PlainName name :=
        fun name member => plainNames name (inner.subset member)
      refine ⟨target.steps ++ initial, (List.prefix_append_right_inj _).2 inner, ?_⟩
      rw [FileTree.spell_append, ← spelled_eq_spell_steps, FileTree.spell_of_plain _ initialPlain]

/-- A target without steps back opens as long as something stands below it. -/
theorem opens_of_onward
    (plain : before.tree.Plain) (onward : ".." ∉ target.steps) (nonempty : names ≠ [])
    {entry : Entry} (found : before.tree.find? (before.spelled target ++ names) = some entry) :
    before.Opens target (before.spelled target) := by
  have plainSteps := Path.plainName_of_mem_steps onward
  have directory := plain.holdsDirectory_of_append nonempty found
  rw [spelled_eq_spell_steps, FileTree.spell_of_plain _ plainSteps] at directory ⊢
  obtain ⟨modified, held⟩ := directory
  exact ⟨fun step member => (plain.fileName_of_mem held step member).noZero,
    FileTree.follow_names plain held, modified, held⟩

/-- Nothing that is made on the way to a target without steps back lies below it. -/
theorem not_onTheWay_of_onward (onward : ".." ∉ target.steps) (nonempty : names ≠ []) :
    ¬ OnTheWayFrom (FileTree.startOf before.current target) target
      (before.spelled target ++ names) := by
  rintro ⟨initial, isInitial, isSpelled⟩
  have plainSteps := Path.plainName_of_mem_steps onward
  rw [spelled_eq_spell_steps, FileTree.spell_of_plain _ plainSteps,
    FileTree.spell_of_plain _ fun step member => plainSteps step (isInitial.subset member)]
    at isSpelled
  have lengths := congrArg List.length isSpelled
  have positive := List.length_pos_iff.2 nonempty
  have bound := isInitial.length_le
  simp only [List.length_append] at lengths
  omega

namespace Judges

/-- Where the target opens, or is spelled without steps back, the tree before the pass tells which
copies are kept. -/
theorem kept_iff_hasCurrentCopy
    (judges : Judges target root place listed kept before ready after)
    (takesUp : TakesUp rootPath root place listed before) (isPlace : before.spelled target = place)
    (settled : before.Opens target place ∨ ".." ∉ target.steps) (member : names ∈ listed) :
    kept names = true ↔
      before.HasCurrentCopy (rootPath.below names) (target.below names) := by
  rw [judges.kept_iff names member, hasCurrentCopy_iff takesUp member isPlace]
  by_cases opens : before.Opens target place
  · rw [judges.ready_eq opens]
    simp [opens]
  · refine iff_of_false ?_ fun current => opens current.1
    rintro ⟨notFirst, current⟩
    have onward := settled.resolve_left opens
    have nonempty := takesUp.names_ne_nil member
    obtain ⟨_, -, copy, held, -⟩ := isCurrentCopy_iff.1 current
    cases earlier : before.tree.find? (place ++ names) with
    | some entry =>
        rw [← isPlace] at earlier opens
        exact opens (opens_of_onward takesUp.plain onward nonempty earlier)
    | none =>
        obtain ⟨⟨first, -, isFirst, onTheWay | needed⟩, -⟩ := judges.made.made earlier held
        · rw [← isPlace] at onTheWay
          exact not_onTheWay_of_onward onward nonempty onTheWay
        · exact (takesUp.not_needed member (List.mem_of_head? isFirst) _ needed).1 rfl

/-- Apart from its copies a pass makes directories on the way to them, and nothing else. -/
theorem elsewhere
    (judges : Judges target root place listed kept before ready after)
    (takesUp : TakesUp rootPath root place listed before) (isPlace : before.spelled target = place)
    {location : Location} (elsewhere : ∀ names ∈ copiedAmong kept listed, location ≠ place ++ names) :
    after.tree.find? location = before.tree.find? location ∨
      (before.tree.find? location = none ∧ after.tree.HoldsDirectory location ∧
        ∃ names ∈ copiedAmong kept listed,
          OnTheWayFrom (FileTree.startOf before.current target) (target.below names) location) := by
  have plainNames : ∀ names ∈ copiedAmong kept listed, ∀ name ∈ names, PlainName name :=
    fun names member => takesUp.plainNames (mem_of_mem_copiedAmong member)
  have prepared := Copies.of_onlyMade judges.made root place
  cases judges.copies.elsewhere location elsewhere with
  | inl same =>
      rw [same]
      cases prepared.elsewhere location (by simp) with
      | inl unchanged =>
          exact Or.inl unchanged
      | inr isMade =>
          obtain ⟨absent, ⟨modified, directory⟩, names, inCopied, -, onTheWay⟩ := isMade
          rw [← isPlace] at onTheWay
          exact Or.inr ⟨absent, ⟨modified, same.trans directory⟩, names, inCopied,
            onTheWayFrom_below (plainNames names inCopied) onTheWay⟩
  | inr isMade =>
      obtain ⟨absent, directory, names, inCopied, needed⟩ := isMade
      rw [← isPlace] at needed
      exact Or.inr ⟨prepared.absent_before absent, directory, names, inCopied,
        onTheWayFrom_below (plainNames names inCopied) (Or.inr needed)⟩

/-- The directories that a pass changes are those of its copies and those that it makes on the way to
them, with the ones that hold these. -/
theorem changed
    (judges : Judges target root place listed kept before ready after)
    (takesUp : TakesUp rootPath root place listed before) (isPlace : before.spelled target = place)
    (location : Location) :
    after.changes.lookup location = before.changes.lookup location ∨
      ∃ names ∈ copiedAmong kept listed,
        location = (place ++ names).dropLast ∨
          ∃ new, before.tree.find? new = none ∧
            OnTheWayFrom (FileTree.startOf before.current target) (target.below names) new ∧
              (new = location ∨ new.dropLast = location) := by
  have plainNames : ∀ names ∈ copiedAmong kept listed, ∀ name ∈ names, PlainName name :=
    fun names member => takesUp.plainNames (mem_of_mem_copiedAmong member)
  have prepared := Copies.of_onlyMade judges.made root place
  subst isPlace
  rcases judges.copies.changed location with
    same | ⟨names, inCopied, above⟩ | ⟨new, absent, ⟨names, inCopied, needed⟩, here⟩
  · rw [same]
    refine (judges.made.changed location).imp_right ?_
    rintro ⟨new, absent, ⟨names, inCopied, -, onTheWay⟩, here⟩
    exact ⟨names, inCopied,
      Or.inr ⟨new, absent, onTheWayFrom_below (plainNames names inCopied) onTheWay, here⟩⟩
  · exact Or.inr ⟨names, inCopied, Or.inl above⟩
  · have onTheWay := onTheWayFrom_below (plainNames names inCopied) (Or.inr needed)
    exact Or.inr
      ⟨names, inCopied, Or.inr ⟨new, prepared.absent_before absent, onTheWay, here⟩⟩

end Judges

/-! ## The report -/

/-- The copies that a pass keeps, when it takes up its files in `ready` after it has seen to the first
one: the directories made for this one are there then. -/
structure KeepsCurrent (root target : Path) (listed : List (List String)) (report : ResourceReport)
    (before ready : Workspace) : Prop where
  ready_eq : before.Opens target (before.spelled target) → ready = before
  made : OnlyMade
    (fun location => ∃ names, listed.head? = some names ∧ target.below names ∈ report.copied ∧
      OnTheWayFrom (FileTree.startOf before.current target) (target.below names) location)
    before ready
  first : ∀ names, listed.head? = some names →
    (target.below names ∈ report.unchanged ↔
      before.HasCurrentCopy (root.below names) (target.below names))
  others : ∀ names ∈ listed.tail,
    (target.below names ∈ report.unchanged ↔
      ready.HasCurrentCopy (root.below names) (target.below names))

/-- What a pass over a root has done to a tree, by its report. -/
structure ExactPass (root target : Path) (excluded : List Namespace) (report : ResourceReport)
    (before after : Workspace) : Prop where
  walked : before.walk root none = (.ok ((walkedNames before root).map root.below), [])
  lists : ResourceReport.Lists ((passNames before root target excluded).map target.below) report
  distinct : (report.copied ++ report.unchanged).Pairwise
    fun first second => first.same second = false
  keeps : ∃ ready,
    KeepsCurrent root target (passNames before root target excluded) report before ready ∧
      ∀ names ∈ passNames before root target excluded, target.below names ∈ report.unchanged →
        LeftAlone ready after (before.spelled target ++ names)
  settled : before.Opens target (before.spelled target) ∨ ".." ∉ target.steps →
    ∀ names ∈ passNames before root target excluded,
      (target.below names ∈ report.unchanged ↔
        before.HasCurrentCopy (root.below names) (target.below names))
  copied : ∀ names ∈ passNames before root target excluded, target.below names ∈ report.copied →
    ∃ content modified mode changed,
      before.status (root.below names) =
          .ok (before.spelled root ++ names, .file content modified mode) ∧
        after.status (target.below names) =
            .ok (before.spelled target ++ names, .file content changed mode) ∧
          before.clock.nanoseconds < changed.nanoseconds ∧
            changed.nanoseconds ≤ after.clock.nanoseconds
  elsewhere : ∀ location,
    (∀ names ∈ passNames before root target excluded, target.below names ∈ report.copied →
      location ≠ before.spelled target ++ names) →
    after.tree.find? location = before.tree.find? location ∨
      (before.tree.find? location = none ∧ after.tree.HoldsDirectory location ∧
        ∃ names ∈ passNames before root target excluded, target.below names ∈ report.copied ∧
          OnTheWayFrom (FileTree.startOf before.current target) (target.below names) location)
  changed : ∀ location, after.changes.lookup location = before.changes.lookup location ∨
    ∃ names ∈ passNames before root target excluded, target.below names ∈ report.copied ∧
      (location = (before.spelled target ++ names).dropLast ∨
        ∃ new, before.tree.find? new = none ∧
          OnTheWayFrom (FileTree.startOf before.current target) (target.below names) new ∧
            (new = location ∨ new.dropLast = location))

theorem keepsCurrent_of_judges
    (judges : Judges target root (before.spelled target) listed kept before ready after)
    (takesUp : TakesUp rootPath root (before.spelled target) listed before) :
    KeepsCurrent rootPath target listed (reportOn target kept listed) before ready where
  ready_eq := judges.ready_eq
  made := by
    apply judges.made.mono
    rintro location ⟨names, inCopied, isFirst, onTheWay⟩
    have member := mem_of_mem_copiedAmong inCopied
    exact ⟨names, isFirst, (takesUp.mem_copied_iff member).2 inCopied,
      onTheWayFrom_below (takesUp.plainNames member) onTheWay⟩
  first := by
    intro names isFirst
    have member := List.mem_of_head? isFirst
    rw [takesUp.mem_unchanged_iff member, judges.kept_iff names member,
      hasCurrentCopy_iff takesUp member rfl]
    constructor
    · rintro ⟨opens, current⟩
      exact ⟨opens isFirst, judges.ready_eq (opens isFirst) ▸ current⟩
    · rintro ⟨opens, current⟩
      exact ⟨fun _ => opens, (judges.ready_eq opens).symm ▸ current⟩
  others := by
    intro names inTail
    have member := List.mem_of_mem_tail inTail
    have notFirst : listed.head? ≠ some names := by
      intro isFirst
      obtain ⟨rest, split⟩ := List.head?_eq_some_iff.1 isFirst
      have distinct := takesUp.distinct
      rw [split] at distinct inTail
      exact (List.nodup_cons.1 distinct).1 inTail
    have readyTakesUp := takesUp.later (Copies.of_onlyMade judges.made root (before.spelled target))
    have isPlace := spelled_eq_of_current judges.made.current target
    rw [takesUp.mem_unchanged_iff member, judges.kept_iff names member,
      hasCurrentCopy_iff readyTakesUp member isPlace]
    have opens := judges.opens (List.ne_nil_of_mem member)
    simp [notFirst, opens]

/-- A pass that succeeds, over any root of a tree without links, for any target that neither equals nor
contains it: its report lists the destinations of all files outside the target that the walk finds and
that are no excluded sources, once and in the order of the walk.  A destination is kept when it is
current, told from the tree before the pass, or, in the case of a target that does not open before it,
from the tree with the directories for the first file.  All others are written, and nothing else
changes but that directories are made on the way to these.  The only directories that change are these
and the ones that hold them or something that is written. -/
theorem pass_writes_what_is_not_current
    (plain : progress.workspace.tree.Plain)
    (clear : ClearTarget progress.workspace rootPath target)
    (passed : (copyResources hindrances rootPath target excluded).after progress = (.ok report, later)) :
    ExactPass rootPath target excluded report progress.workspace later.workspace := by
  obtain ⟨root, kept, ready, takesUp, rfl, judges⟩ :=
    exists_judges_of_copyResources plain clear passed
  have isRoot := ((leadsToDirectory_iff_opens plain).1 takesUp.leads).2.eq_spelled plain
  refine ⟨walk_eq_walkedNames plain takesUp.leads, lists_reportOn _ _ _, ?_, ⟨ready, ?_, ?_⟩, ?_, ?_,
    ?_, ?_⟩
  · have symmetric : ∀ {first second : Path},
        first.same second = false → second.same first = false := by
      intro first second different
      rw [← different, Path.same, Path.same, Bool.eq_iff_iff, beq_iff_eq, beq_iff_eq, eq_comm]
    exact ((lists_reportOn target kept _).all.pairwise_iff symmetric).2
      (takesUp.pairwise_destinations target)
  · exact keepsCurrent_of_judges judges takesUp
  · intro names member isKept
    rw [takesUp.mem_unchanged_iff member] at isKept
    have readyTakesUp := takesUp.later (Copies.of_onlyMade judges.made root _)
    refine readyTakesUp.leftAlone judges.copies (fun _ => mem_of_mem_copiedAmong) member
      (notMem_copiedAmong isKept) ?_
    rintro new ⟨inner, inCopied, needed⟩
    exact takesUp.not_needed member (mem_of_mem_copiedAmong inCopied) new needed
  · intro settled names member
    rw [takesUp.mem_unchanged_iff member]
    exact judges.kept_iff_hasCurrentCopy takesUp rfl settled member
  · intro names member isCopied
    rw [takesUp.mem_copied_iff member] at isCopied
    obtain ⟨content, modified, mode, changed, source, copy, order, bound⟩ :=
      judges.copies.written names isCopied
    have held : progress.workspace.tree.find? (root ++ names) =
        some (.file content modified mode) :=
      judges.made.find?_eq_file_iff.1 source
    have clock := judges.made.clock
    refine ⟨content, modified, mode, changed, ?_, ?_, Int.lt_of_le_of_lt clock order, bound⟩
    · rw [← isRoot]
      exact (status_below_iff plain takesUp.leads (takesUp.plainNames member)).2 ⟨rfl, held⟩
    · have opens := (judges.opens (List.ne_nil_of_mem member)).of_grows judges.made.plain
        judges.copies.plain judges.copies.current judges.copies.grows
      exact (status_below_iff_opens judges.copies.plain (takesUp.names_ne_nil member)
        (takesUp.plainNames member)).2 ⟨_, opens, rfl, copy⟩
  · intro location elsewhere
    have outside :
        ∀ names ∈ copiedAmong kept (passNames progress.workspace rootPath target excluded),
          location ≠ progress.workspace.spelled target ++ names := by
      intro names inCopied
      have member := mem_of_mem_copiedAmong inCopied
      exact elsewhere names member ((takesUp.mem_copied_iff member).2 inCopied)
    cases judges.elsewhere takesUp rfl outside with
    | inl same =>
        exact Or.inl same
    | inr isMade =>
        obtain ⟨absent, directory, names, inCopied, onTheWay⟩ := isMade
        have member := mem_of_mem_copiedAmong inCopied
        exact Or.inr ⟨absent, directory, names, member, (takesUp.mem_copied_iff member).2 inCopied,
          onTheWay⟩
  · intro location
    refine (judges.changed takesUp rfl location).imp_right ?_
    rintro ⟨names, inCopied, changed⟩
    have member := mem_of_mem_copiedAmong inCopied
    exact ⟨names, member, (takesUp.mem_copied_iff member).2 inCopied, changed⟩

/-- A source with a target below it, where one of two files has a current copy. -/
def targetInSource : Workspace :=
  ⟨⟨[([], .directory ⟨0⟩), (["src"], .directory ⟨0⟩), (["src", "a"], .file [97] ⟨0⟩ 420),
      (["src", "b"], .file [98] ⟨0⟩ 420), (["src", "out"], .directory ⟨0⟩),
      (["src", "out", "b"], .file [] ⟨5⟩ 420)]⟩, [], ⟨"/home"⟩, ⟨9⟩, []⟩

theorem pass_into_its_root :
    ∃ report later,
      (copyResources unhindered ⟨"src"⟩ ⟨"src/out"⟩ []).after (Progress.start targetInSource) =
          (.ok report, later) ∧
        report = ⟨[⟨"src/out/a"⟩], [⟨"src/out/b"⟩]⟩ ∧
          ExactPass ⟨"src"⟩ ⟨"src/out"⟩ [] report targetInSource later.workspace := by
  have reported :
      ((copyResources unhindered ⟨"src"⟩ ⟨"src/out"⟩ []).after
          (Progress.start targetInSource)).1.toOption =
        some ⟨[⟨"src/out/a"⟩], [⟨"src/out/b"⟩]⟩ := by
    decide +kernel
  have plain : targetInSource.tree.Plain := by
    decide +kernel
  have clear : ClearTarget targetInSource ⟨"src"⟩ ⟨"src/out"⟩ := by
    refine ⟨by decide +kernel, fun _ => ⟨["out"], ?_, by decide +kernel⟩⟩
    intro name member
    have fileName : FileName "out" := by
      decide +kernel
    rw [List.mem_singleton.1 member]
    exact fileName.toPlainName
  cases passed :
      (copyResources unhindered ⟨"src"⟩ ⟨"src/out"⟩ []).after (Progress.start targetInSource) with
  | mk outcome later =>
      rw [passed] at reported
      cases outcome with
      | error failure =>
          cases reported
      | ok report =>
          cases reported
          exact ⟨_, later, rfl, rfl, pass_writes_what_is_not_current plain clear passed⟩

/-- A source, and a directory with current copies of its files. -/
def copiesElsewhere : Workspace :=
  ⟨⟨[([], .directory ⟨0⟩), (["src"], .directory ⟨0⟩), (["src", "a"], .file [97] ⟨0⟩ 420),
      (["src", "b"], .file [98] ⟨0⟩ 420), (["out"], .directory ⟨0⟩),
      (["out", "a"], .file [97] ⟨5⟩ 420), (["out", "b"], .file [98] ⟨5⟩ 420)]⟩, [], ⟨"/home"⟩, ⟨9⟩, []⟩

/-- The tree before a pass always tells which copies are kept. -/
def ToldBeforePass : Prop :=
  ∀ (hindrances : Hindrances) (progress later : Progress) (root target : Path)
      (excluded : List Namespace) (report : ResourceReport),
    progress.workspace.tree.Plain → ClearTarget progress.workspace root target →
      (copyResources hindrances root target excluded).after progress = (.ok report, later) →
        ∀ names ∈ passNames progress.workspace root target excluded,
          (target.below names ∈ report.unchanged ↔
            progress.workspace.HasCurrentCopy (root.below names) (target.below names))

/-- The target leads nowhere until `gone` is made for the first file.  Then the second one is found to
have a copy. -/
theorem copies_are_not_always_told_before_pass : ¬ ToldBeforePass := by
  intro told
  have plain : copiesElsewhere.tree.Plain := by
    decide +kernel
  have clear : ClearTarget copiesElsewhere ⟨"src"⟩ ⟨"gone/../out"⟩ := by
    refine ⟨by decide +kernel, fun above => absurd above ?_⟩
    decide +kernel
  have reported :
      ((copyResources unhindered ⟨"src"⟩ ⟨"gone/../out"⟩ []).after
          (Progress.start copiesElsewhere)).1.toOption =
        some ⟨[⟨"gone/../out/a"⟩], [⟨"gone/../out/b"⟩]⟩ := by
    decide +kernel
  have absent : copiesElsewhere.isPresent ⟨"gone/../out/b"⟩ = false := by
    decide +kernel
  cases passed :
      (copyResources unhindered ⟨"src"⟩ ⟨"gone/../out"⟩ []).after (Progress.start copiesElsewhere) with
  | mk outcome later =>
      rw [passed] at reported
      cases outcome with
      | error failure =>
          cases reported
      | ok report =>
          cases reported
          obtain ⟨_, _, place, copy, -, found, -⟩ :=
            (told unhindered (Progress.start copiesElsewhere) later ⟨"src"⟩ ⟨"gone/../out"⟩ [] _ plain
              clear passed ["b"] (by decide +kernel)).1 (by decide +kernel)
          have present : copiesElsewhere.isPresent ⟨"gone/../out/b"⟩ = true :=
            (isPresent_iff _ _).2 ⟨place, copy, found⟩
          rw [absent] at present
          cases present

end Build

end ClojureBuild
