import ClojureBuild.Proofs.Path.Order
import ClojureBuild.Proofs.Workspace.Descent

/-!
# Walks through links

A walk through a tree with any links reports one thing of each entry that it comes to and does not
go into: a file, a link back to a directory that it is inside of, or a failure.  It does so in the
order of paths.
-/

namespace ClojureBuild

/-- The path that is visited. -/
def Visit.path : Visit → Path
  | .file path => path
  | .loop child _ => child
  | .failed path _ => path

namespace Workspace

variable {workspace : Workspace} {skip : Option Path} {root : Path} {chain : Chain} {visit : Visit}
variable {names front : List String} {location : Location} {fuel : Nat}

/-! ## The chain of a walk -/

/-- The directories that a walk is inside of on the way to names. -/
inductive ChainTo (workspace : Workspace) (root : Path) : List String → Chain → Prop
  | nil : ChainTo workspace root [] []
  | concat {front : List String} {chain : Chain} {location : Location}
      (above : ChainTo workspace root front chain)
      (leads : workspace.LeadsToDirectory (root.below front) location) (name : String) :
      ChainTo workspace root (front ++ [name]) ((root.below front, location) :: chain)

/-- Of the directories on the way at a location, `front` leads to the innermost one. -/
structure Innermost (workspace : Workspace) (root : Path) (names front : List String)
    (location : Location) : Prop extends LiesAbove workspace root names front location where
  within : ∀ other, workspace.LiesAbove root names other location → other <+: front

theorem Innermost.unique {other : List String}
    (innermost : workspace.Innermost root names front location)
    (otherInnermost : workspace.Innermost root names other location) : front = other := by
  have forth := otherInnermost.within front innermost.toLiesAbove
  have back := innermost.within other otherInnermost.toLiesAbove
  exact forth.eq_of_length (Nat.le_antisymm forth.length_le back.length_le)

theorem ChainTo.isEmpty_iff (chainTo : workspace.ChainTo root names chain) :
    chain.isEmpty = true ↔ names = [] := by
  cases chainTo with
  | nil =>
      simp
  | concat above leads name =>
      simp

/-- A chain tells whether a location is on the way, and where the innermost one is. -/
theorem ChainTo.ancestorAt?_cases (chainTo : workspace.ChainTo root names chain)
    (location : Location) :
    (∃ front, workspace.Innermost root names front location ∧
        ancestorAt? chain location = some (root.below front)) ∨
      ((∀ front, ¬ workspace.LiesAbove root names front location) ∧
        ancestorAt? chain location = none) := by
  induction chainTo with
  | nil =>
      exact Or.inr ⟨fun _ => not_liesAbove_nil, rfl⟩
  | @concat front chain held above leads name inductionHypothesis =>
      by_cases here : held = location
      · subst here
        refine Or.inl ⟨front, ⟨liesAbove_concat_iff.2 ⟨List.prefix_rfl, leads⟩, ?_⟩, ?_⟩
        · intro other inside
          exact (liesAbove_concat_iff.1 inside).1
        · simp [ancestorAt?]
      · have onward : ancestorAt? ((root.below front, held) :: chain) location =
            ancestorAt? chain location := by
          simp [ancestorAt?, here]
        have furtherOut (other : List String) :
            workspace.LiesAbove root (front ++ [name]) other location ↔
              workspace.LiesAbove root front other location := by
          rw [liesAbove_concat_iff]
          constructor
          · intro inside
            refine ⟨inside.1, ?_, inside.2⟩
            intro same
            rw [same] at inside
            exact here (leads.unique inside.2)
          · intro inside
            exact ⟨inside.isInitial, inside.leads⟩
        cases inductionHypothesis with
        | inl inner =>
            obtain ⟨inner, innermost, found⟩ := inner
            refine Or.inl ⟨inner, ⟨(furtherOut inner).2 innermost.toLiesAbove, ?_⟩, onward.trans found⟩
            intro other inside
            exact innermost.within other ((furtherOut other).1 inside)
        | inr nowhere =>
            refine Or.inr ⟨?_, onward.trans nowhere.2⟩
            intro other inside
            exact nowhere.1 other ((furtherOut other).1 inside)

theorem ChainTo.exists_ancestor (chainTo : workspace.ChainTo root names chain)
    (leads : workspace.LeadsToDirectory (root.below names) location)
    (back : workspace.LeadsBack root names) :
    ∃ front, workspace.Innermost root names front location ∧
      (if workspace.isLink (root.below names) then ancestorAt? chain location else none) =
        some (root.below front) := by
  obtain ⟨isLink, place, leadsThere, front, inside⟩ := back
  rw [leadsThere.unique leads] at inside
  cases chainTo.ancestorAt?_cases location with
  | inl inner =>
      obtain ⟨inner, innermost, found⟩ := inner
      exact ⟨inner, innermost, by rw [if_pos isLink, found]⟩
  | inr nowhere =>
      exact absurd inside (nowhere.1 front)

theorem ChainTo.no_ancestor (chainTo : workspace.ChainTo root names chain)
    (leads : workspace.LeadsToDirectory (root.below names) location)
    (onward : ¬ workspace.LeadsBack root names) :
    (if workspace.isLink (root.below names) then ancestorAt? chain location else none) = none := by
  split
  · next isLink =>
      cases chainTo.ancestorAt?_cases location with
      | inl inner =>
          obtain ⟨front, innermost, -⟩ := inner
          exact absurd ⟨isLink, location, leads, front, innermost.toLiesAbove⟩ onward
      | inr nowhere =>
          exact nowhere.2
  · rfl

/-- Whatever a walk comes to, it has a chain on the way. -/
theorem Meets.exists_chainTo (met : workspace.Meets skip root names) :
    ∃ chain, workspace.ChainTo root names chain := by
  induction names using List.reverseRecOn with
  | nil =>
      exact ⟨[], ChainTo.nil⟩
  | append_singleton front name inductionHypothesis =>
      obtain ⟨metFront, location, enters, -⟩ := meets_concat_iff.1 met
      obtain ⟨chain, chainTo⟩ := inductionHypothesis metFront
      exact ⟨_, chainTo.concat enters.leads name⟩

/-! ## Reports -/

/-- What a walk reports of names that it comes to. -/
inductive Reports (workspace : Workspace) (skip : Option Path) (root : Path)
    (names : List String) : Visit → Prop
  | file (holds : workspace.isFile (root.below names) = true)
      (kept : names = [] ∨ skip.any (root.below names).same = false) :
      Reports workspace skip root names (.file (root.below names))
  | loop {location : Location} {front : List String}
      (isLink : workspace.isLink (root.below names) = true)
      (leads : workspace.LeadsToDirectory (root.below names) location)
      (innermost : workspace.Innermost root names front location) :
      Reports workspace skip root names (.loop (root.below names) (root.below front))
  | failed {failure : SystemFailure} (fails : workspace.status (root.below names) = .error failure) :
      Reports workspace skip root names (.failed (root.below names) failure)

theorem Reports.path_eq (reports : workspace.Reports skip root names visit) :
    visit.path = root.below names := by
  cases reports <;> rfl

/-- What is reported depends on what the names lead to. -/
theorem reports_iff :
    workspace.Reports skip root names visit ↔
      match workspace.status (root.below names) with
      | .error failure => visit = .failed (root.below names) failure
      | .ok (_, .file _ _ _) =>
          (names = [] ∨ skip.any (root.below names).same = false) ∧
            visit = .file (root.below names)
      | .ok (_, .link _) => False
      | .ok (location, .directory _) =>
          workspace.isLink (root.below names) = true ∧
            ∃ front, workspace.Innermost root names front location ∧
              visit = .loop (root.below names) (root.below front) := by
  constructor
  · intro reports
    cases reports with
    | file holds kept =>
        obtain ⟨location, content, modified, mode, found⟩ := (workspace.isFile_iff _).1 holds
        rw [found]
        exact ⟨kept, rfl⟩
    | @loop location front isLink leads innermost =>
        obtain ⟨modified, found⟩ := leads
        rw [found]
        exact ⟨isLink, front, innermost, rfl⟩
    | failed fails =>
        rw [fails]
  · intro reported
    cases looked : workspace.status (root.below names) with
    | error failure =>
        rw [looked] at reported
        rw [reported]
        exact Reports.failed looked
    | ok held =>
        obtain ⟨location, entry⟩ := held
        rw [looked] at reported
        cases entry with
        | file content modified mode =>
            rw [reported.2]
            exact Reports.file
              ((workspace.isFile_iff _).2 ⟨location, content, modified, mode, looked⟩) reported.1
        | link target =>
            cases reported
        | directory modified =>
            obtain ⟨isLink, front, innermost, isLoop⟩ := reported
            rw [isLoop]
            exact Reports.loop isLink ⟨modified, looked⟩ innermost

/-- Nothing is reported of a directory that the walk goes into. -/
theorem Enters.not_reports (enters : workspace.Enters skip root names location) :
    ¬ workspace.Reports skip root names visit := by
  intro reports
  obtain ⟨modified, found⟩ := enters.leads
  rw [reports_iff, found] at reports
  obtain ⟨isLink, front, innermost, -⟩ := reports
  exact enters.onward ⟨isLink, location, enters.leads, front, innermost.toLiesAbove⟩

/-! ## One step of a walk -/

theorem ChainTo.skipped_iff (chainTo : workspace.ChainTo root names chain) :
    (!chain.isEmpty && skip.any (root.below names).same) = true ↔
      ¬ (names = [] ∨ skip.any (root.below names).same = false) := by
  rw [Bool.and_eq_true, Bool.not_eq_true', ← Bool.not_eq_true, chainTo.isEmpty_iff, not_or,
    Bool.not_eq_false]

theorem visits_of_enters (chainTo : workspace.ChainTo root names chain)
    (enters : workspace.Enters skip root names location) (fuel : Nat) :
    workspace.visits skip (fuel + 1) chain (root.below names) =
      (workspace.tree.names location).flatMap fun name =>
        workspace.visits skip fuel ((root.below names, location) :: chain)
          (root.below (names ++ [name])) := by
  have notSkipped : ¬ (!chain.isEmpty && skip.any (root.below names).same) = true := by
    rw [chainTo.skipped_iff, not_not]
    exact enters.kept
  have noAncestor := chainTo.no_ancestor enters.leads enters.onward
  obtain ⟨modified, found⟩ := enters.leads
  simp only [visits, found, noAncestor, if_neg notSkipped, Path.below_concat]

/-- A walk reports at most one thing of what it does not go into. -/
theorem visits_of_not_enters (chainTo : workspace.ChainTo root names chain)
    (stays : ∀ location, ¬ workspace.Enters skip root names location) (fuel : Nat) :
    ∃ report : Option Visit,
      workspace.visits skip (fuel + 1) chain (root.below names) = report.toList ∧
        ∀ visit, report = some visit ↔ workspace.Reports skip root names visit := by
  have skipped :
      (!chain.isEmpty && skip.any (root.below names).same) = true ↔
        ¬ (names = [] ∨ skip.any (root.below names).same = false) :=
    chainTo.skipped_iff
  cases looked : workspace.status (root.below names) with
  | error failure =>
      refine ⟨some (.failed (root.below names) failure), by simp [visits, looked], ?_⟩
      intro visit
      rw [reports_iff, looked, Option.some.injEq, eq_comm]
  | ok held =>
      obtain ⟨location, entry⟩ := held
      cases entry with
      | link target =>
          refine ⟨none, by simp [visits, looked], ?_⟩
          intro visit
          simp [reports_iff, looked]
      | file content modified mode =>
          by_cases kept : names = [] ∨ skip.any (root.below names).same = false
          · refine ⟨some (.file (root.below names)), ?_, ?_⟩
            · have notSkipped := mt skipped.1 (not_not.2 kept)
              simp only [visits, looked, if_neg notSkipped, Option.toList]
            · intro visit
              rw [reports_iff, looked, Option.some.injEq, eq_comm]
              simp [kept]
          · refine ⟨none, ?_, ?_⟩
            · simp only [visits, looked, if_pos (skipped.2 kept), Option.toList]
            · intro visit
              simp [reports_iff, looked, kept]
      | directory modified =>
          have leads : workspace.LeadsToDirectory (root.below names) location :=
            ⟨modified, looked⟩
          by_cases back : workspace.LeadsBack root names
          · obtain ⟨front, innermost, ancestor⟩ := chainTo.exists_ancestor leads back
            refine ⟨some (.loop (root.below names) (root.below front)), ?_, ?_⟩
            · simp only [visits, looked, ancestor, Option.toList]
            · intro visit
              rw [reports_iff, looked]
              constructor
              · intro isLoop
                exact ⟨back.1, front, innermost, (Option.some.inj isLoop).symm⟩
              · intro isLoop
                obtain ⟨-, other, otherInnermost, isLoop⟩ := isLoop
                rw [isLoop, innermost.unique otherInnermost]
          · have notKept : ¬ (names = [] ∨ skip.any (root.below names).same = false) :=
              fun kept => stays location ⟨leads, kept, back⟩
            refine ⟨none, ?_, ?_⟩
            · simp only [visits, looked, chainTo.no_ancestor leads back,
                if_pos (skipped.2 notKept), Option.toList]
            · intro visit
              rw [reports_iff, looked]
              constructor
              · intro isNone
                cases isNone
              · intro isLoop
                obtain ⟨isLink, front, innermost, -⟩ := isLoop
                exact absurd ⟨isLink, location, leads, front, innermost.toLiesAbove⟩ back

/-! ## A whole walk -/

theorem mem_visits_iff (chainTo : workspace.ChainTo root names chain)
    (met : workspace.Meets skip root names) :
    visit ∈ workspace.visits skip fuel chain (root.below names) ↔
      ∃ rest : List String, rest.length < fuel ∧ workspace.Meets skip root (names ++ rest) ∧
        workspace.Reports skip root (names ++ rest) visit := by
  induction fuel generalizing names chain with
  | zero =>
      simp [visits]
  | succ fuel inductionHypothesis =>
      by_cases goesIn : ∃ location, workspace.Enters skip root names location
      · obtain ⟨location, enters⟩ := goesIn
        have inChild {name : String} (held : name ∈ workspace.tree.names location) :=
          inductionHypothesis (chainTo.concat enters.leads name)
            (meets_concat_iff.2 ⟨met, location, enters, held⟩)
        rw [visits_of_enters chainTo enters, List.mem_flatMap]
        constructor
        · intro visited
          obtain ⟨name, held, member⟩ := visited
          obtain ⟨rest, bounded, metThere, reports⟩ := (inChild held).1 member
          rw [← List.append_cons] at metThere reports
          exact ⟨name :: rest, Nat.succ_lt_succ bounded, metThere, reports⟩
        · intro visited
          obtain ⟨rest, bounded, metThere, reports⟩ := visited
          cases rest with
          | nil =>
              rw [List.append_nil] at reports
              exact absurd reports enters.not_reports
          | cons name rest =>
              obtain ⟨place, entersThere, held⟩ := metThere.enters
              rw [entersThere.leads.unique enters.leads] at held
              rw [List.append_cons] at metThere reports
              exact ⟨name, held,
                (inChild held).2 ⟨rest, Nat.lt_of_succ_lt_succ bounded, metThere, reports⟩⟩
      · obtain ⟨report, visited, isReport⟩ :=
          visits_of_not_enters chainTo (not_exists.1 goesIn) fuel
        rw [visited, Option.mem_toList, isReport]
        constructor
        · intro reports
          exact ⟨[], Nat.succ_pos fuel, by rwa [List.append_nil], by rwa [List.append_nil]⟩
        · intro visited
          obtain ⟨rest, -, metThere, reports⟩ := visited
          cases rest with
          | nil =>
              rwa [List.append_nil] at reports
          | cons name rest =>
              obtain ⟨place, entersThere, -⟩ := metThere.enters
              exact absurd ⟨place, entersThere⟩ goesIn

/-- Below a directory the subtrees come one after the other in the order of their names, and that is
the order of paths. -/
theorem visits_ascending (wellFormed : workspace.tree.WellFormed)
    (chainTo : workspace.ChainTo root names chain) (met : workspace.Meets skip root names) :
    (workspace.visits skip fuel chain (root.below names)).Pairwise
      fun left right => left.path.Before right.path := by
  induction fuel generalizing names chain with
  | zero =>
      exact List.Pairwise.nil
  | succ fuel inductionHypothesis =>
      by_cases goesIn : ∃ location, workspace.Enters skip root names location
      · obtain ⟨location, enters⟩ := goesIn
        have metChild {name : String} (held : name ∈ workspace.tree.names location) :
            workspace.Meets skip root (names ++ [name]) :=
          meets_concat_iff.2 ⟨met, location, enters, held⟩
        rw [visits_of_enters chainTo enters, List.pairwise_flatMap]
        constructor
        · intro name held
          exact inductionHypothesis (chainTo.concat enters.leads name) (metChild held)
        · have plainBelow {name : String} {rest : List String}
              (metThere : workspace.Meets skip root (names ++ [name] ++ rest)) :
              ∀ other ∈ name :: rest, PlainName other := by
            rw [← List.append_cons] at metThere
            intro other member
            exact metThere.plainName wellFormed other (List.mem_append_right names member)
          apply List.Pairwise.imp_of_mem _ (FileTree.names_ascending wellFormed location)
          intro leftName rightName leftHeld rightHeld precedes left leftVisited right rightVisited
          obtain ⟨leftRest, -, leftMet, leftReports⟩ :=
            (mem_visits_iff (chainTo.concat enters.leads leftName) (metChild leftHeld)).1 leftVisited
          obtain ⟨rightRest, -, rightMet, rightReports⟩ :=
            (mem_visits_iff (chainTo.concat enters.leads rightName) (metChild rightHeld)).1
              rightVisited
          rw [leftReports.path_eq, rightReports.path_eq, ← List.append_cons, ← List.append_cons,
            Path.below_append, Path.below_append]
          apply Path.before_below _ (plainBelow leftMet) (plainBelow rightMet)
          exact List.cons_lt_cons_iff.2 (Or.inl precedes)
      · obtain ⟨report, visited, -⟩ := visits_of_not_enters chainTo (not_exists.1 goesIn) fuel
        rw [visited]
        cases report with
        | none =>
            exact List.Pairwise.nil
        | some visit =>
            exact List.pairwise_singleton _ visit

/-- A walk reports what it comes to, if its bound is no smaller than that of the workspace. -/
theorem mem_visits_root_iff (wellFormed : workspace.tree.WellFormed)
    (enough : workspace.walkBound ≤ fuel) :
    visit ∈ workspace.visits skip fuel [] root ↔
      ∃ names, workspace.Meets skip root names ∧ workspace.Reports skip root names visit := by
  rw [← Path.below_nil root, mem_visits_iff ChainTo.nil meets_nil]
  constructor
  · intro visited
    obtain ⟨names, -, met, reports⟩ := visited
    exact ⟨names, met, reports⟩
  · intro visited
    obtain ⟨names, met, reports⟩ := visited
    exact ⟨names, Nat.lt_of_lt_of_le (met.length_lt_walkBound wellFormed) enough, met, reports⟩

theorem visits_root_ascending (wellFormed : workspace.tree.WellFormed) :
    (workspace.visits skip fuel [] root).Pairwise
      fun left right => left.path.Before right.path :=
  visits_ascending wellFormed ChainTo.nil meets_nil

/-- A walk ends: a larger bound changes nothing. -/
theorem visits_root_eq (wellFormed : workspace.tree.WellFormed)
    (enough : workspace.walkBound ≤ fuel) :
    workspace.visits skip fuel [] root =
      workspace.visits skip workspace.walkBound [] root := by
  apply eq_of_pairwise_of_mem_iff (fun left right before => before.not_before)
    (visits_root_ascending wellFormed) (visits_root_ascending wellFormed)
  intro visit
  rw [mem_visits_root_iff wellFormed enough, mem_visits_root_iff wellFormed (Nat.le_refl _)]

end Workspace

end ClojureBuild
