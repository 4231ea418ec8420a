import Mathlib.Data.List.Forall2
import ClojureBuild.Proofs.FileTree.Fillers
import ClojureBuild.Proofs.Path.Steps
import ClojureBuild.Proofs.Workspace.Survey
import ClojureBuild.Proofs.Workspace.Walk

/-!
# Spellings of one path

Absolute paths that are the same lead to the same directory, and to any entry if neither of them ends
in a filler.  Walks from the same directory come to the same paths in the same order, each spelled
after its root.
-/

namespace ClojureBuild

namespace Path

variable {path left right : Path}

/-- The last piece of a path is no filler. -/
def EndsInStep (path : Path) : Prop :=
  ∀ front last, path.body = front ++ [last] → isFiller last = false

theorem EndsInStep.padded (ends : path.EndsInStep) : Padded path.steps path.body := by
  obtain ⟨front, last, split⟩ := (List.eq_nil_or_concat path.body).resolve_left path.body_ne_nil
  rw [List.concat_eq_append] at split
  have solid : [last].filter (fun piece => !isFiller piece) = [last] := by
    simp [ends front last split]
  rw [steps, split, List.filter_append, solid]
  exact Padded.filter_append front (List.cons_ne_nil last [])

/-- Absolute paths that differ in fillers in front of other pieces only. -/
structure Alike (left right : Path) : Prop where
  leftAbsolute : left.isAbsolute = true
  rightAbsolute : right.isAbsolute = true
  padded : ∃ pieces, Padded pieces left.body ∧ Padded pieces right.body

theorem alike_of_same (absolute : left.isAbsolute = true) (same : left.same right = true)
    (leftEnds : left.EndsInStep) (rightEnds : right.EndsInStep) : left.Alike right where
  leftAbsolute := absolute
  rightAbsolute := by
    rw [← isAbsolute_eq_of_same same, absolute]
  padded := by
    refine ⟨left.steps, leftEnds.padded, ?_⟩
    rw [steps_eq_of_same same]
    exact rightEnds.padded

theorem alike_join_of_same (absolute : left.isAbsolute = true) (same : left.same right = true)
    (inner : Path) : (left.join inner).Alike (right.join inner) := by
  have rightAbsolute : right.isAbsolute = true := by
    rw [← isAbsolute_eq_of_same same, absolute]
  refine ⟨isAbsolute_join_of_left absolute, isAbsolute_join_of_left rightAbsolute, ?_⟩
  cases kind : inner.isAbsolute with
  | true =>
      have replaced (base : Path) : base.join inner = inner := by
        simp [join, kind]
      rw [replaced, replaced]
      exact ⟨inner.body, Padded.refl _, Padded.refl _⟩
  | false =>
      refine ⟨left.steps ++ inner.pieces, ?_, ?_⟩
      · rw [body_join kind (text_ne_empty_of_isAbsolute absolute), ← filter_core]
        exact Padded.filter_append left.core inner.pieces_ne_nil
      · rw [body_join kind (text_ne_empty_of_isAbsolute rightAbsolute), steps_eq_of_same same,
          ← filter_core]
        exact Padded.filter_append right.core inner.pieces_ne_nil

namespace Alike

theorem steps_eq (alike : left.Alike right) : left.steps = right.steps := by
  obtain ⟨pieces, padsLeft, padsRight⟩ := alike.padded
  rw [steps, steps, padsLeft.filter_eq, padsRight.filter_eq]

theorem same (alike : left.Alike right) : left.same right = true :=
  same_of_steps_eq alike.leftAbsolute alike.rightAbsolute alike.steps_eq

theorem join (alike : left.Alike right) (inner : Path) :
    (left.join inner).Alike (right.join inner) :=
  alike_join_of_same alike.leftAbsolute alike.same inner

end Alike

end Path

/-- What two walks meet is of one kind, and files are the same. -/
inductive Visit.Matches : Visit → Visit → Prop
  | file {left right : Path} (same : left.same right = true) :
      Visit.Matches (.file left) (.file right)
  | loop (child ancestor otherChild otherAncestor : Path) :
      Visit.Matches (.loop child ancestor) (.loop otherChild otherAncestor)
  | failed (path other : Path) (failure otherFailure : SystemFailure) :
      Visit.Matches (.failed path failure) (.failed other otherFailure)

namespace Workspace

variable {workspace : Workspace} {path left right : Path} {location place : Location}
variable {files : List Path}

/-! ## Looking things up -/

theorem zero_mem_text_iff_of_steps_eq (steps : left.steps = right.steps) :
    '\x00' ∈ left.text.toList ↔ '\x00' ∈ right.text.toList := by
  rw [left.mem_text_iff (by decide) (by decide), right.mem_text_iff (by decide) (by decide), steps]

theorem resolve_eq_found_iff_of_alike (workspace : Workspace) (alike : left.Alike right)
    (followLast : Bool) :
    workspace.resolve followLast left = .found place ↔
      workspace.resolve followLast right = .found place := by
  have zeros := zero_mem_text_iff_of_steps_eq alike.steps_eq
  have leftWritten := Path.text_ne_empty_of_isAbsolute alike.leftAbsolute
  have rightWritten := Path.text_ne_empty_of_isAbsolute alike.rightAbsolute
  by_cases zero : '\x00' ∈ left.text.toList
  · constructor
    · intro found
      exact absurd zero (FileTree.written_of_resolve_found found).2
    · intro found
      exact absurd (zeros.1 zero) (FileTree.written_of_resolve_found found).2
  · obtain ⟨pieces, padsLeft, padsRight⟩ := alike.padded
    rw [resolve_eq_followLinks leftWritten zero,
      resolve_eq_followLinks rightWritten (mt zeros.2 zero), FileTree.startOf, FileTree.startOf,
      alike.leftAbsolute, alike.rightAbsolute, ← FileTree.followLinks_padded_iff padsLeft,
      ← FileTree.followLinks_padded_iff padsRight]

theorem look_eq_ok_iff_of_alike (workspace : Workspace) (alike : left.Alike right)
    (followLast : Bool) (held : Location × Entry) :
    workspace.look followLast left = .ok held ↔ workspace.look followLast right = .ok held := by
  obtain ⟨place, entry⟩ := held
  rw [look_eq_ok_iff_resolve, look_eq_ok_iff_resolve,
    resolve_eq_found_iff_of_alike workspace alike]

theorem entrySatisfies_eq_of_alike (workspace : Workspace) (alike : left.Alike right)
    (property : Entry → Bool) :
    workspace.entrySatisfies property left = workspace.entrySatisfies property right := by
  rw [Bool.eq_iff_iff, entrySatisfies_iff, entrySatisfies_iff]
  simp only [status, look_eq_ok_iff_of_alike workspace alike]

theorem isLink_eq_of_alike (workspace : Workspace) (alike : left.Alike right) :
    workspace.isLink left = workspace.isLink right := by
  have found := look_eq_ok_iff_of_alike workspace alike false
  rw [isLink, isLink]
  cases looked : workspace.look false left with
  | ok held =>
      rw [(found held).1 looked]
  | error failure =>
      cases other : workspace.look false right with
      | ok held =>
          rw [(found held).2 other] at looked
          cases looked
      | error cause =>
          rfl

/-- Of a path that leads to anything but a directory no filler is the end. -/
theorem endsInStep_of_status {entry : Entry} (found : workspace.status path = .ok (location, entry))
    (noDirectory : entry.isDirectory = false) : path.EndsInStep := by
  obtain ⟨resolved, held⟩ := look_eq_ok_iff_resolve.1 found
  have written := FileTree.written_of_resolve_found resolved
  rw [resolve_eq_followLinks written.1 written.2] at resolved
  intro front last split
  rw [← Bool.not_eq_true]
  intro isFiller
  rw [split, FileTree.followLinks_append_filler_iff isFiller] at resolved
  obtain ⟨-, changed, directory⟩ := resolved
  rw [held] at directory
  cases directory
  cases noDirectory

theorem endsInStep_of_isFile (file : workspace.isFile path = true) : path.EndsInStep := by
  obtain ⟨location, content, modified, mode, found⟩ := (workspace.isFile_iff path).1 file
  exact endsInStep_of_status found rfl

theorem leadsToDirectory_of_same (absolute : left.isAbsolute = true)
    (same : left.same right = true) (leads : workspace.LeadsToDirectory left location) :
    workspace.LeadsToDirectory right location := by
  have steps := Path.steps_eq_of_same same
  have rightAbsolute : right.isAbsolute = true := by
    rw [← Path.isAbsolute_eq_of_same same, absolute]
  obtain ⟨resolved, directory⟩ := leadsToDirectory_iff.1 leads
  obtain ⟨written, noZero⟩ := FileTree.written_of_resolve_found resolved
  rw [resolve_eq_followLinks written noZero, FileTree.startOf, absolute] at resolved
  have found := (FileTree.followLinks_directory_iff steps).1 ⟨resolved, directory⟩
  refine leadsToDirectory_iff.2 ⟨?_, directory⟩
  rw [resolve_eq_followLinks (Path.text_ne_empty_of_isAbsolute rightAbsolute)
    (mt (zero_mem_text_iff_of_steps_eq steps).2 noZero), FileTree.startOf, rightAbsolute]
  exact found.1

theorem isDirectory_of_same (absolute : left.isAbsolute = true) (same : left.same right = true)
    (directory : workspace.isDirectory left = true) : workspace.isDirectory right = true := by
  rw [isDirectory_iff_leadsToDirectory] at directory ⊢
  obtain ⟨location, leads⟩ := directory
  exact ⟨location, leadsToDirectory_of_same absolute same leads⟩

/-! ## Walks -/

theorem isSome_ancestorAt? (chain : Chain) (location : Location) :
    (ancestorAt? chain location).isSome = (chain.map Prod.snd).contains location := by
  induction chain with
  | nil =>
      rfl
  | cons held rest inductionHypothesis =>
      rw [ancestorAt?, Option.isSome_map] at inductionHypothesis ⊢
      rw [List.map_cons, List.contains_cons, ← inductionHypothesis, List.find?_cons]
      cases here : held.2 == location with
      | true =>
          have same : (location == held.2) = true := by
            rw [beq_iff_eq] at here ⊢
            exact here.symm
          simp [same]
      | false =>
          have differs : (location == held.2) = false := by
            rw [beq_eq_false_iff_ne] at here ⊢
            exact here.symm
          simp [differs]

/-- What is visited in a directory from two paths to it. -/
theorem forall₂_flatMap {α β γ : Type} {matched : β → γ → Prop} {first : α → List β}
    {second : α → List γ} (each : ∀ item, List.Forall₂ matched (first item) (second item))
    (items : List α) : List.Forall₂ matched (items.flatMap first) (items.flatMap second) := by
  induction items with
  | nil =>
      exact List.Forall₂.nil
  | cons item rest inductionHypothesis =>
      rw [List.flatMap_cons, List.flatMap_cons]
      exact List.rel_append (each item) inductionHypothesis

theorem visits_alike (workspace : Workspace) (fuel : Nat) {chain other : Chain}
    (alike : left.Alike right) (locations : chain.map Prod.snd = other.map Prod.snd) :
    List.Forall₂ Visit.Matches (workspace.visits none fuel chain left)
      (workspace.visits none fuel other right) := by
  induction fuel generalizing chain other left right with
  | zero =>
      exact List.Forall₂.nil
  | succ fuel inductionHypothesis =>
      have found := look_eq_ok_iff_of_alike workspace alike true
      cases looked : workspace.status left with
      | error failure =>
          cases lookedRight : workspace.status right with
          | ok held =>
              rw [status, (found held).2 lookedRight] at looked
              cases looked
          | error otherFailure =>
              simp only [visits, looked, lookedRight]
              exact List.Forall₂.cons (.failed left right failure otherFailure) List.Forall₂.nil
      | ok held =>
          have lookedRight : workspace.status right = .ok held := (found held).1 looked
          obtain ⟨location, entry⟩ := held
          cases entry with
          | link target =>
              simp only [visits, looked, lookedRight]
              exact List.Forall₂.nil
          | file content modified mode =>
              simp only [visits, looked, lookedRight, Option.any_none, Bool.and_false,
                Bool.false_eq_true, if_false]
              exact List.Forall₂.cons (.file alike.same) List.Forall₂.nil
          | directory modified =>
              have inside :
                  List.Forall₂ Visit.Matches
                    ((workspace.tree.names location).flatMap fun name =>
                      workspace.visits none fuel ((left, location) :: chain) (left.join ⟨name⟩))
                    ((workspace.tree.names location).flatMap fun name =>
                      workspace.visits none fuel ((right, location) :: other)
                        (right.join ⟨name⟩)) := by
                apply forall₂_flatMap
                intro name
                exact inductionHypothesis (alike.join ⟨name⟩) (by simp [locations])
              have ancestors :
                  (if workspace.isLink left then ancestorAt? chain location else none).isSome =
                    (if workspace.isLink left then ancestorAt? other location else none).isSome := by
                split
                · rw [isSome_ancestorAt?, isSome_ancestorAt?, locations]
                · rfl
              simp only [visits, looked, lookedRight, ← isLink_eq_of_alike workspace alike,
                Option.any_none, Bool.and_false, Bool.false_eq_true, if_false]
              cases above : if workspace.isLink left then ancestorAt? chain location else none with
              | none =>
                  rw [above, Option.isSome_none, eq_comm, Option.isSome_eq_false_iff,
                    Option.isNone_iff_eq_none] at ancestors
                  rw [ancestors]
                  exact inside
              | some ancestor =>
                  rw [above, Option.isSome_some, eq_comm, Option.isSome_iff_exists] at ancestors
                  obtain ⟨otherAncestor, otherAbove⟩ := ancestors
                  rw [otherAbove]
                  exact List.Forall₂.cons (.loop left ancestor right otherAncestor)
                    List.Forall₂.nil

/-- From the same directory the same is met, whatever the path to it. -/
theorem visits_of_same (workspace : Workspace) (fuel : Nat) (absolute : left.isAbsolute = true)
    (same : left.same right = true) (directory : workspace.isDirectory left = true) :
    List.Forall₂ Visit.Matches (workspace.visits none fuel [] left)
      (workspace.visits none fuel [] right) := by
  obtain ⟨location, leads⟩ := isDirectory_iff_leadsToDirectory.1 directory
  obtain ⟨modified, found⟩ := leads
  obtain ⟨changed, otherFound⟩ := leadsToDirectory_of_same absolute same ⟨modified, found⟩
  have nowhere : ancestorAt? [] location = none := rfl
  cases fuel with
  | zero =>
      exact List.Forall₂.nil
  | succ fuel =>
      simp only [visits, found, otherFound, nowhere, ite_self, Option.any_none, Bool.and_false,
        Bool.false_eq_true, if_false]
      apply forall₂_flatMap
      intro name
      exact visits_alike workspace fuel (Path.alike_join_of_same absolute same ⟨name⟩) rfl

theorem collect_matches {visits others : List Visit}
    (matched : List.Forall₂ Visit.Matches visits others)
    (done : (collect visits).1 = .ok files) :
    ∃ found, (collect others).1 = .ok found ∧
      List.Forall₂ (fun left right : Path => left.same right = true) files found := by
  induction matched generalizing files with
  | nil =>
      cases done
      exact ⟨[], rfl, List.Forall₂.nil⟩
  | @cons visit other visits others first rest inductionHypothesis =>
      cases first with
      | @file left right same =>
          change (collect visits).1.map (left :: ·) = .ok files at done
          cases collected : (collect visits).1 with
          | error failure =>
              rw [collected] at done
              cases done
          | ok later =>
              rw [collected] at done
              cases done
              obtain ⟨found, isFound, alike⟩ := inductionHypothesis collected
              refine ⟨right :: found, ?_, List.Forall₂.cons same alike⟩
              change (collect others).1.map (right :: ·) = .ok (right :: found)
              rw [isFound]
              rfl
      | loop child ancestor otherChild otherAncestor =>
          exact inductionHypothesis done
      | failed path other failure otherFailure =>
          cases done

theorem exists_of_forall₂ {α : Type} {matched : α → α → Prop} {first second : List α}
    (alike : List.Forall₂ matched first second) :
    (∀ left ∈ first, ∃ right ∈ second, matched left right) ∧
      ∀ right ∈ second, ∃ left ∈ first, matched left right := by
  induction alike with
  | nil =>
      simp
  | @cons left right lefts rights heads tails inductionHypothesis =>
      constructor
      · intro item member
        cases List.mem_cons.1 member with
        | inl isHead =>
            rw [isHead]
            exact ⟨right, List.mem_cons_self, heads⟩
        | inr inTail =>
            obtain ⟨other, inRights, isMatched⟩ := inductionHypothesis.1 item inTail
            exact ⟨other, List.mem_cons_of_mem right inRights, isMatched⟩
      · intro item member
        cases List.mem_cons.1 member with
        | inl isHead =>
            rw [isHead]
            exact ⟨left, List.mem_cons_self, heads⟩
        | inr inTail =>
            obtain ⟨other, inLefts, isMatched⟩ := inductionHypothesis.2 item inTail
            exact ⟨other, List.mem_cons_of_mem left inLefts, isMatched⟩

/-- A walk from the same directory finds the same files. -/
theorem walk_of_same (absolute : left.isAbsolute = true) (same : left.same right = true)
    (directory : workspace.isDirectory left = true)
    (done : (workspace.walk left none).1 = .ok files) :
    ∃ found, (workspace.walk right none).1 = .ok found ∧
      (∀ file ∈ files, ∃ other ∈ found, file.same other = true) ∧
        ∀ other ∈ found, ∃ file ∈ files, file.same other = true := by
  have rightAbsolute : right.isAbsolute = true := by
    rw [← Path.isAbsolute_eq_of_same same, absolute]
  rw [walk, same_standardInput_of_isAbsolute absolute, if_neg Bool.false_ne_true] at done
  rw [walk, same_standardInput_of_isAbsolute rightAbsolute, if_neg Bool.false_ne_true]
  obtain ⟨found, isFound, matched⟩ :=
    collect_matches (visits_of_same workspace _ absolute same directory) done
  exact ⟨found, isFound, exists_of_forall₂ matched⟩

theorem isFile_of_mem_visits {skip : Option Path} {chain : Chain} {fuel : Nat}
    (visited : .file path ∈ workspace.visits skip fuel chain left) :
    workspace.isFile path = true := by
  induction fuel generalizing chain left with
  | zero =>
      cases visited
  | succ fuel inductionHypothesis =>
      cases looked : workspace.status left with
      | error failure =>
          simp [visits, looked] at visited
      | ok held =>
          obtain ⟨location, entry⟩ := held
          cases entry with
          | link target =>
              simp [visits, looked] at visited
          | file content modified mode =>
              simp only [visits, looked] at visited
              split at visited
              · cases visited
              · rw [List.mem_singleton] at visited
                cases visited
                exact (workspace.isFile_iff path).2 ⟨location, content, modified, mode, looked⟩
          | directory modified =>
              simp only [visits, looked] at visited
              split at visited
              · simp at visited
              · split at visited
                · cases visited
                · obtain ⟨name, -, visitedThere⟩ := List.mem_flatMap.1 visited
                  exact inductionHypothesis visitedThere

theorem isFile_of_mem_walk (done : (workspace.walk left none).1 = .ok files)
    (member : path ∈ files) : workspace.isFile path = true := by
  rw [walk] at done
  split at done
  · cases done
    cases member
  · obtain ⟨-, isFiles⟩ := collect_eq_ok_iff.1 done
    rw [← isFiles] at member
    obtain ⟨visit, visited, isFile⟩ := List.mem_filterMap.1 member
    rw [Visit.file?_eq_some_iff.1 isFile] at visited
    exact isFile_of_mem_visits visited

/-- A walk from a path that is no directory finds at most the path itself. -/
theorem eq_of_mem_walk (noDirectory : workspace.isDirectory left = false)
    (done : (workspace.walk left none).1 = .ok files) (member : path ∈ files) : path = left := by
  rw [walk] at done
  split at done
  · cases done
    cases member
  · generalize workspace.walkBound = fuel at done
    cases fuel with
    | zero =>
        cases done
        cases member
    | succ fuel =>
        cases looked : workspace.status left with
        | error failure =>
            simp only [visits, looked] at done
            cases done
        | ok held =>
            obtain ⟨location, entry⟩ := held
            cases entry with
            | link target =>
                simp only [visits, looked] at done
                cases done
                cases member
            | file content modified mode =>
                simp only [visits, looked, Option.any_none, Bool.and_false, Bool.false_eq_true,
                  if_false] at done
                cases done
                exact List.mem_singleton.1 member
            | directory modified =>
                have directory :=
                  isDirectory_iff_leadsToDirectory.2 ⟨location, modified, looked⟩
                rw [noDirectory] at directory
                cases directory

end Workspace

end ClojureBuild
