import ClojureBuild.Proofs.Build.Plan
import ClojureBuild.Proofs.Classpath

/-!
# What is on the classpath

The dependencies are resolved first, then the roots and the runtime archive get their absolute forms.
The first of these steps that fails tells why there is no classpath.  When none does, the classpath
has the first occurrence of everything but the archive, and then the archive.
-/

namespace ClojureBuild.Build

variable {resolver : Resolver} {dependencies : List Dependency} {roots : List Path}
variable {runtime : Path} {workspace : Workspace} {classpath : Classpath} {failure : BuildError}

/-- The paths that a classpath is put together from. -/
structure Gathered (resolver : Resolver) (dependencies : List Dependency) (roots : List Path)
    (runtime : Path) (workspace : Workspace) (resolved absoluteRoots : List Path) (last : Path) :
    Prop where
  resolved : List.Forall₂ (fun dependency path => resolver workspace dependency = .ok path)
    dependencies resolved
  roots : List.Forall₂ (fun root path => workspace.absolute root = .ok path) roots absoluteRoots
  runtime : workspace.absolute runtime = .ok last

theorem readOrder_eq_ok_iff :
    readOrder resolver dependencies roots runtime workspace = .ok classpath ↔
      ∃ resolved absoluteRoots last,
        Gathered resolver dependencies roots runtime workspace resolved absoluteRoots last ∧
          classpath = (Classpath.ofList (resolved ++ absoluteRoots)).endingIn last := by
  simp only [readOrder, bind_eq_ok_iff, mapM_eq_ok_iff, mapError_eq_ok_iff]
  constructor
  · rintro ⟨resolved, found, absoluteRoots, anchored, last, form, isLast⟩
    cases isLast
    exact ⟨resolved, absoluteRoots, last, ⟨found, anchored, form⟩, rfl⟩
  · rintro ⟨resolved, absoluteRoots, last, ⟨found, anchored, form⟩, rfl⟩
    exact ⟨resolved, found, absoluteRoots, anchored, last, form, rfl⟩

theorem exists_gathered_iff :
    (∃ resolved absoluteRoots last,
        Gathered resolver dependencies roots runtime workspace resolved absoluteRoots last) ↔
      (∀ dependency ∈ dependencies, ∃ path, resolver workspace dependency = .ok path) ∧
        (∀ root ∈ roots, ∃ path, workspace.absolute root = .ok path) ∧
          ∃ path, workspace.absolute runtime = .ok path := by
  rw [← exists_forall₂_iff, ← exists_forall₂_iff]
  constructor
  · rintro ⟨resolved, absoluteRoots, last, found, anchored, form⟩
    exact ⟨⟨resolved, found⟩, ⟨absoluteRoots, anchored⟩, last, form⟩
  · rintro ⟨⟨resolved, found⟩, ⟨absoluteRoots, anchored⟩, last, form⟩
    exact ⟨resolved, absoluteRoots, last, found, anchored, form⟩

/-- A root is looked at when all dependencies are found, the archive when all roots are. -/
theorem readOrder_eq_error_iff :
    readOrder resolver dependencies roots runtime workspace = .error failure ↔
      (∃ reason, failure = .unresolved reason ∧
          FailsFirst (resolver workspace) dependencies reason) ∨
        (∀ dependency ∈ dependencies, ∃ path, resolver workspace dependency = .ok path) ∧
          ∃ reason, failure = .file reason ∧
            (FailsFirst workspace.absolute roots reason ∨
              (∀ root ∈ roots, ∃ path, workspace.absolute root = .ok path) ∧
                workspace.absolute runtime = .error reason) := by
  have returned (value : Classpath) :
      (pure value : Except BuildError Classpath) ≠ .error failure := by
    intro contradiction
    cases contradiction
  simp only [readOrder, bind_eq_error_iff, mapM_eq_error_iff, mapM_eq_ok_iff,
    failsFirst_mapError_iff, mapError_eq_error_iff, mapError_eq_ok_iff, returned, and_false,
    exists_false, or_false, ← exists_forall₂_iff]
  constructor
  · rintro (unresolved | ⟨resolved, found, ⟨reason, same, fails⟩ |
      ⟨absoluteRoots, anchored, reason, same, fails⟩⟩)
    · exact Or.inl unresolved
    · exact Or.inr ⟨⟨resolved, found⟩, reason, same, Or.inl fails⟩
    · exact Or.inr ⟨⟨resolved, found⟩, reason, same, Or.inr ⟨⟨absoluteRoots, anchored⟩, fails⟩⟩
  · rintro (unresolved | ⟨⟨resolved, found⟩, reason, same, fails |
      ⟨⟨absoluteRoots, anchored⟩, fails⟩⟩)
    · exact Or.inl unresolved
    · exact Or.inr ⟨resolved, found, Or.inl ⟨reason, same, fails⟩⟩
    · exact Or.inr ⟨resolved, found, Or.inr ⟨absoluteRoots, anchored, reason, same, fails⟩⟩

/-- There is a classpath when every dependency is found and all the other paths have absolute forms.
Its entries are the first occurrences of the dependencies and the roots, without the archive, and
then the archive.  Otherwise the first dependency that is not found is to blame, if there is one,
and no root has been looked at. -/
theorem search_order_is_first_occurrences_then_runtime
    (resolver : Resolver) (dependencies : List Dependency) (roots : List Path) (runtime : Path)
    (workspace : Workspace) :
    let outcome := ((searchOrder resolver dependencies roots runtime).on workspace).1
    ((∃ classpath, outcome = .ok classpath) ↔
        (∀ dependency ∈ dependencies, ∃ path, resolver workspace dependency = .ok path) ∧
          (∀ root ∈ roots, ∃ path, workspace.absolute root = .ok path) ∧
            ∃ path, workspace.absolute runtime = .ok path) ∧
      (∀ classpath, outcome = .ok classpath →
        ∃ resolved absoluteRoots last,
          Gathered resolver dependencies roots runtime workspace resolved absoluteRoots last ∧
            classpath.entries =
                ((Path.firstOccurrences (resolved ++ absoluteRoots)).filter fun entry =>
                  !entry.same last) ++ [last] ∧
              classpath.entries.Pairwise (fun left right => left.same right = false) ∧
                classpath.entries.countP last.same = 1 ∧
                  classpath.entries.dropLast.Pairwise fun left right =>
                    (resolved ++ absoluteRoots).findIdx left.same <
                      (resolved ++ absoluteRoots).findIdx right.same) ∧
        ∀ failure, outcome = .error failure ↔
          (∃ reason, failure = .unresolved reason ∧
              FailsFirst (resolver workspace) dependencies reason) ∨
            (∀ dependency ∈ dependencies, ∃ path, resolver workspace dependency = .ok path) ∧
              ∃ reason, failure = .file reason ∧
                (FailsFirst workspace.absolute roots reason ∨
                  (∀ root ∈ roots, ∃ path, workspace.absolute root = .ok path) ∧
                    workspace.absolute runtime = .error reason) := by
  intro outcome
  have isRead : outcome = readOrder resolver dependencies roots runtime workspace := by
    obtain ⟨notices, done⟩ :=
      reads_searchOrder resolver dependencies roots runtime (Progress.start workspace)
    exact congrArg Prod.fst done
  rw [isRead]
  refine ⟨?_, ?_, fun failure => readOrder_eq_error_iff⟩
  · rw [← exists_gathered_iff]
    constructor
    · rintro ⟨classpath, done⟩
      obtain ⟨resolved, absoluteRoots, last, gathered, -⟩ := readOrder_eq_ok_iff.1 done
      exact ⟨resolved, absoluteRoots, last, gathered⟩
    · rintro ⟨resolved, absoluteRoots, last, gathered⟩
      exact ⟨_, readOrder_eq_ok_iff.2 ⟨resolved, absoluteRoots, last, gathered, rfl⟩⟩
  · intro classpath done
    obtain ⟨resolved, absoluteRoots, last, gathered, rfl⟩ := readOrder_eq_ok_iff.1 done
    refine ⟨resolved, absoluteRoots, last, gathered, ?_, Classpath.distinct _,
      Classpath.countP_endingIn _ last, ?_⟩
    · rw [Classpath.entries_endingIn, Classpath.entries_ofList]
    · rw [Classpath.entries_endingIn, Classpath.entries_ofList, List.dropLast_concat]
      exact (Path.firstOccurrences_inOrder _).sublist List.filter_sublist

end ClojureBuild.Build
