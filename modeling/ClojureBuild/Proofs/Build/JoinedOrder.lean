import ClojureBuild.Proofs.Build.SearchOrder
import ClojureBuild.Proofs.Path.Steps

/-!
# Classpaths in one text

A virtual machine gets a classpath as one text and cuts it at every colon.  What it reads are the
entries, provided that none of them has a colon in it; otherwise that entry comes apart.
-/

namespace ClojureBuild

/-! ## Entries with colons -/

namespace Path

variable {left right : Path}

/-- A path has no colon in its text. -/
def FreeOfColons (path : Path) : Prop :=
  ':' ∉ path.text.toList

/-- However a path is spelled, it has the colons of its names. -/
theorem freeOfColons_iff_of_same (same : left.same right = true) :
    left.FreeOfColons ↔ right.FreeOfColons := by
  rw [FreeOfColons, FreeOfColons, mem_text_iff left (by decide) (by decide),
    mem_text_iff right (by decide) (by decide), steps_eq_of_same same]

end Path

namespace Classpath

variable {classpath : Classpath} {path last : Path} {paths : List Path}

/-- No entry has a colon in its text. -/
def FreeOfColons (classpath : Classpath) : Prop :=
  ∀ entry ∈ classpath.entries, entry.FreeOfColons

theorem freeOfColons_push_iff :
    (classpath.push path).FreeOfColons ↔ classpath.FreeOfColons ∧ path.FreeOfColons := by
  cases present : classpath.contains path with
  | true =>
      rw [push_of_contains present, iff_self_and]
      intro free
      rw [contains_eq, List.any_eq_true] at present
      obtain ⟨entry, member, same⟩ := present
      exact (Path.freeOfColons_iff_of_same same).1 (free entry member)
  | false =>
      rw [FreeOfColons, entries_push_of_absent present, List.forall_mem_append,
        List.forall_mem_singleton, FreeOfColons]

theorem freeOfColons_pushAll_iff :
    (classpath.pushAll paths).FreeOfColons ↔
      classpath.FreeOfColons ∧ ∀ path ∈ paths, path.FreeOfColons := by
  induction paths generalizing classpath with
  | nil =>
      simp [pushAll]
  | cons path rest inductionHypothesis =>
      have step : classpath.pushAll (path :: rest) = (classpath.push path).pushAll rest :=
        rfl
      rw [step, inductionHypothesis, freeOfColons_push_iff, List.forall_mem_cons, and_assoc]

theorem freeOfColons_ofList_iff :
    (ofList paths).FreeOfColons ↔ ∀ path ∈ paths, path.FreeOfColons := by
  rw [ofList, freeOfColons_pushAll_iff, and_iff_right_iff_imp]
  intro _ entry member
  cases member

theorem freeOfColons_endingIn_iff :
    (classpath.endingIn last).FreeOfColons ↔ classpath.FreeOfColons ∧ last.FreeOfColons := by
  rw [FreeOfColons, entries_endingIn, List.forall_mem_append, List.forall_mem_singleton,
    and_congr_left_iff]
  intro lastFree
  constructor
  · intro free entry member
    cases same : entry.same last with
    | true =>
        exact (Path.freeOfColons_iff_of_same same).2 lastFree
    | false =>
        exact free entry (List.mem_filter.2 ⟨member, by rw [same]; rfl⟩)
  · intro free entry member
    exact free entry (List.mem_filter.1 member).1

/-! ## Reading a joined classpath -/

/-- The pieces between colons of a joined classpath, which a virtual machine takes for its entries. -/
def readBack (classpath : Classpath) : List String :=
  Text.fields ':' classpath.join

theorem readBack_eq_flatMap (nonempty : classpath.entries ≠ []) :
    classpath.readBack = classpath.entries.flatMap fun entry => Text.fields ':' entry.text := by
  have texts : classpath.entries.map Path.text ≠ [] := by
    simpa using nonempty
  calc
    classpath.readBack
        = (classpath.entries.map Path.text).flatMap (Text.fields ':') :=
          Text.fields_joinWith_eq_flatMap texts
    _ = classpath.entries.flatMap fun entry => Text.fields ':' entry.text :=
          List.flatMap_map ..

theorem readBack_eq_iff (nonempty : classpath.entries ≠ []) :
    classpath.readBack = classpath.entries.map Path.text ↔ classpath.FreeOfColons := by
  constructor
  · intro read entry member
    have isField : entry.text ∈ classpath.readBack := by
      rw [read]
      exact List.mem_map_of_mem member
    exact Text.separator_notMem_of_mem_fields isField
  · intro free
    apply Text.fields_joinWith (by simpa using nonempty)
    intro text member
    obtain ⟨entry, inEntries, rfl⟩ := List.mem_map.1 member
    exact free entry inEntries

theorem entries_push_ne_nil (classpath : Classpath) (path : Path) :
    (classpath.push path).entries ≠ [] := by
  have contained := contains_push_self classpath path
  intro empty
  rw [contains_eq, empty] at contained
  cases contained

end Classpath

/-! ## Reading a composed classpath -/

namespace Build

variable {resolver : Resolver} {dependencies : List Dependency} {roots : List Path}
variable {runtime : Path} {workspace : Workspace} {classpath : Classpath}

theorem freeOfColons_gathered_iff {resolved absoluteRoots : List Path} {last : Path} :
    ((Classpath.ofList (resolved ++ absoluteRoots)).endingIn last).FreeOfColons ↔
      ∀ path ∈ resolved ++ absoluteRoots ++ [last], path.FreeOfColons := by
  rw [Classpath.freeOfColons_endingIn_iff, Classpath.freeOfColons_ofList_iff]
  simp only [List.forall_mem_append, List.forall_mem_singleton]

/-- A composed classpath is cut into the pieces of its entries.  They are the entries themselves when
no path that the classpath is composed from has a colon, and only then; a duplicate that has been
left out counts, since what is kept in its place has the same names.  So it is with the target added
for the compilation. -/
theorem composed_classpath_is_read_back_iff_free_of_colons
    (composed : ((searchOrder resolver dependencies roots runtime).on workspace).1 =
      .ok classpath) :
    classpath.readBack = (classpath.entries.flatMap fun entry => Text.fields ':' entry.text) ∧
      ∃ resolved absoluteRoots last,
        Gathered resolver dependencies roots runtime workspace resolved absoluteRoots last ∧
          (classpath.readBack = classpath.entries.map Path.text ↔
            ∀ path ∈ resolved ++ absoluteRoots ++ [last], path.FreeOfColons) ∧
            ∀ target : Path,
              (classpath.push target).readBack =
                  ((classpath.push target).entries.flatMap fun entry =>
                    Text.fields ':' entry.text) ∧
                ((classpath.push target).readBack =
                    (classpath.push target).entries.map Path.text ↔
                  (∀ path ∈ resolved ++ absoluteRoots ++ [last], path.FreeOfColons) ∧
                    target.FreeOfColons) := by
  have isRead :
      ((searchOrder resolver dependencies roots runtime).on workspace).1 =
        readOrder resolver dependencies roots runtime workspace := by
    obtain ⟨notices, done⟩ :=
      reads_searchOrder resolver dependencies roots runtime (Progress.start workspace)
    exact congrArg Prod.fst done
  rw [isRead] at composed
  obtain ⟨resolved, absoluteRoots, last, gathered, rfl⟩ := readOrder_eq_ok_iff.1 composed
  have nonempty :
      ((Classpath.ofList (resolved ++ absoluteRoots)).endingIn last).entries ≠ [] := by
    rw [Classpath.entries_endingIn]
    exact List.concat_ne_nil _ _
  refine ⟨Classpath.readBack_eq_flatMap nonempty, resolved, absoluteRoots, last, gathered, ?_, ?_⟩
  · rw [Classpath.readBack_eq_iff nonempty, freeOfColons_gathered_iff]
  · intro target
    have extended := Classpath.entries_push_ne_nil
      ((Classpath.ofList (resolved ++ absoluteRoots)).endingIn last) target
    refine ⟨Classpath.readBack_eq_flatMap extended, ?_⟩
    rw [Classpath.readBack_eq_iff extended, Classpath.freeOfColons_push_iff,
      freeOfColons_gathered_iff]

/-- A directory with one directory in it. -/
def workspaceWith (name : String) : Workspace where
  tree := ⟨[([], .directory ⟨0⟩), ([name], .directory ⟨0⟩)]⟩
  current := []
  home := ⟨"/home"⟩
  clock := ⟨0⟩

/-- The classpath of one root and the runtime archive. -/
def classpathOf (name : String) : Classpath :=
  (Classpath.ofList [⟨"/" ++ name⟩]).endingIn ⟨"/clj.jar"⟩

/-- The directory and the archive are read back, also before a target without colons. -/
theorem plain_root_is_read_back :
    ((searchOrder (LocalRepository.resolve ⟨none, ⟨"/"⟩⟩) [] [⟨"src"⟩] ⟨"/clj.jar"⟩).on
        (workspaceWith "src")).1 = .ok (classpathOf "src") ∧
      (classpathOf "src").readBack = ["/src", "/clj.jar"] ∧
        ((classpathOf "src").push ⟨"/out"⟩).readBack = ["/src", "/clj.jar", "/out"] := by
  have composed :
      ((searchOrder (LocalRepository.resolve ⟨none, ⟨"/"⟩⟩) [] [⟨"src"⟩] ⟨"/clj.jar"⟩).on
        (workspaceWith "src")).1 = .ok (classpathOf "src") := by
    decide +kernel
  obtain ⟨pieces, resolved, absoluteRoots, last, -, -, extended⟩ :=
    composed_classpath_is_read_back_iff_free_of_colons composed
  refine ⟨composed, ?_, ?_⟩
  · rw [pieces]
    decide +kernel
  · rw [(extended ⟨"/out"⟩).1]
    decide +kernel

/-- A root with a colon in its name is read as two entries. -/
theorem root_with_colon_comes_apart :
    ¬ ∀ (resolver : Resolver) (dependencies : List Dependency) (roots : List Path)
        (runtime : Path) (workspace : Workspace) (classpath : Classpath),
      ((searchOrder resolver dependencies roots runtime).on workspace).1 = .ok classpath →
        classpath.readBack = classpath.entries.map Path.text := by
  intro faithful
  have composed :
      ((searchOrder (LocalRepository.resolve ⟨none, ⟨"/"⟩⟩) [] [⟨"a:b"⟩] ⟨"/clj.jar"⟩).on
        (workspaceWith "a:b")).1 = .ok (classpathOf "a:b") := by
    decide +kernel
  have entries : (classpathOf "a:b").entries.map Path.text = ["/a:b", "/clj.jar"] := by
    decide +kernel
  have read : (classpathOf "a:b").readBack = ["/a", "b", "/clj.jar"] := by
    decide +kernel
  have agree := faithful _ _ _ _ _ _ composed
  rw [entries, read] at agree
  exact absurd agree (by decide)

end Build

end ClojureBuild
