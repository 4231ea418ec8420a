import ClojureBuild.Proofs.Build.Heedless
import ClojureBuild.Proofs.Namespace.Spelling

/-!
# Naming the namespaces

A build compiles the namespaces that it is told to, or else those that it finds below the roots.
Told the names of all that it would find, in order, it does the same, but for the notices on the way
to finding them.
-/

namespace ClojureBuild

namespace Text

/-- A text has no blank at either end. -/
structure Unpadded (text : String) : Prop where
  front : ∀ letter ∈ text.toList.head?, isBlank letter = false
  back : ∀ letter ∈ text.toList.getLast?, isBlank letter = false

theorem dropWhile_isBlank_eq_self {letters : List Char}
    (front : ∀ letter ∈ letters.head?, isBlank letter = false) :
    letters.dropWhile isBlank = letters := by
  cases letters with
  | nil =>
      rfl
  | cons letter rest =>
      rw [List.dropWhile_cons_of_neg]
      simp [front letter rfl]

theorem trim_of_unpadded {text : String} (unpadded : Unpadded text) : trim text = text := by
  have back : text.toList.reverse.dropWhile isBlank = text.toList.reverse := by
    apply dropWhile_isBlank_eq_self
    rw [List.head?_reverse]
    exact unpadded.back
  rw [trim, dropWhile_isBlank_eq_self unpadded.front, dropTrailingBlanks, back,
    List.reverse_reverse, String.ofList_toList]

end Text

theorem readLib_name {defined : Namespace} (unpadded : Text.Unpadded defined.name) :
    readLib defined.name = .ok defined := by
  have read : Namespace.parse defined.name = .ok defined := Namespace.parse_eq_ok_iff.2 rfl
  rw [readLib, Text.trim_of_unpadded unpadded, read]

/-- Reading the names of namespaces gives these namespaces. -/
theorem readLibs_names {namespaces : List Namespace}
    (unpadded : ∀ defined ∈ namespaces, Text.Unpadded defined.name) :
    readLibs (some (namespaces.map Namespace.name)) = .ok (some namespaces) := by
  have read : (namespaces.map Namespace.name).mapM readLib = .ok namespaces := by
    rw [Build.mapM_eq_ok_iff, List.forall₂_map_left_iff, List.forall₂_same]
    intro defined member
    exact readLib_name (unpadded defined member)
  rw [readLibs, read]
  rfl

namespace Build

variable {tools : Tools} {target : Path} {sources : List Path} {split : Sources}
variable {namespaces : List Namespace} {dependencies : List Dependency}
variable {policy : SecondaryPolicy} {libs : Option (List String)}

/-- What a build does once its namespaces are known. -/
def buildChosen (tools : Tools) (target : Path) (dependencies : List Dependency)
    (policy : SecondaryPolicy) (split : Sources) (namespaces : List Namespace) :
    Build BuildReport := do
  let definitions ← ofExcept id ((← get).workspace.definitionsOf split.roots namespaces)
  let classpath ← searchOrder tools.resolver dependencies split.roots tools.toolchain.runtimeJar
  let plan : Plan := ⟨target, split, namespaces, definitions, classpath⟩
  let filled ← fillTarget tools plan
  finish tools ⟨none, policy⟩ plan filled

/-- The names that a build is given matter to the choice of its namespaces only. -/
theorem compile_eq_buildChosen :
    compile tools sources target dependencies ⟨libs, policy⟩ =
      absolute target >>= fun target => gatherSources sources >>= fun split =>
        chooseNamespaces ⟨libs, policy⟩ split.roots >>=
          buildChosen tools target dependencies policy split := by
  rw [compile_eq, makePlan]
  simp only [bind_assoc, pure_bind]
  rfl

theorem heedless_buildChosen
    (compilers : ∀ unit, Heedless (compileUnit tools.compilers unit)) :
    Heedless (buildChosen tools target dependencies policy split namespaces) := by
  have defined (workspace : Workspace) :
      Heedless (ofExcept id (workspace.definitionsOf split.roots namespaces) >>=
        fun definitions =>
          searchOrder tools.resolver dependencies split.roots tools.toolchain.runtimeJar >>=
            fun classpath =>
              fillTarget tools ⟨target, split, namespaces, definitions, classpath⟩ >>=
                finish tools ⟨none, policy⟩
                  ⟨target, split, namespaces, definitions, classpath⟩) := by
    apply Heedless.bind (Heedless.ofExcept _ _)
    intro definitions
    apply Heedless.bind (heedless_searchOrder _ _ _ _)
    intro classpath
    apply Heedless.bind (Heedless.stepwise.fillTarget (heedless_compileNamespaces _ _ _ _ _))
    intro filled
    exact Heedless.stepwise.finish compilers _ _ filled
  exact Heedless.look defined

/-- Two results of builds differ at most by notices that only the second one has, all of them from
one place. -/
structure SameButNotices (told : List Notice)
    (first second : Except BuildError BuildReport × Progress) : Prop where
  outcome : first.1 = second.1
  commands : first.2.commands = second.2.commands
  workspace : first.2.workspace = second.2.workspace
  notices : ∃ before between after, first.2.notices = before ++ after ∧
    second.2.notices = before ++ between ++ after ∧ (between = [] ∨ between = told)

theorem SameButNotices.refl (told : List Notice)
    (result : Except BuildError BuildReport × Progress) : SameButNotices told result result where
  outcome := rfl
  commands := rfl
  workspace := rfl
  notices := ⟨result.2.notices, [], [], by simp, by simp, Or.inl rfl⟩

theorem sameButNotices_of_heedless {build : Build BuildReport} (heedless : Heedless build)
    (before told : List Notice) (progress : Progress) :
    SameButNotices told (build.after (progress.precededBy before))
      (build.after (progress.precededBy (before ++ told))) := by
  rw [heedless, heedless]
  exact ⟨rfl, rfl, rfl, before, told, (build.after progress).2.notices, rfl, rfl, Or.inr rfl⟩

/-- A build that only looks leaves its notices and nothing else. -/
theorem eq_precededBy_of_reads {α : Type} {build : Build α} {value : α} {later : Progress}
    {workspace : Workspace} {outcome : Workspace → Except BuildError α}
    (reads : Reads build outcome) (done : build.on workspace = (.ok value, later)) :
    later = (Progress.start workspace).precededBy later.notices := by
  obtain ⟨-, sameWorkspace, sameCommands⟩ := reads.of_after_eq_ok done
  cases later with
  | mk laterWorkspace commands notices =>
      cases sameWorkspace
      cases sameCommands
      simp [Progress.precededBy, Progress.start]

/-- A build that is told the names of all namespaces below its roots, in order, ends as one that
finds them, with the same commands and the same workspace.  Only the one that finds them gives the
notices of finding them. -/
theorem names_of_found_namespaces_build_the_same
    (target : Path) (dependencies : List Dependency) (policy : SecondaryPolicy)
    {workspace : Workspace} {sorted detected : Progress}
    (compilers : ∀ unit, Heedless (compileUnit tools.compilers unit))
    (gathered : (gatherSources sources).on workspace = (.ok split, sorted))
    (found : (namespacesOfRoots split.roots).on workspace = (.ok namespaces, detected))
    (unpadded : ∀ defined ∈ namespaces, Text.Unpadded defined.name) :
    SameButNotices detected.notices
      ((compile tools sources target dependencies
        ⟨some (namespaces.map Namespace.name), policy⟩).on workspace)
      ((compile tools sources target dependencies ⟨none, policy⟩).on workspace) := by
  have isSorted := eq_precededBy_of_reads (reads_gatherSources sources) gathered
  have isDetected := eq_precededBy_of_reads (reads_namespacesOfRoots split.roots) found
  have named :
      (chooseNamespaces ⟨some (namespaces.map Namespace.name), policy⟩ split.roots).after sorted =
        (.ok namespaces, sorted) := by
    rw [chooseNamespaces, readLibs_names unpadded]
    rfl
  have unnamed :
      (chooseNamespaces ⟨none, policy⟩ split.roots).after sorted =
        (.ok namespaces,
          (Progress.start workspace).precededBy (sorted.notices ++ detected.notices)) := by
    have walked :=
      heedless_namespacesOfRoots split.roots sorted.notices (Progress.start workspace)
    rw [← on_eq_after, found, ← isSorted] at walked
    rw [← Progress.precededBy_precededBy, ← isDetected]
    exact walked
  rw [on_eq_after, on_eq_after, compile_eq_buildChosen, compile_eq_buildChosen, after_bind,
    after_bind, after_absolute]
  cases form : (Progress.start workspace).workspace.absolute target with
  | error failure =>
      exact SameButNotices.refl detected.notices (.error (.file failure), Progress.start workspace)
  | ok target =>
      simp only [Except.mapError]
      rw [after_bind_of_ok gathered, after_bind_of_ok gathered, after_bind_of_ok named,
        after_bind_of_ok unnamed]
      have heedless :
          Heedless (buildChosen tools target dependencies policy split namespaces) :=
        heedless_buildChosen compilers
      have alike :=
        sameButNotices_of_heedless heedless sorted.notices detected.notices
          (Progress.start workspace)
      rwa [← isSorted] at alike

/-! ## A source without a namespace -/

/-- A namespace, and next to it a source that none belongs to. -/
def dottedSource : Workspace :=
  ⟨⟨[([], .directory ⟨0⟩), (["src"], .directory ⟨0⟩), (["src", "a.clj"], .file [] ⟨0⟩ 420),
      (["src", "b.c.clj"], .file [] ⟨0⟩ 420)]⟩, [], ⟨"/home"⟩, ⟨0⟩, []⟩

theorem found_name_builds_the_same :
    ∃ split sorted namespaces detected,
      (gatherSources [⟨"src"⟩]).on dottedSource = (.ok split, sorted) ∧
        (namespacesOfRoots split.roots).on dottedSource = (.ok namespaces, detected) ∧
          namespaces.map Namespace.name = ["a"] ∧
            detected.notices = [.unmappedSource ⟨"/src/b.c.clj"⟩] ∧
              SameButNotices detected.notices
                ((compile (toolsOf idleRunner) [⟨"src"⟩] ⟨"out"⟩ [] ⟨some ["a"], .firstMatch⟩).on
                  dottedSource)
                ((compile (toolsOf idleRunner) [⟨"src"⟩] ⟨"out"⟩ [] ⟨none, .firstMatch⟩).on
                  dottedSource) := by
  have roots :
      ((gatherSources [⟨"src"⟩]).on dottedSource).1.toOption.map Sources.roots =
        some [⟨"/src"⟩] := by
    decide +kernel
  have told :
      ((namespacesOfRoots [⟨"/src"⟩]).on dottedSource).1.toOption.map
          (fun namespaces => namespaces.map Namespace.name) = some ["a"] ∧
        ((namespacesOfRoots [⟨"/src"⟩]).on dottedSource).2.notices =
          [.unmappedSource ⟨"/src/b.c.clj"⟩] := by
    decide +kernel
  cases gathered : (gatherSources [⟨"src"⟩]).on dottedSource with
  | mk outcome sorted =>
      rw [gathered] at roots
      cases outcome with
      | error failure =>
          cases roots
      | ok split =>
          simp only [Except.toOption, Option.map_some, Option.some.injEq] at roots
          rw [← roots] at told
          cases found : (namespacesOfRoots split.roots).on dottedSource with
          | mk answer detected =>
              rw [found] at told
              cases answer with
              | error failure =>
                  cases told.1
              | ok namespaces =>
                  simp only [Except.toOption, Option.map_some, Option.some.injEq] at told
                  have unpadded : ∀ defined ∈ namespaces, Text.Unpadded defined.name := by
                    intro defined member
                    have isName := List.mem_map_of_mem (f := Namespace.name) member
                    rw [told.1, List.mem_singleton] at isName
                    rw [isName]
                    exact ⟨by simp [Text.isBlank], by simp [Text.isBlank]⟩
                  have compilers :
                      ∀ unit, Heedless (compileUnit (toolsOf idleRunner).compilers unit) :=
                    heedless_compilerPrograms idleRunner CompileSettings.default
                  have same :=
                    names_of_found_namespaces_build_the_same ⟨"out"⟩ [] .firstMatch compilers
                      gathered found unpadded
                  rw [told.1] at same
                  exact ⟨split, sorted, namespaces, detected, rfl, found, told.1, told.2, same⟩

end Build

end ClojureBuild
