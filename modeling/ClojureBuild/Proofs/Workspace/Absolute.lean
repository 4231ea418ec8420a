import ClojureBuild.Proofs.Path.Parts
import ClojureBuild.Proofs.Workspace.Spellings

/-!
# Absolute forms

The absolute form of a path is made of its steps, seen from the current directory if the path is
relative.  An absolute path has the same absolute form from everywhere, and the form leads to whatever
the path leads to.
-/

namespace ClojureBuild

namespace Path

variable {path base inner current form : Path} {part last : String} {parts : List String}

/-! ## Steps of joined parts -/

theorem steps_join (base inner : Path) :
    (base.join inner).steps =
      if inner.isAbsolute then inner.steps else base.steps ++ inner.steps := by
  cases kind : inner.isAbsolute with
  | true =>
      simp [join, kind]
  | false =>
      by_cases written : base.text = ""
      · have empty : base = ⟨""⟩ := eq_empty written
        rw [empty, join_empty, steps_empty]
        rfl
      · have innerSteps : inner.steps = inner.pieces.filter fun piece => !isFiller piece := by
          rw [steps, body_of_relative kind]
        rw [steps, body_join kind written, List.filter_append, filter_core, innerSteps]
        rfl

/-- A part is a step: no filler, and of one piece. -/
structure IsStep (part : String) : Prop where
  solid : isFiller part = false
  slashFree : '/' ∉ part.toList

theorem isStep_of_mem_steps (member : part ∈ path.steps) : IsStep part := by
  obtain ⟨inBody, solid⟩ := List.mem_filter.1 member
  exact ⟨by simpa using solid, slash_notMem_of_mem_body inBody⟩

theorem IsStep.steps (isStep : IsStep part) : (Path.mk part).steps = [part] := by
  rw [Path.steps, body_of_relative (isAbsolute_of_slash_notMem isStep.slashFree),
    pieces_of_slash_notMem isStep.slashFree]
  simp [isStep.solid]

theorem steps_below_of_areSteps (base : Path) (areSteps : ∀ part ∈ parts, IsStep part) :
    (base.below parts).steps = base.steps ++ parts := by
  induction parts generalizing base with
  | nil =>
      simp
  | cons part rest inductionHypothesis =>
      rw [List.forall_mem_cons] at areSteps
      rw [below_cons, inductionHypothesis (base.join ⟨part⟩) areSteps.2, steps_join,
        isAbsolute_of_slash_notMem areSteps.1.slashFree, areSteps.1.steps]
      simp

theorem isAbsolute_below_of_left (absolute : base.isAbsolute = true) (parts : List String) :
    (base.below parts).isAbsolute = true := by
  induction parts generalizing base with
  | nil =>
      exact absolute
  | cons part rest inductionHypothesis =>
      exact inductionHypothesis (isAbsolute_join_of_left absolute)

theorem endsInStep_join (written : base.text ≠ "") (isStep : IsStep last) :
    (base.join ⟨last⟩).EndsInStep := by
  intro front piece split
  rw [body_join (isAbsolute_of_slash_notMem isStep.slashFree) written,
    pieces_of_slash_notMem isStep.slashFree] at split
  rw [← List.singleton_inj.1 (List.append_inj' split rfl).2]
  exact isStep.solid

/-! ## The form of a path -/

/-- Where the steps of an absolute form start. -/
def formBase (path current : Path) : Path :=
  if path.hasDoubleTop then ⟨"//"⟩ else if path.isAbsolute then ⟨"/"⟩ else current

theorem isAbsolute_of_hasDoubleTop (double : path.hasDoubleTop = true) :
    path.isAbsolute = true := by
  unfold hasDoubleTop at double
  split at double
  · cases double
  · next split =>
      simp [isAbsolute, split]
  · cases double

/-- Apart from leading dots a path consists of the top, if it is absolute, and of its steps. -/
theorem filter_components_ne_current (path : Path) :
    path.components.filter (fun component => component ≠ .current) =
      (if path.isAbsolute then [.top] else []) ++
        path.components.filter fun component => component ≠ .top ∧ component ≠ .current := by
  rw [filter_components]
  cases absolute : path.isAbsolute with
  | true =>
      rw [components_of_isAbsolute absolute, List.filter_cons_of_pos (by simp), filter_later,
        if_pos rfl, List.singleton_append]
  | false =>
      rw [filter_components_of_relative absolute, body_of_relative absolute,
        if_neg Bool.false_ne_true, List.nil_append]

theorem absolute?_eq (written : path.text ≠ "") (current : Path) :
    path.absolute? current =
      some (if path.endsInSlash then ((path.formBase current).below path.steps).join ⟨""⟩
        else (path.formBase current).below path.steps) := by
  have fold (base : Path) :
      (path.components.filter fun component =>
          component ≠ .top ∧ component ≠ .current).foldl
            (fun path step => path.join ⟨step.text⟩) base =
        base.below path.steps := by
    rw [steps_eq_components, below, List.foldl_map]
  have top : (Path.mk "").join ⟨Component.top.text⟩ = ⟨"/"⟩ := join_empty _
  rw [absolute?, if_neg written, filter_components_ne_current, formBase]
  cases double : path.hasDoubleTop with
  | true =>
      simp only [isAbsolute_of_hasDoubleTop double, if_true, List.singleton_append, List.drop_one,
        List.tail_cons, fold]
  | false =>
      cases absolute : path.isAbsolute with
      | true =>
          simp only [Bool.false_eq_true, if_false, if_true, List.singleton_append,
            List.foldl_cons, top, fold]
      | false =>
          simp only [Bool.false_eq_true, if_false, List.nil_append, fold]

/-- The absolute form of a path is absolute, and its steps are those of the path, after the steps of
the current directory if the path is relative. -/
theorem form_of_absolute? (currentAbsolute : current.isAbsolute = true)
    (found : path.absolute? current = some form) :
    form.isAbsolute = true ∧ form.steps = (current.join path).steps := by
  refine ⟨isAbsolute_of_absolute? currentAbsolute found, ?_⟩
  have written : path.text ≠ "" := by
    intro empty
    simp [absolute?, empty] at found
  have base : (path.formBase current).steps = if path.isAbsolute then [] else current.steps := by
    rw [formBase]
    cases double : path.hasDoubleTop with
    | true =>
        rw [if_pos rfl, if_pos (isAbsolute_of_hasDoubleTop double)]
        rfl
    | false =>
        rw [if_neg Bool.false_ne_true, apply_ite Path.steps]
        rfl
  have whole : ((path.formBase current).below path.steps).steps = (current.join path).steps := by
    rw [steps_below_of_areSteps _ fun part => isStep_of_mem_steps, base, steps_join]
    cases path.isAbsolute with
    | true =>
        rfl
    | false =>
        rfl
  have slash : (Path.mk "").isAbsolute = false := rfl
  rw [absolute?_eq written, Option.some.injEq] at found
  rw [← found]
  split
  · rw [steps_join, slash, steps_empty, if_neg Bool.false_ne_true, List.append_nil, whole]
  · exact whole

/-- An absolute path has one absolute form, which it is the same as. -/
theorem exists_form_of_isAbsolute (absolute : path.isAbsolute = true) :
    ∃ form, (∀ current, path.absolute? current = some form) ∧ form.isAbsolute = true ∧
      path.same form = true ∧ (path.EndsInStep → form.EndsInStep) := by
  have written := text_ne_empty_of_isAbsolute absolute
  have base (current : Path) : path.formBase current = path.formBase path := by
    rw [formBase, formBase, absolute]
    rfl
  have found (current : Path) := absolute?_eq written current
  simp only [base] at found
  obtain ⟨formAbsolute, steps⟩ := form_of_absolute? absolute (found path)
  have same : path.same _ = true := same_of_steps_eq absolute formAbsolute (by
    rw [steps, steps_join, absolute, if_pos rfl])
  refine ⟨_, found, formAbsolute, same, ?_⟩
  intro ends
  have noSlash : path.endsInSlash = false := by
    rw [← Bool.not_eq_true]
    intro slash
    have filler := ends _ _ (body_of_endsInSlash slash)
    cases filler
  rw [noSlash, if_neg Bool.false_ne_true]
  obtain ⟨front, last, split⟩ := (List.eq_nil_or_concat path.body).resolve_left path.body_ne_nil
  rw [List.concat_eq_append] at split
  have steps : path.steps = (front.filter fun piece => !isFiller piece) ++ [last] := by
    rw [Path.steps, split, List.filter_append, List.filter_singleton, ends front last split]
    rfl
  have member : last ∈ path.steps := by simp [steps]
  have isStep : IsStep last := isStep_of_mem_steps member
  rw [steps, below_concat]
  apply endsInStep_join _ isStep
  apply text_ne_empty_of_isAbsolute
  apply isAbsolute_below_of_left
  rw [formBase, absolute, if_pos rfl]
  split
  · rfl
  · rfl

end Path

namespace Workspace

variable {workspace : Workspace} {path form : Path} {held : Location × Entry}

/-! ## Looking up absolute paths -/

theorem currentPath_isAbsolute (workspace : Workspace) :
    workspace.currentPath.isAbsolute = true := by
  simp [currentPath, FileTree.pathOf, Path.isAbsolute]

/-- Where an absolute path leads does not depend on the current directory. -/
theorem entrySatisfies_of_isAbsolute (absolute : path.isAbsolute = true) (current : Location)
    (property : Entry → Bool) :
    { workspace with current := current }.entrySatisfies property path =
      workspace.entrySatisfies property path := by
  simp only [entrySatisfies, status, look, resolve, FileTree.resolve, FileTree.startOf, absolute]
  rfl

/-- What an absolute path leads to, its absolute form leads to as well. -/
theorem status_of_form (absolute : path.isAbsolute = true)
    (isForm : path.absolute? workspace.currentPath = some form)
    (found : workspace.status path = .ok held) : workspace.status form = .ok held := by
  obtain ⟨other, forms, -, same, ends⟩ := Path.exists_form_of_isAbsolute absolute
  rw [forms, Option.some.injEq] at isForm
  subst isForm
  obtain ⟨location, entry⟩ := held
  cases directory : entry.isDirectory with
  | true =>
      cases entry with
      | directory modified =>
          obtain ⟨changed, leads⟩ := leadsToDirectory_of_same absolute same ⟨modified, found⟩
          have unchanged := find?_of_status leads
          rw [find?_of_status found] at unchanged
          cases unchanged
          exact leads
      | file content modified mode =>
          cases directory
      | link target =>
          cases directory
  | false =>
      have endsInStep := endsInStep_of_status found directory
      have alike := Path.alike_of_same absolute same endsInStep (ends endsInStep)
      exact (look_eq_ok_iff_of_alike workspace alike true _).1 found

end Workspace

end ClojureBuild
