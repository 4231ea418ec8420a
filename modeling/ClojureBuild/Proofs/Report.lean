import ClojureBuild.Proofs.Json.Printing
import ClojureBuild.Proofs.Namespace.Spelling
import ClojureBuild.Proofs.Path.Texts
import ClojureBuild.Report.Render

/-!
# Results for programs

A result is shown as JSON if its paths are texts.  What is shown holds the result in full, whatever
letters its paths and names are made of: it is read as one object with the parts of the result, and
results that differ in a part are never shown by the same text.
-/

namespace ClojureBuild

/-! ## Arrays of texts -/

theorem Language.name_injective : Function.Injective Language.name := by
  intro left right same
  cases left <;> cases right <;> first | rfl | exact absurd same (by decide)

theorem Json.ofTexts_eq_iff {left right : List String} :
    Json.ofTexts left = .ofTexts right ↔ left = right := by
  have textInjective : Function.Injective Json.text := fun _ _ same => Json.text.inj same
  rw [Json.ofTexts, Json.ofTexts, Json.array.injEq]
  exact (List.map_injective_iff.2 textInjective).eq_iff

/-- Where a text tells values apart, so does the array of the texts. -/
theorem Json.ofTexts_map_eq_iff {α : Type} {text : α → String} (injective : Function.Injective text)
    {left right : List α} :
    Json.ofTexts (left.map text) = .ofTexts (right.map text) ↔ left = right := by
  rw [Json.ofTexts_eq_iff]
  exact (List.map_injective_iff.2 injective).eq_iff

theorem Json.ofPaths_eq_iff {left right : List Path} (leftTexts : ∀ path ∈ left, path.isText = true)
    (rightTexts : ∀ path ∈ right, path.isText = true) :
    Json.ofPaths left = .ofPaths right ↔ left = right := by
  rw [Json.ofPaths, Json.ofPaths, Json.ofTexts_eq_iff, Path.map_display_eq_iff leftTexts rightTexts]

theorem Json.prettyIfTexts_eq_some_iff {paths : List Path} {value : Json} {text : String} :
    Json.prettyIfTexts paths value = some text ↔
      (∀ path ∈ paths, path.isText = true) ∧ value.pretty = text := by
  rw [Json.prettyIfTexts, Option.ite_none_right_eq_some, List.all_eq_true, Option.some.injEq]

/-- Exact values whose paths are texts have the same text only if they are the same. -/
theorem Json.Exact.prettyIfTexts_eq_some_iff {leftPaths rightPaths : List Path} {left right : Json}
    {text : String} (leftExact : left.Exact) (rightExact : right.Exact)
    (isShown : Json.prettyIfTexts leftPaths left = some text) :
    Json.prettyIfTexts rightPaths right = some text ↔
      (∀ path ∈ rightPaths, path.isText = true) ∧ left = right := by
  obtain ⟨-, rfl⟩ := Json.prettyIfTexts_eq_some_iff.1 isShown
  rw [Json.prettyIfTexts_eq_some_iff, rightExact.pretty_eq_iff leftExact, eq_comm]

/-- Where paths that are texts leave values the same only with the same parts, the values have the
same text only with the same parts. -/
theorem Json.Exact.prettyIfTexts_eq_some_iff_same {leftPaths rightPaths : List Path}
    {left right : Json} {text : String} {sameParts : Prop}
    (leftExact : left.Exact) (rightExact : right.Exact)
    (isShown : Json.prettyIfTexts leftPaths left = some text)
    (samePaths : sameParts → leftPaths = rightPaths)
    (same_iff : (∀ path ∈ leftPaths, path.isText = true) →
      (∀ path ∈ rightPaths, path.isText = true) → (left = right ↔ sameParts)) :
    Json.prettyIfTexts rightPaths right = some text ↔ sameParts := by
  obtain ⟨leftTexts, -⟩ := Json.prettyIfTexts_eq_some_iff.1 isShown
  rw [leftExact.prettyIfTexts_eq_some_iff rightExact isShown]
  constructor
  · rintro ⟨rightTexts, same⟩
    exact (same_iff leftTexts rightTexts).1 same
  · intro same
    have rightTexts := samePaths same ▸ leftTexts
    exact ⟨rightTexts, (same_iff leftTexts rightTexts).2 same⟩

/-! ## Reports -/

namespace BuildReport

variable {left right report : BuildReport} {text : String}

/-- The object that shows a report. -/
def shown (report : BuildReport) : Json :=
  .object [
    ("event", .text "compile"),
    ("report", .object [
      ("classpath", .ofPaths report.classpath.entries),
      ("compiled", .boolean report.compiled),
      ("copied", .ofPaths report.copied),
      ("namespaces", .ofTexts (report.namespaces.map Namespace.name)),
      ("secondary", .ofTexts (report.secondary.map Language.name)),
      ("target", .text report.target.display),
      ("unchanged", .ofPaths report.unchanged)]),
    ("status", .text "success")]

theorem exact_shown (report : BuildReport) : report.shown.Exact := by
  have outerNames : ["event", "report", "status"].Pairwise (· < ·) := by decide
  have innerNames : ["classpath", "compiled", "copied", "namespaces", "secondary", "target",
      "unchanged"].Pairwise (· < ·) := by decide
  exact .object_of_names outerNames rfl ⟨.text _, .object_of_names innerNames rfl
    ⟨.ofTexts _, .boolean _, .ofTexts _, .ofTexts _, .ofTexts _, .text _, .ofTexts _⟩, .text _⟩

theorem render_json (report : BuildReport) :
    report.render .json = Json.prettyIfTexts report.paths report.shown := by
  simp only [render, toJson, Json.ofFields, Json.insertField, List.foldl_cons, List.foldl_nil,
    String.reduceEq, String.reduceLT, ↓reduceIte]
  rfl

/-- The object holds the whole report but for the set in which classpath entries are looked up. -/
theorem shown_eq_iff (leftTexts : ∀ path ∈ left.paths, path.isText = true)
    (rightTexts : ∀ path ∈ right.paths, path.isText = true) :
    left.shown = right.shown ↔
      left.target = right.target ∧ left.namespaces = right.namespaces ∧
        left.classpath.entries = right.classpath.entries ∧ left.compiled = right.compiled ∧
        left.copied = right.copied ∧ left.unchanged = right.unchanged ∧
        left.secondary = right.secondary := by
  simp only [paths, List.forall_mem_append, List.forall_mem_cons] at leftTexts rightTexts
  obtain ⟨⟨⟨leftTarget, leftEntries⟩, leftCopied⟩, leftUnchanged⟩ := leftTexts
  obtain ⟨⟨⟨rightTarget, rightEntries⟩, rightCopied⟩, rightUnchanged⟩ := rightTexts
  have sameTarget : left.target.display = right.target.display ↔ left.target = right.target :=
    ⟨Path.eq_of_display_eq leftTarget rightTarget, congrArg _⟩
  simp only [shown, Json.object.injEq, List.cons.injEq, Prod.mk.injEq, Json.boolean.injEq,
    Json.text.injEq, Json.ofPaths_eq_iff leftEntries rightEntries,
    Json.ofPaths_eq_iff leftCopied rightCopied, Json.ofPaths_eq_iff leftUnchanged rightUnchanged,
    Json.ofTexts_map_eq_iff Namespace.name_injective,
    Json.ofTexts_map_eq_iff Language.name_injective, sameTarget, true_and, and_true]
  tauto

theorem paths_eq (sameTarget : left.target = right.target)
    (sameEntries : left.classpath.entries = right.classpath.entries)
    (sameCopied : left.copied = right.copied) (sameUnchanged : left.unchanged = right.unchanged) :
    left.paths = right.paths := by
  rw [paths, paths, sameTarget, sameEntries, sameCopied, sameUnchanged]

theorem render_json_eq_iff (isShown : left.render .json = some text) :
    right.render .json = some text ↔
      left.target = right.target ∧ left.namespaces = right.namespaces ∧
        left.classpath.entries = right.classpath.entries ∧ left.compiled = right.compiled ∧
        left.copied = right.copied ∧ left.unchanged = right.unchanged ∧
        left.secondary = right.secondary := by
  rw [render_json] at isShown ⊢
  refine left.exact_shown.prettyIfTexts_eq_some_iff_same right.exact_shown isShown ?_ shown_eq_iff
  rintro ⟨target, -, entries, -, copied, unchanged, -⟩
  exact paths_eq target entries copied unchanged

end BuildReport

/-! ## Listings -/

namespace Namespace

variable {text : String}

/-- The object that shows a root with its namespaces. -/
def shownListing (listing : Path × List Namespace) : Json :=
  .object [
    ("namespaces", .ofTexts (listing.2.map Namespace.name)),
    ("root", .text listing.1.display)]

/-- The object that shows roots with their namespaces. -/
def shownListings (listings : List (Path × List Namespace)) : Json :=
  .object [
    ("event", .text "namespaces"),
    ("roots", .array (listings.map shownListing))]

theorem exact_shownListing (listing : Path × List Namespace) : (shownListing listing).Exact := by
  have names : ["namespaces", "root"].Pairwise (· < ·) := by decide
  exact .object_of_names names rfl ⟨.ofTexts _, .text _⟩

theorem exact_shownListings (listings : List (Path × List Namespace)) :
    (shownListings listings).Exact := by
  have names : ["event", "roots"].Pairwise (· < ·) := by decide
  refine .object_of_names names rfl ⟨.text _, .array ?_⟩
  intro element member
  obtain ⟨listing, _, rfl⟩ := List.mem_map.1 member
  exact exact_shownListing listing

theorem listingToJson_eq (listing : Path × List Namespace) :
    listingToJson listing = shownListing listing := by
  simp only [listingToJson, Json.ofFields, Json.insertField, List.foldl_cons, List.foldl_nil,
    String.reduceEq, String.reduceLT, ↓reduceIte]
  rfl

theorem renderListings_json (listings : List (Path × List Namespace)) :
    renderListings .json listings =
      Json.prettyIfTexts (listings.map Prod.fst) (shownListings listings) := by
  have each : listings.map listingToJson = listings.map shownListing :=
    List.map_congr_left fun listing _ => listingToJson_eq listing
  simp only [renderListings, each, Json.ofFields, Json.insertField, List.foldl_cons,
    List.foldl_nil, String.reduceEq, String.reduceLT, ↓reduceIte]
  rfl

theorem eq_of_shownListing_eq {left right : Path × List Namespace}
    (leftIsText : left.1.isText = true) (rightIsText : right.1.isText = true)
    (same : shownListing left = shownListing right) : left = right := by
  simp only [shownListing, Json.object.injEq, List.cons.injEq, Prod.mk.injEq, Json.text.injEq,
    Json.ofTexts_map_eq_iff name_injective, true_and, and_true] at same
  exact Prod.ext (Path.eq_of_display_eq leftIsText rightIsText same.2) same.1

theorem shownListings_eq_iff {left right : List (Path × List Namespace)}
    (leftTexts : ∀ path ∈ left.map Prod.fst, path.isText = true)
    (rightTexts : ∀ path ∈ right.map Prod.fst, path.isText = true) :
    shownListings left = shownListings right ↔ left = right := by
  refine ⟨fun same => ?_, congrArg _⟩
  simp only [shownListings, Json.object.injEq, List.cons.injEq, Prod.mk.injEq, Json.array.injEq,
    true_and, and_true] at same
  induction left generalizing right with
  | nil =>
      exact (List.map_eq_nil_iff.1 same.symm).symm
  | cons listing others inductionHypothesis =>
      cases right with
      | nil =>
          cases same
      | cons other rest =>
          rw [List.map_cons, List.forall_mem_cons] at leftTexts rightTexts
          obtain ⟨sameFirst, sameRest⟩ := List.cons.inj same
          rw [eq_of_shownListing_eq leftTexts.1 rightTexts.1 sameFirst,
            inductionHypothesis leftTexts.2 rightTexts.2 sameRest]

theorem renderListings_json_eq_iff {left right : List (Path × List Namespace)}
    (isShown : renderListings .json left = some text) :
    renderListings .json right = some text ↔ left = right := by
  rw [renderListings_json] at isShown ⊢
  exact (exact_shownListings left).prettyIfTexts_eq_some_iff_same (exact_shownListings right) isShown
    (congrArg _) shownListings_eq_iff

end Namespace

/-! ## Classpaths -/

namespace Classpath

variable {text : String}

/-- The object that shows a classpath. -/
def shown (classpath : Classpath) : Json :=
  .object [
    ("entries", .ofPaths classpath.entries),
    ("event", .text "classpath")]

theorem exact_shown (classpath : Classpath) : classpath.shown.Exact := by
  have names : ["entries", "event"].Pairwise (· < ·) := by decide
  exact .object_of_names names rfl ⟨.ofTexts _, .text _⟩

theorem render_json (classpath : Classpath) :
    classpath.render .json = Json.prettyIfTexts classpath.entries classpath.shown := by
  simp only [render, Json.ofFields, Json.insertField, List.foldl_cons, List.foldl_nil,
    String.reduceEq, String.reduceLT, ↓reduceIte]
  rfl

theorem shown_eq_iff {left right : Classpath}
    (leftTexts : ∀ path ∈ left.entries, path.isText = true)
    (rightTexts : ∀ path ∈ right.entries, path.isText = true) :
    left.shown = right.shown ↔ left.entries = right.entries := by
  simp only [shown, Json.object.injEq, List.cons.injEq, Prod.mk.injEq,
    Json.ofPaths_eq_iff leftTexts rightTexts, true_and, and_true]

theorem render_json_eq_iff {left right : Classpath} (isShown : left.render .json = some text) :
    right.render .json = some text ↔ left.entries = right.entries := by
  rw [render_json] at isShown ⊢
  exact left.exact_shown.prettyIfTexts_eq_some_iff_same right.exact_shown isShown id shown_eq_iff

end Classpath

/-! ## What the texts convey -/

/-- A result is shown exactly if its paths are texts.  What is shown is JSON for the object of the
result and for no other value, and is read as this object.  So a text shows two results only if all
parts that are shown are equal, and never results of different kinds. -/
theorem json_output_conveys_results :
    (∀ report : BuildReport,
      (∃ text, report.render .json = some text) ↔ ∀ path ∈ report.paths, path.isText = true) ∧
    (∀ listings : List (Path × List Namespace),
      (∃ text, Namespace.renderListings .json listings = some text) ↔
        ∀ path ∈ listings.map Prod.fst, path.isText = true) ∧
    (∀ classpath : Classpath,
      (∃ text, classpath.render .json = some text) ↔
        ∀ path ∈ classpath.entries, path.isText = true) ∧
    (∀ (report : BuildReport) (text : String), report.render .json = some text →
      Json.Conveys text report.shown) ∧
    (∀ (listings : List (Path × List Namespace)) (text : String),
      Namespace.renderListings .json listings = some text →
        Json.Conveys text (Namespace.shownListings listings)) ∧
    (∀ (classpath : Classpath) (text : String), classpath.render .json = some text →
      Json.Conveys text classpath.shown) ∧
    (∀ (left right : BuildReport) (text : String), left.render .json = some text →
      (right.render .json = some text ↔
        left.target = right.target ∧ left.namespaces = right.namespaces ∧
          left.classpath.entries = right.classpath.entries ∧ left.compiled = right.compiled ∧
          left.copied = right.copied ∧ left.unchanged = right.unchanged ∧
          left.secondary = right.secondary)) ∧
    (∀ (left right : List (Path × List Namespace)) (text : String),
      Namespace.renderListings .json left = some text →
        (Namespace.renderListings .json right = some text ↔ left = right)) ∧
    (∀ (left right : Classpath) (text : String), left.render .json = some text →
      (right.render .json = some text ↔ left.entries = right.entries)) ∧
    ∀ (report : BuildReport) (listings : List (Path × List Namespace)) (classpath : Classpath)
      (text : String),
      ¬(report.render .json = some text ∧ Namespace.renderListings .json listings = some text) ∧
        ¬(report.render .json = some text ∧ classpath.render .json = some text) ∧
        ¬(Namespace.renderListings .json listings = some text ∧
          classpath.render .json = some text) := by
  refine ⟨fun report => ?_, fun listings => ?_, fun classpath => ?_, fun report text isShown => ?_,
    fun listings text isShown => ?_, fun classpath text isShown => ?_,
    fun _ _ _ => BuildReport.render_json_eq_iff,
    fun _ _ _ => Namespace.renderListings_json_eq_iff, fun _ _ _ => Classpath.render_json_eq_iff,
    fun report listings classpath text => ?_⟩
  · simp only [BuildReport.render_json, Json.prettyIfTexts_eq_some_iff, exists_and_left,
      exists_eq', and_true]
  · simp only [Namespace.renderListings_json, Json.prettyIfTexts_eq_some_iff, exists_and_left,
      exists_eq', and_true]
  · simp only [Classpath.render_json, Json.prettyIfTexts_eq_some_iff, exists_and_left,
      exists_eq', and_true]
  · rw [BuildReport.render_json] at isShown
    obtain ⟨-, rfl⟩ := Json.prettyIfTexts_eq_some_iff.1 isShown
    exact report.exact_shown.conveys_pretty
  · rw [Namespace.renderListings_json] at isShown
    obtain ⟨-, rfl⟩ := Json.prettyIfTexts_eq_some_iff.1 isShown
    exact (Namespace.exact_shownListings listings).conveys_pretty
  · rw [Classpath.render_json] at isShown
    obtain ⟨-, rfl⟩ := Json.prettyIfTexts_eq_some_iff.1 isShown
    exact classpath.exact_shown.conveys_pretty
  · have reportExact := report.exact_shown
    have listingsExact := Namespace.exact_shownListings listings
    have classpathExact := classpath.exact_shown
    rw [BuildReport.render_json, Namespace.renderListings_json, Classpath.render_json]
    -- the events of the objects differ, or stand at different places among their fields
    refine ⟨fun ⟨left, right⟩ => ?_, fun ⟨left, right⟩ => ?_, fun ⟨left, right⟩ => ?_⟩
    · have same := ((reportExact.prettyIfTexts_eq_some_iff listingsExact left).1 right).2
      simp [BuildReport.shown, Namespace.shownListings] at same
    · have same := ((reportExact.prettyIfTexts_eq_some_iff classpathExact left).1 right).2
      simp [BuildReport.shown, Classpath.shown] at same
    · have same := ((listingsExact.prettyIfTexts_eq_some_iff classpathExact left).1 right).2
      simp [Namespace.shownListings, Classpath.shown] at same

end ClojureBuild
