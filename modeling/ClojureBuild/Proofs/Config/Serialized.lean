import ClojureBuild.Config.Document
import ClojureBuild.Proofs.Path.Texts
import ClojureBuild.Proofs.Setting.Kept
import ClojureBuild.Proofs.Setting.Restored

/-!
# Configurations that are read back

A configuration whose paths are texts can be written down, and it is read back from the JSON value
that is written for it.  Every configuration that was read is such a one.  So nothing is lost by
writing down a configuration that was read, however it was written before.
-/

namespace ClojureBuild

open Setting

/-! ## Values -/

theorem readsBack_optionalText (text : Option String) :
    ReadsBack (readOptional readText) (Json.ofText? text) text :=
  readsBack_optional nofun fun held _ => readsBack_text held

theorem readsBack_texts (texts : List String) :
    ReadsBack (readList readText) (Json.ofTexts texts) texts :=
  readsBack_list fun text _ => readsBack_text text

theorem readsBack_optionalTexts (texts : Option (List String)) :
    ReadsBack (readOptional (readList readText)) ((texts.map Json.ofTexts).getD .null) texts :=
  readsBack_optional nofun fun held _ => readsBack_texts held

theorem Path.readsBack {path : Path} (isText : path.isText = true) :
    ReadsBack Path.read (.text path.display) path :=
  congrArg Except.ok (Path.isText_iff.1 isText).symm

theorem Path.readsBack_optional {path : Option Path} (areTexts : ∀ held ∈ path, held.isText = true) :
    ReadsBack (readOptional Path.read) (Path.optionToJson path) path := by
  rw [Path.optionToJson, Json.ofText?, Option.map_map]
  exact Setting.readsBack_optional nofun fun held isHeld => Path.readsBack (areTexts held isHeld)

theorem Path.readsBack_list {paths : List Path} (areTexts : ∀ path ∈ paths, path.isText = true) :
    ReadsBack (readList Path.read) (.ofTexts (paths.map Path.display)) paths := by
  rw [Json.ofTexts, List.map_map]
  exact Setting.readsBack_list fun path isListed => Path.readsBack (areTexts path isListed)

theorem SecondaryPolicy.readsBack (policy : SecondaryPolicy) :
    ReadsBack SecondaryPolicy.read (.text policy.name) policy := by
  refine readsBack_choice (fun choice => ?_) policy
  cases choice <;> rfl

/-! ## Paths that are texts -/

/-- Every path of the toolchain is a text. -/
def ToolchainSettings.InTexts (settings : ToolchainSettings) : Prop :=
  ∀ path ∈ settings.paths, path.isText = true

/-- Every path of the layout of a project is a text. -/
def ProjectSettings.InTexts (settings : ProjectSettings) : Prop :=
  ∀ path ∈ settings.paths, path.isText = true

/-- Every path of a configuration is a text. -/
def Config.InTexts (config : Config) : Prop :=
  ∀ path ∈ config.paths, path.isText = true

theorem ToolchainSettings.inTexts_iff {settings : ToolchainSettings} :
    settings.InTexts ↔
      (∀ path ∈ settings.clojureHome, path.isText = true) ∧
        (∀ path ∈ settings.runtimeJar, path.isText = true) ∧ settings.java.isText = true ∧
          ∀ path ∈ settings.repository, path.isText = true := by
  simp only [InTexts, paths, List.forall_mem_append, Option.mem_toList, List.forall_mem_singleton,
    and_assoc, Option.mem_def]

theorem ProjectSettings.inTexts_iff {settings : ProjectSettings} :
    settings.InTexts ↔
      (∀ path ∈ settings.sources, path.isText = true) ∧ settings.target.isText = true := by
  simp only [InTexts, paths, List.forall_mem_append, List.forall_mem_singleton]

theorem Config.inTexts_iff {config : Config} :
    config.InTexts ↔ config.toolchain.InTexts ∧ config.project.InTexts :=
  List.forall_mem_append

theorem Config.toJson?_eq_some_iff {config : Config} {written : Json} :
    config.toJson? = some written ↔ config.InTexts ∧ config.toJson = written := by
  rw [toJson?, Option.ite_none_right_eq_some, List.all_eq_true, Option.some.injEq]
  rfl

/-! ## Sections -/

theorem CompilerOptions.readsBack (options : CompilerOptions) :
    ReadsBack CompilerOptions.read options.toJson ⟨options, []⟩ := by
  have ordered : options.toJson = .object [
      ("debug", .boolean options.debug),
      ("other", .ofTexts options.other),
      ("source", .ofText? options.source),
      ("target", .ofText? options.target),
      ("warnings", .boolean options.warnings)] := by
    simp only [CompilerOptions.toJson, Json.ofFields, Json.insertField, List.foldl_cons,
      List.foldl_nil, String.reduceEq, String.reduceLT, ↓reduceIte]
  refine readsBack_record ordered ?_
  exact .plain rfl (readsBack_boolean _) <| .plain rfl (readsBack_texts _) <|
    .plain rfl (readsBack_optionalText _) <| .plain rfl (readsBack_optionalText _) <|
      .plain rfl (readsBack_boolean _) <| .done options

theorem ToolchainSettings.readsBack {settings : ToolchainSettings} (areTexts : settings.InTexts) :
    ReadsBack ToolchainSettings.read settings.toJson ⟨settings, []⟩ := by
  have ordered : settings.toJson = .object [
      ("clojure_home", Path.optionToJson settings.clojureHome),
      ("java", .text settings.java.display),
      ("repository", Path.optionToJson settings.repository),
      ("runtime_jar", Path.optionToJson settings.runtimeJar)] := by
    simp only [ToolchainSettings.toJson, Json.ofFields, Json.insertField, List.foldl_cons,
      List.foldl_nil, String.reduceEq, String.reduceLT, ↓reduceIte]
  obtain ⟨clojureHome, runtimeJar, java, repository⟩ := inTexts_iff.1 areTexts
  refine readsBack_record ordered ?_
  exact .plain rfl (Path.readsBack_optional clojureHome) <| .plain rfl (Path.readsBack java) <|
    .plain rfl (Path.readsBack_optional repository) <|
      .plain rfl (Path.readsBack_optional runtimeJar) <| .done settings

theorem CompileSettings.readsBack (settings : CompileSettings) :
    ReadsBack CompileSettings.read settings.toJson ⟨settings, []⟩ := by
  have ordered : settings.toJson = .object [
      ("groovyc", settings.groovyc.toJson),
      ("javac", settings.javac.toJson),
      ("libs", (settings.libs.map Json.ofTexts).getD .null),
      ("scalac", settings.scalac.toJson),
      ("secondary_policy", .text settings.secondaryPolicy.name)] := by
    simp only [CompileSettings.toJson, Json.ofFields, Json.insertField, List.foldl_cons,
      List.foldl_nil, String.reduceEq, String.reduceLT, ↓reduceIte]
  refine readsBack_record ordered ?_
  exact .nested rfl (CompilerOptions.readsBack _) <|
    .nested rfl (CompilerOptions.readsBack _) <| .plain rfl (readsBack_optionalTexts _) <|
      .nested rfl (CompilerOptions.readsBack _) <|
        .plain rfl (SecondaryPolicy.readsBack _) <| .done settings

theorem ProjectSettings.readsBack {settings : ProjectSettings} (areTexts : settings.InTexts) :
    ReadsBack ProjectSettings.read settings.toJson ⟨settings, []⟩ := by
  have ordered : settings.toJson = .object [
      ("dependencies", .ofTexts settings.dependencies),
      ("sources", .ofTexts (settings.sources.map Path.display)),
      ("target", .text settings.target.display)] := by
    simp only [ProjectSettings.toJson, Json.ofFields, Json.insertField, List.foldl_cons,
      List.foldl_nil, String.reduceEq, String.reduceLT, ↓reduceIte]
  obtain ⟨sources, target⟩ := inTexts_iff.1 areTexts
  refine readsBack_record ordered ?_
  exact .plain rfl (readsBack_texts _) <| .plain rfl (Path.readsBack_list sources) <|
    .plain rfl (Path.readsBack target) <| .done settings

theorem Config.readsBack {config : Config} (areTexts : config.InTexts) :
    ReadsBack Config.read config.toJson ⟨config, []⟩ := by
  have ordered : config.toJson = .object [
      ("compile", config.compile.toJson),
      ("project", config.project.toJson),
      ("toolchain", config.toolchain.toJson)] := by
    simp only [Config.toJson, Json.ofFields, Json.insertField, List.foldl_cons, List.foldl_nil,
      String.reduceEq, String.reduceLT, ↓reduceIte]
  obtain ⟨toolchain, project⟩ := inTexts_iff.1 areTexts
  refine readsBack_record ordered ?_
  exact .nested rfl (CompileSettings.readsBack _) <|
    .nested rfl (ProjectSettings.readsBack project) <|
      .nested rfl (ToolchainSettings.readsBack toolchain) <| .done config

/-! ## Configurations that are read

Reading yields paths that are texts, and the defaults hold no others.
-/

theorem Path.yields_isText : Yields Path.read fun path => path.isText = true := by
  intro format setting path read
  rw [Path.read] at read
  cases found : readPathText format setting with
  | error misfit =>
      rw [found] at read
      cases read
  | ok text =>
      rw [found] at read
      cases read
      exact Path.isText_ofText text

theorem ToolchainSettings.inTexts_default : ToolchainSettings.default.InTexts :=
  inTexts_iff.2 ⟨nofun, nofun, by decide, nofun⟩

theorem ProjectSettings.inTexts_default : ProjectSettings.default.InTexts :=
  inTexts_iff.2 ⟨by decide, by decide⟩

theorem Config.inTexts_default : Config.default.InTexts :=
  inTexts_iff.2 ⟨ToolchainSettings.inTexts_default, ProjectSettings.inTexts_default⟩

theorem ToolchainSettings.yields_inTexts :
    Yields ToolchainSettings.read fun reading => reading.value.InTexts := by
  have optional : Yields (readOptional Path.read) fun path => ∀ held ∈ path, held.isText = true :=
    yields_optional Path.yields_isText
  refine yields_record inTexts_default ?_
  simp only [members, List.forall_mem_cons]
  refine ⟨?_, ?_, ?_, ?_, List.forall_mem_nil _⟩
  · refine keptBy_plain fun format setting path settings read held => ?_
    obtain ⟨-, others⟩ := inTexts_iff.1 held
    exact inTexts_iff.2 ⟨optional _ _ _ read, others⟩
  · refine keptBy_plain fun format setting path settings read held => ?_
    obtain ⟨clojureHome, -, others⟩ := inTexts_iff.1 held
    exact inTexts_iff.2 ⟨clojureHome, optional _ _ _ read, others⟩
  · refine keptBy_plain fun format setting path settings read held => ?_
    obtain ⟨clojureHome, runtimeJar, -, repository⟩ := inTexts_iff.1 held
    exact inTexts_iff.2 ⟨clojureHome, runtimeJar, Path.yields_isText _ _ _ read, repository⟩
  · refine keptBy_plain fun format setting path settings read held => ?_
    obtain ⟨clojureHome, runtimeJar, java, -⟩ := inTexts_iff.1 held
    exact inTexts_iff.2 ⟨clojureHome, runtimeJar, java, optional _ _ _ read⟩

theorem ProjectSettings.yields_inTexts :
    Yields ProjectSettings.read fun reading => reading.value.InTexts := by
  refine yields_record inTexts_default ?_
  simp only [members, List.forall_mem_cons]
  refine ⟨?_, ?_, ?_, List.forall_mem_nil _⟩
  · refine keptBy_plain fun format setting paths settings read held => ?_
    obtain ⟨-, target⟩ := inTexts_iff.1 held
    exact inTexts_iff.2 ⟨yields_list Path.yields_isText _ _ _ read, target⟩
  · refine keptBy_plain fun format setting path settings read held => ?_
    obtain ⟨sources, -⟩ := inTexts_iff.1 held
    exact inTexts_iff.2 ⟨sources, Path.yields_isText _ _ _ read⟩
  · exact keptBy_plain fun _ _ _ _ _ held => held

theorem Config.yields_inTexts : Yields Config.read fun reading => reading.value.InTexts := by
  refine yields_record inTexts_default ?_
  simp only [members, List.forall_mem_cons]
  refine ⟨?_, ?_, ?_, List.forall_mem_nil _⟩
  · refine keptBy_nested fun format setting inner config read held => ?_
    obtain ⟨-, project⟩ := inTexts_iff.1 held
    exact inTexts_iff.2 ⟨ToolchainSettings.yields_inTexts _ _ _ read, project⟩
  · exact keptBy_nested fun _ _ _ _ _ held => held
  · refine keptBy_nested fun format setting inner config read held => ?_
    obtain ⟨toolchain, -⟩ := inTexts_iff.1 held
    exact inTexts_iff.2 ⟨toolchain, ProjectSettings.yields_inTexts _ _ _ read⟩

theorem Config.inTexts_of_ofJson {value : Json} {config : Config}
    (accepted : Config.ofJson value = .ok config) : config.InTexts := by
  rw [Config.ofJson] at accepted
  cases read : Config.read .json (Setting.ofJson value) with
  | error misfit =>
      rw [read] at accepted
      cases accepted
  | ok reading =>
      rw [read] at accepted
      cases accepted
      exact Config.yields_inTexts _ _ _ read

/-- A configuration can be written down exactly if its paths are texts, and then it is read back from
what is written for it.  Every configuration that was read is such a one, so reading what is
written for it gives the same as what was read before. -/
theorem Config.written_configurations_are_read_back :
    (∀ config : Config,
      (∀ path ∈ config.paths, path.isText = true) ↔ ∃ written, config.toJson? = some written) ∧
    (∀ (config : Config) (written : Json), config.toJson? = some written →
      Config.ofJson written = .ok config) ∧
    ∀ (value : Json) (config : Config), Config.ofJson value = .ok config →
      ∃ written, config.toJson? = some written ∧ Config.ofJson written = Config.ofJson value := by
  have restored (config : Config) (written : Json) (isWritten : config.toJson? = some written) :
      Config.ofJson written = .ok config := by
    obtain ⟨areTexts, rfl⟩ := Config.toJson?_eq_some_iff.1 isWritten
    have read : Config.read .json (Setting.ofJson config.toJson) = .ok ⟨config, []⟩ :=
      Config.readsBack areTexts
    rw [Config.ofJson, read]
    rfl
  refine ⟨fun config => ⟨fun areTexts => ?_, ?_⟩, restored, fun value config accepted => ?_⟩
  · exact ⟨_, Config.toJson?_eq_some_iff.2 ⟨areTexts, rfl⟩⟩
  · rintro ⟨written, isWritten⟩
    exact (Config.toJson?_eq_some_iff.1 isWritten).1
  · have isWritten : config.toJson? = some config.toJson :=
      Config.toJson?_eq_some_iff.2 ⟨Config.inTexts_of_ofJson accepted, rfl⟩
    exact ⟨config.toJson, isWritten, (restored _ _ isWritten).trans accepted.symm⟩

end ClojureBuild
