import ClojureBuild.Config.Parse
import ClojureBuild.Proofs.Setting.Bare
import ClojureBuild.Proofs.Setting.Outline

/-!
# Unknown keys of a configuration

A key that names nothing makes no difference to the configuration that a file is read as: it is
reported once, whatever stands under it.
-/

namespace ClojureBuild

open Outline Setting

/-! ## What a configuration knows -/

/-- The keys of the options of a compiler. -/
def CompilerOptions.outline : Outline :=
  .table [("source", .value), ("target", .value), ("debug", .value), ("warnings", .value),
    ("other", .value)]

/-- The keys of the toolchain. -/
def ToolchainSettings.outline : Outline :=
  .table [("clojure_home", .value), ("runtime_jar", .value), ("java", .value),
    ("repository", .value)]

/-- The keys of what is compiled and how. -/
def CompileSettings.outline : Outline :=
  .table [("libs", .value), ("secondary_policy", .value), ("javac", CompilerOptions.outline),
    ("scalac", CompilerOptions.outline), ("groovyc", CompilerOptions.outline)]

/-- The keys of the layout of a project. -/
def ProjectSettings.outline : Outline :=
  .table [("sources", .value), ("target", .value), ("dependencies", .value)]

/-- The keys of a configuration. -/
def Config.outline : Outline :=
  .table [("toolchain", ToolchainSettings.outline), ("compile", CompileSettings.outline),
    ("project", ProjectSettings.outline)]

variable (format : DocumentFormat)

theorem CompilerOptions.outline_describes :
    CompilerOptions.outline.Describes (CompilerOptions.read format) := by
  have describe : DescribeMembers _ CompilerOptions.members :=
    .plain (.plain (.plain (.plain (.plain .nil))))
  exact describe.readRecord "SecondaryOptions" .default format

theorem ToolchainSettings.outline_describes :
    ToolchainSettings.outline.Describes (ToolchainSettings.read format) := by
  have describe : DescribeMembers _ ToolchainSettings.members :=
    .plain (.plain (.plain (.plain .nil)))
  exact describe.readRecord "ToolchainConfig" .default format

theorem CompileSettings.outline_describes :
    CompileSettings.outline.Describes (CompileSettings.read format) := by
  have describe : DescribeMembers _ CompileSettings.members :=
    .plain <| .plain <| .nested CompilerOptions.outline_describes <|
      .nested CompilerOptions.outline_describes <|
        .nested CompilerOptions.outline_describes .nil
  exact describe.readRecord "CompileConfig" .default format

theorem ProjectSettings.outline_describes :
    ProjectSettings.outline.Describes (ProjectSettings.read format) := by
  have describe : DescribeMembers _ ProjectSettings.members := .plain (.plain (.plain .nil))
  exact describe.readRecord "ProjectConfig" .default format

theorem Config.outline_describes : Config.outline.Describes (Config.read format) := by
  have describe : DescribeMembers _ Config.members :=
    .nested ToolchainSettings.outline_describes <|
      .nested CompileSettings.outline_describes <|
        .nested ProjectSettings.outline_describes .nil
  exact describe.readRecord "Config" .default format

/-! ## Where the settings stand -/

theorem Path.readsBare_read : ReadsBare (Path.read format) := by
  intro setting
  rw [Path.read, Path.read, readPathText, readsBare_readTextAs, mapError_map]

theorem readsBare_readText : ReadsBare (readText format) :=
  readsBare_readTextAs .text format

theorem CompilerOptions.readsBare_read : ReadsBare (CompilerOptions.read format) := by
  have reads : MembersReadBare CompilerOptions.members :=
    .plain (readsBare_readOptional readsBare_readText) <|
      .plain (readsBare_readOptional readsBare_readText) <|
        .plain readsBare_readBoolean <| .plain readsBare_readBoolean <|
          .plain (readsBare_readList readsBare_readText) .nil
  exact readsBare_readRecord "SecondaryOptions" reads .default format

theorem ToolchainSettings.readsBare_read : ReadsBare (ToolchainSettings.read format) := by
  have reads : MembersReadBare ToolchainSettings.members :=
    .plain (readsBare_readOptional Path.readsBare_read) <|
      .plain (readsBare_readOptional Path.readsBare_read) <|
        .plain Path.readsBare_read <|
          .plain (readsBare_readOptional Path.readsBare_read) .nil
  exact readsBare_readRecord "ToolchainConfig" reads .default format

theorem CompileSettings.readsBare_read : ReadsBare (CompileSettings.read format) := by
  have reads : MembersReadBare CompileSettings.members :=
    .plain (readsBare_readOptional (readsBare_readList readsBare_readText)) <|
      .plain (readsBare_readChoice SecondaryPolicy.byName) <|
        .nested CompilerOptions.readsBare_read <| .nested CompilerOptions.readsBare_read <|
          .nested CompilerOptions.readsBare_read .nil
  exact readsBare_readRecord "CompileConfig" reads .default format

theorem ProjectSettings.readsBare_read : ReadsBare (ProjectSettings.read format) := by
  have reads : MembersReadBare ProjectSettings.members :=
    .plain (readsBare_readList Path.readsBare_read) <|
      .plain Path.readsBare_read <|
        .plain (readsBare_readList readsBare_readText) .nil
  exact readsBare_readRecord "ProjectConfig" reads .default format

/-- What a configuration is read as does not depend on where its settings stand. -/
theorem Config.readsBare_read : ReadsBare (Config.read format) := by
  have reads : MembersReadBare Config.members :=
    .nested ToolchainSettings.readsBare_read <| .nested CompileSettings.readsBare_read <|
      .nested ProjectSettings.readsBare_read .nil
  exact readsBare_readRecord "Config" reads .default format

/-! ## Texts -/

namespace Config

theorem parse_of_read {content : String} {file : Path} {document : Setting}
    {reading : Reading Config} (isDocument : Toml.read? content = some document)
    (accepted : Config.read .toml document = .ok reading) :
    parse content file =
      .ok (reading.value, reading.unknownKeys.map (warningAbout content file)) := by
  simp only [parse, isDocument, accepted]

/-- A text is accepted as what its document is read as. -/
theorem read_of_parse {content : String} {file : Path} {document : Setting} {config : Config}
    {warnings : List Warning} (isDocument : Toml.read? content = some document)
    (accepted : parse content file = .ok (config, warnings)) :
    ∃ unknown, Config.read .toml document = .ok ⟨config, unknown⟩ ∧
      warnings = unknown.map (warningAbout content file) := by
  cases found : Config.read .toml document with
  | error misfit =>
      simp only [parse, isDocument, found] at accepted
      cases accepted
  | ok reading =>
      rw [parse_of_read isDocument found] at accepted
      cases accepted
      exact ⟨reading.unknownKeys, rfl, rfl⟩

/-- Unknown keys make no difference to the configuration.  A document in which every known section
is a table is read without its unknown keys as the same configuration, with nothing to report; and
with one more unknown key as the same configuration, with one more key to report.  Both hold of every
text that spells such a document. -/
theorem unknown_keys_are_transparent {content : String} {file : Path} {document : Setting}
    {config : Config} {warnings : List Warning} (isDocument : Toml.read? content = some document)
    (tabular : outline.isTabular document)
    (accepted : parse content file = .ok (config, warnings)) :
    (Config.read .toml (outline.withKnownKeys document) = .ok ⟨config, []⟩ ∧
      ∀ text spelled, Toml.read? text = some spelled →
        spelled.bare = (outline.withKnownKeys document).bare →
          parse text file = .ok (config, [])) ∧
    ∀ name more, Adds name outline document more →
      ∃ before after, warnings = (before ++ after).map (warningAbout content file) ∧
        Config.read .toml more = .ok ⟨config, before ++ name :: after⟩ ∧
        ∀ text spelled, Toml.read? text = some spelled → spelled.bare = more.bare →
          parse text file =
            .ok (config, (before ++ name :: after).map (warningAbout text file)) := by
  obtain ⟨unknown, readDocument, rfl⟩ := read_of_parse isDocument accepted
  have describes := Config.outline_describes .toml
  -- Texts whose documents differ in their places only are accepted alike.
  have spelledAlike {target : Setting} {reading : Reading Config}
      (readTarget : Config.read .toml target = .ok reading) (text : String) (spelled : Setting)
      (isSpelled : Toml.read? text = some spelled) (alike : spelled.bare = target.bare) :
      parse text file = .ok (reading.value, reading.unknownKeys.map (warningAbout text file)) :=
    parse_of_read isSpelled
      ((Config.readsBare_read .toml).ok_of_bare_eq alike.symm readTarget)
  refine ⟨?deleted, ?added⟩
  case deleted =>
    have readKnown := describes.read_withKnownKeys tabular readDocument
    exact ⟨readKnown, spelledAlike readKnown⟩
  case added =>
    intro name more adds
    obtain ⟨before, after, sameKeys, readMore⟩ := describes.read_of_adds tabular readDocument adds
    refine ⟨before, after, ?_, readMore, spelledAlike readMore⟩
    rw [← sameKeys]

/-- A document with the section for compiling only. -/
def compileDocument (keyPlace place : Extent) (fields : List (Key × Setting)) : Setting :=
  .table none .headed [(⟨"compile", some keyPlace⟩, .table (some place) .headed fields)]

/-- A misspelt key may be deleted, and another unknown key may be added behind it. -/
theorem misspelt_key_is_transparent :
    parse "[compile]\n" ⟨"cljc.toml"⟩ = .ok (.default, []) ∧
      ∃ before after,
        [(⟨"lib", ⟨"cljc.toml"⟩, some 2, some "libs"⟩ : Warning)] =
          (before ++ after).map (warningAbout "[compile]\nlib = 2\n" ⟨"cljc.toml"⟩) ∧
        parse "[compile]\nlib = 2\nflags.javac = true\n" ⟨"cljc.toml"⟩ =
          .ok (.default, (before ++ "flags" :: after).map
            (warningAbout "[compile]\nlib = 2\nflags.javac = true\n" ⟨"cljc.toml"⟩)) := by
  let misspelt : Key × Setting := (⟨"lib", some ⟨8, 5⟩⟩, .integer (some ⟨2, 1⟩) 2)
  let flags : Setting := .table none .dotted [(⟨"javac", none⟩, .boolean none true)]
  have isDocument : Toml.read? "[compile]\nlib = 2\n" =
      some (compileDocument ⟨17, 10⟩ ⟨18, 1⟩ [misspelt]) := by
    rfl
  have isShorter : Toml.read? "[compile]\n" = some (compileDocument ⟨9, 2⟩ ⟨10, 1⟩ []) := by
    rfl
  have isLonger : Toml.read? "[compile]\nlib = 2\nflags.javac = true\n" =
      some (compileDocument ⟨36, 29⟩ ⟨37, 1⟩
        [(⟨"lib", some ⟨27, 24⟩⟩, .integer (some ⟨21, 20⟩) 2),
          (⟨"flags", some ⟨19, 14⟩⟩,
            .table none .dotted [(⟨"javac", some ⟨13, 8⟩⟩, .boolean (some ⟨5, 1⟩) true)])]) := by
    rfl
  have tabular : outline.isTabular (compileDocument ⟨17, 10⟩ ⟨18, 1⟩ [misspelt]) := by
    rfl
  have warnings : ["lib"].map (warningAbout "[compile]\nlib = 2\n" ⟨"cljc.toml"⟩) =
      [⟨"lib", ⟨"cljc.toml"⟩, some 2, some "libs"⟩] := by
    decide +kernel
  have accepted : parse "[compile]\nlib = 2\n" ⟨"cljc.toml"⟩ =
      .ok (.default, [⟨"lib", ⟨"cljc.toml"⟩, some 2, some "libs"⟩]) := by
    have accepted : Config.read .toml (compileDocument ⟨17, 10⟩ ⟨18, 1⟩ [misspelt]) =
        .ok ⟨.default, ["lib"]⟩ := by
      rfl
    rw [← warnings]
    exact parse_of_read isDocument accepted
  have adds : Adds "flags" outline (compileDocument ⟨17, 10⟩ ⟨18, 1⟩ [misspelt])
      (compileDocument ⟨17, 10⟩ ⟨18, 1⟩ [misspelt, (⟨"flags", none⟩, flags)]) :=
    @Adds.inside _ _ _ _ [] [] _ CompileSettings.outline _ _ rfl
      (@Adds.here _ _ _ _ _ [misspelt] [] flags rfl)
  obtain ⟨⟨_, deleted⟩, added⟩ := unknown_keys_are_transparent isDocument tabular accepted
  obtain ⟨before, after, sameWarnings, _, spelled⟩ := added "flags" _ adds
  exact ⟨deleted _ _ isShorter rfl, before, after, sameWarnings, spelled _ _ isLonger rfl⟩

end Config

end ClojureBuild
