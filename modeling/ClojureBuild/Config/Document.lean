import ClojureBuild.Config
import ClojureBuild.Setting.Reading

/-!
# Configurations as documents

The names under which the parts of a configuration stand in a document, for reading it and for
writing it.  Every part may be left out and then keeps its default.
-/

namespace ClojureBuild

open Setting

/-! ## Reading -/

/-- Read a path. -/
def Path.read (format : DocumentFormat) (setting : Setting) : Except Misfit Path :=
  (readPathText format setting).map Path.ofText

/-- The policies by their names. -/
def SecondaryPolicy.byName : List (String × SecondaryPolicy) :=
  SecondaryPolicy.choices.map fun policy => (policy.name, policy)

/-- The languages by their names. -/
def Language.byName : List (String × Language) :=
  Language.byPriority.map fun language => (language.name, language)

/-- Read a policy. -/
def SecondaryPolicy.read : DocumentFormat → Setting → Except Misfit SecondaryPolicy :=
  readChoice SecondaryPolicy.byName

/-- Read a language. -/
def Language.read : DocumentFormat → Setting → Except Misfit Language :=
  readChoice Language.byName

/-- The members of the options of a compiler. -/
def CompilerOptions.members : List (Member CompilerOptions) :=
  [ .plain "source" (readOptional readText) fun value options => { options with source := value },
    .plain "target" (readOptional readText) fun value options => { options with target := value },
    .plain "debug" readBoolean fun value options => { options with debug := value },
    .plain "warnings" readBoolean fun value options => { options with warnings := value },
    .plain "other" (readList readText) fun value options => { options with other := value } ]

/-- Read the options of a compiler. -/
def CompilerOptions.read : DocumentFormat → Setting → Except Misfit (Reading CompilerOptions) :=
  readRecord "SecondaryOptions" CompilerOptions.members .default

/-- The members of the toolchain. -/
def ToolchainSettings.members : List (Member ToolchainSettings) :=
  [ .plain "clojure_home" (readOptional Path.read)
      fun value settings => { settings with clojureHome := value },
    .plain "runtime_jar" (readOptional Path.read)
      fun value settings => { settings with runtimeJar := value },
    .plain "java" Path.read fun value settings => { settings with java := value },
    .plain "repository" (readOptional Path.read)
      fun value settings => { settings with repository := value } ]

/-- Read the toolchain. -/
def ToolchainSettings.read :
    DocumentFormat → Setting → Except Misfit (Reading ToolchainSettings) :=
  readRecord "ToolchainConfig" ToolchainSettings.members .default

/-- The members of what is compiled and how. -/
def CompileSettings.members : List (Member CompileSettings) :=
  [ .plain "libs" (readOptional (readList readText))
      fun value settings => { settings with libs := value },
    .plain "secondary_policy" SecondaryPolicy.read
      fun value settings => { settings with secondaryPolicy := value },
    .nested "javac" CompilerOptions.read fun value settings => { settings with javac := value },
    .nested "scalac" CompilerOptions.read fun value settings => { settings with scalac := value },
    .nested "groovyc" CompilerOptions.read
      fun value settings => { settings with groovyc := value } ]

/-- Read what is compiled and how. -/
def CompileSettings.read : DocumentFormat → Setting → Except Misfit (Reading CompileSettings) :=
  readRecord "CompileConfig" CompileSettings.members .default

/-- The members of the layout of a project. -/
def ProjectSettings.members : List (Member ProjectSettings) :=
  [ .plain "sources" (readList Path.read) fun value settings => { settings with sources := value },
    .plain "target" Path.read fun value settings => { settings with target := value },
    .plain "dependencies" (readList readText)
      fun value settings => { settings with dependencies := value } ]

/-- Read the layout of a project. -/
def ProjectSettings.read : DocumentFormat → Setting → Except Misfit (Reading ProjectSettings) :=
  readRecord "ProjectConfig" ProjectSettings.members .default

/-- The members of a configuration. -/
def Config.members : List (Member Config) :=
  [ .nested "toolchain" ToolchainSettings.read
      fun value config => { config with toolchain := value },
    .nested "compile" CompileSettings.read fun value config => { config with compile := value },
    .nested "project" ProjectSettings.read fun value config => { config with project := value } ]

/-- Read a configuration. -/
def Config.read : DocumentFormat → Setting → Except Misfit (Reading Config) :=
  readRecord "Config" Config.members .default

/-- Read a configuration from a JSON value. -/
def Config.ofJson (value : Json) : Except Misfit Config :=
  (Config.read .json (Setting.ofJson value)).map Reading.value

/-! ## Writing

A path is written as a text, so a configuration is written only if all of its paths are texts.
-/

/-- A path that may be absent. -/
def Path.optionToJson (path : Option Path) : Json :=
  Json.ofText? (path.map Path.display)

/-- The options of a compiler. -/
def CompilerOptions.toJson (options : CompilerOptions) : Json :=
  .ofFields [
    ("source", .ofText? options.source),
    ("target", .ofText? options.target),
    ("debug", .boolean options.debug),
    ("warnings", .boolean options.warnings),
    ("other", .ofTexts options.other)]

/-- The toolchain. -/
def ToolchainSettings.toJson (settings : ToolchainSettings) : Json :=
  .ofFields [
    ("clojure_home", Path.optionToJson settings.clojureHome),
    ("runtime_jar", Path.optionToJson settings.runtimeJar),
    ("java", .text settings.java.display),
    ("repository", Path.optionToJson settings.repository)]

/-- What is compiled and how. -/
def CompileSettings.toJson (settings : CompileSettings) : Json :=
  .ofFields [
    ("libs", (settings.libs.map Json.ofTexts).getD .null),
    ("secondary_policy", .text settings.secondaryPolicy.name),
    ("javac", settings.javac.toJson),
    ("scalac", settings.scalac.toJson),
    ("groovyc", settings.groovyc.toJson)]

/-- The layout of a project. -/
def ProjectSettings.toJson (settings : ProjectSettings) : Json :=
  .ofFields [
    ("sources", .ofTexts (settings.sources.map Path.display)),
    ("target", .text settings.target.display),
    ("dependencies", .ofTexts settings.dependencies)]

/-- A configuration. -/
def Config.toJson (config : Config) : Json :=
  .ofFields [
    ("toolchain", config.toolchain.toJson),
    ("compile", config.compile.toJson),
    ("project", config.project.toJson)]

/-- The paths of the toolchain. -/
def ToolchainSettings.paths (settings : ToolchainSettings) : List Path :=
  settings.clojureHome.toList ++ settings.runtimeJar.toList ++ [settings.java] ++
    settings.repository.toList

/-- The paths of the layout of a project. -/
def ProjectSettings.paths (settings : ProjectSettings) : List Path :=
  settings.sources ++ [settings.target]

/-- The paths of a configuration. -/
def Config.paths (config : Config) : List Path :=
  config.toolchain.paths ++ config.project.paths

/-- A configuration, if it can be written. -/
def Config.toJson? (config : Config) : Option Json :=
  if config.paths.all Path.isText then some config.toJson else none

end ClojureBuild
