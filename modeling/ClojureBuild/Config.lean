import ClojureBuild.CompilerOptions
import ClojureBuild.Language
import ClojureBuild.Namespace
import ClojureBuild.Text.Blank

/-!
# Configuration

What a project or user may set: where the tools are, what is compiled and how, and how the project
is laid out.  A toolchain is ready for use once it names a runtime archive and a Java executable.
-/

namespace ClojureBuild

/-- Where the tools are. -/
structure ToolchainSettings where
  clojureHome : Option Path
  runtimeJar : Option Path
  java : Path
  repository : Option Path
  deriving DecidableEq, Repr

/-- What is compiled and how. -/
structure CompileSettings where
  /-- The namespaces to compile, instead of those found in the sources. -/
  libs : Option (List String)
  secondaryPolicy : SecondaryPolicy
  javac : CompilerOptions
  scalac : CompilerOptions
  groovyc : CompilerOptions
  deriving DecidableEq, Repr

/-- How a project is laid out. -/
structure ProjectSettings where
  sources : List Path
  target : Path
  dependencies : List String
  deriving DecidableEq, Repr

/-- The configuration of a build. -/
structure Config where
  toolchain : ToolchainSettings
  compile : CompileSettings
  project : ProjectSettings
  deriving DecidableEq, Repr

/-! ## Defaults -/

/-- Java is looked up by name, and nothing else is known. -/
def ToolchainSettings.default : ToolchainSettings :=
  ⟨none, none, ⟨"java"⟩, none⟩

/-- Every namespace is compiled, and the first secondary language present. -/
def CompileSettings.default : CompileSettings :=
  ⟨none, .firstMatch, .default, .default, .default⟩

/-- One source directory per language. -/
def ProjectSettings.default : ProjectSettings where
  sources := [⟨"src/main/clojure"⟩, ⟨"src/main/java"⟩, ⟨"src/main/scala"⟩, ⟨"src/main/groovy"⟩]
  target := ⟨"target/classes"⟩
  dependencies := []

/-- The configuration of a build that nothing is set for. -/
def Config.default : Config :=
  ⟨.default, .default, .default⟩

/-! ## Toolchains -/

/-- The tools that a build runs. -/
structure Toolchain where
  runtimeJar : Path
  java : Path
  deriving DecidableEq, Repr

/-- A setting that is missing or of no use. -/
structure Misconfiguration where
  problem : String
  setting : String
  environmentName : String
  deriving DecidableEq, Repr

namespace Misconfiguration

/-- The message about a setting that is missing or of no use. -/
def message (missing : Misconfiguration) : String :=
  "configuration error: " ++ missing.problem ++ "\n  → Fix: set `" ++ missing.setting ++
    "` in cljc.toml or export " ++ missing.environmentName

/-- No runtime archive is known. -/
def noRuntime : Misconfiguration :=
  ⟨"are we forgetting something? CLOJURE_HOME not set", "toolchain.clojure_home", "CLOJURE_HOME"⟩

/-- The Java executable has no name. -/
def noJava : Misconfiguration :=
  ⟨"java executable is empty", "toolchain.java", "CLJC_JAVA"⟩

/-- The Java executable could not be started. -/
def javaNotLaunched (java : Path) (reason : String) : Misconfiguration :=
  ⟨"could not launch '" ++ java.display ++ "': " ++ reason, "toolchain.java", "CLJC_JAVA"⟩

end Misconfiguration

namespace ToolchainSettings

/-- The runtime archive: the one that is set, or the one in the home of Clojure. -/
def runtime? (settings : ToolchainSettings) : Option Path :=
  settings.runtimeJar <|> settings.clojureHome.map fun home => home.join ⟨"clojure.jar"⟩

/-- The toolchain that the settings describe. -/
def prepare (settings : ToolchainSettings) : Except Misconfiguration Toolchain :=
  match settings.runtime? with
  | none => .error .noRuntime
  | some runtime =>
      if settings.java.text = "" then .error .noJava else .ok ⟨runtime, settings.java⟩

end ToolchainSettings

namespace CompileSettings

/-- The options for the compiler of a language. -/
def optionsFor (settings : CompileSettings) : Language → CompilerOptions
  | .scala => settings.scalac
  | .groovy => settings.groovyc
  | .java => settings.javac

end CompileSettings

/-! ## Namespaces that are set -/

/-- Read the name of a namespace to compile; blanks around it do not count. -/
def readLib (text : String) : Except InvalidNamespace Namespace :=
  let name := Text.trim text
  match Namespace.parse name with
  | .ok found => .ok found
  | .error flaw => .error ⟨name, flaw⟩

/-- Read the names of the namespaces to compile, if they are set. -/
def readLibs : Option (List String) → Except InvalidNamespace (Option (List Namespace))
  | none => .ok none
  | some texts => (texts.mapM readLib).map some

end ClojureBuild
