import ClojureBuild.Config
import ClojureBuild.Notice
import ClojureBuild.Text.EditDistance
import ClojureBuild.Text.LowerCase

/-!
# The environment

Variables of the environment take precedence over configuration files.  A variable that holds
nothing but blanks counts as unset.
-/

namespace ClojureBuild

/-- The variables of the environment. -/
abbrev Environment := List (String × String)

namespace Environment

/-- The value of a variable, unless it is blank. -/
def value? (environment : Environment) (name : String) : Option String :=
  (environment.lookup name).filter fun value => !Text.allBlank value

end Environment

namespace SecondaryPolicy

/-- The policy that a lower-case value of the environment stands for. -/
def ofValue? (value : String) : Option SecondaryPolicy :=
  if value = "first-match" ∨ value = "first" then some .firstMatch
  else if value = "all" then some .all
  else none

end SecondaryPolicy

namespace Config

/-- The paths of the toolchain that the environment sets. -/
def withPaths (environment : Environment) (settings : ToolchainSettings) : ToolchainSettings where
  clojureHome := ((environment.value? "CLOJURE_HOME").map Path.ofText) <|> settings.clojureHome
  runtimeJar := settings.runtimeJar
  java := ((environment.value? "CLJC_JAVA").map Path.ofText).getD settings.java
  repository := ((environment.value? "CLJC_REPOSITORY").map Path.ofText) <|> settings.repository

/-- The policy that the environment sets; an unknown one is reported and ignored. -/
def policyFrom (environment : Environment) (current : SecondaryPolicy) :
    SecondaryPolicy × List Notice :=
  match environment.value? "CLJC_SECONDARY_POLICY" with
  | none => (current, [])
  | some text =>
      let value := Text.toLower (Text.trim text)
      match SecondaryPolicy.ofValue? value with
      | some policy => (policy, [])
      | none =>
          let names := SecondaryPolicy.choices.map SecondaryPolicy.name
          (current, [.unknownPolicy value (Text.nearMiss? value names)])

/-- The configuration with what the environment sets. -/
def overriddenBy (config : Config) (environment : Environment) : Config × List Notice :=
  let (policy, notices) := policyFrom environment config.compile.secondaryPolicy
  ({ config with
      toolchain := withPaths environment config.toolchain,
      compile := { config.compile with secondaryPolicy := policy } }, notices)

end Config

end ClojureBuild
