import ClojureBuild.Build
import ClojureBuild.Config.Environment

/-!
# Finding the configuration

A project has its own configuration file; without one the user's is taken, and without that the
defaults.  The environment has the last word.
-/

namespace ClojureBuild.Config

/-- The name of the configuration file of a project. -/
def projectFileName : Path := ⟨"cljc.toml"⟩

/-- The directory for the configuration files of a user. -/
def userDirectory (environment : Environment) (home : Path) : Path :=
  match (environment.lookup "XDG_CONFIG_HOME").map Path.ofText with
  | some directory => if directory.isAbsolute then directory else home.join ⟨".config"⟩
  | none => home.join ⟨".config"⟩

/-- The configuration file of a user. -/
def userFile (environment : Environment) (home : Path) : Path :=
  ((userDirectory environment home).join ⟨"cljc"⟩).join ⟨"config.toml"⟩

/-- The files that may hold the configuration, the first one present counting. -/
def candidates (root : Option Path) (environment : Environment) (home : Path) : List Path :=
  (root.map fun directory => directory.join projectFileName).toList ++
    [userFile environment home]

/-- Read a configuration file. -/
def ofFile (path : Path) : Build (Config × List Warning) := do
  let content ← Build.ofFile ((← get).workspace.readText path)
  Build.ofExcept .invalidConfig (parse content path)

/-- Let the environment override a configuration. -/
def override (environment : Environment) (config : Config) : Build Config := do
  let (overridden, notices) := config.overriddenBy environment
  Build.report notices
  return overridden

/-- Read a configuration file, and let the environment override it. -/
def ofFileOverridden (path : Path) (environment : Environment) :
    Build (Config × List Warning) := do
  let (config, warnings) ← ofFile path
  return (← override environment config, warnings)

/-- The configuration of a project. -/
def ofProject (root : Option Path) (environment : Environment) :
    Build (Config × List Warning) := do
  let workspace := (← get).workspace
  match (candidates root environment workspace.home).find? workspace.isFile with
  | some file => ofFileOverridden file environment
  | none => return (← override environment .default, [])

end ClojureBuild.Config
