import ClojureBuild.Build.Batch
import ClojureBuild.Build.Definitions
import ClojureBuild.Build.Delegation
import ClojureBuild.Build.Resources
import ClojureBuild.Build.SearchOrder

/-!
# Compiling a project

A build finds out what there is to do before it changes anything: the sources, the namespaces, where
these are defined, the classpath and whether the artifacts are up to date.  Then it runs the batch
if need be, copies the resources and delegates the secondary sources.  The first step that fails
ends it, and nothing is undone.
-/

namespace ClojureBuild

/-- What is compiled. -/
structure BuildOptions where
  /-- The namespaces to compile, instead of those found in the sources. -/
  libs : Option (List String)
  policy : SecondaryPolicy
  deriving DecidableEq, Repr

namespace BuildOptions

/-- The options that settings ask for. -/
def ofSettings (settings : CompileSettings) : BuildOptions :=
  ⟨settings.libs, settings.secondaryPolicy⟩

end BuildOptions

/-- What a build works with, and what hinders the copies that it makes. -/
structure Tools where
  toolchain : Toolchain
  runner : Runner
  hindrances : Hindrances
  resolver : Resolver
  compilers : Language → SecondaryCompiler

namespace Tools

/-- External compilers and a local repository, once the toolchain is ready for use. -/
def create (toolchain : ToolchainSettings) (runner : Runner) (hindrances : Hindrances)
    (resolver : Resolver) (settings : CompileSettings) : Except Misconfiguration Tools := do
  let ready ← toolchain.prepare
  return ⟨ready, runner, hindrances, resolver, Build.compilerPrograms runner settings⟩

end Tools

/-- What a build has done. -/
structure BuildReport where
  target : Path
  namespaces : List Namespace
  /-- The classpath that all compilers share, without the target. -/
  classpath : Classpath
  compiled : Bool
  copied : List Path
  unchanged : List Path
  secondary : List Language

namespace BuildReport

/-- Whether there was nothing to do. -/
def didNothing (report : BuildReport) : Bool :=
  !report.compiled && report.copied.isEmpty && report.secondary.isEmpty

end BuildReport

namespace Build

/-- The namespaces of a build: those asked for, or else those found below the roots. -/
def chooseNamespaces (options : BuildOptions) (roots : List Path) : Build (List Namespace) := do
  match ← ofExcept .invalidNamespace (readLibs options.libs) with
  | some libs => return libs
  | none => namespacesOfRoots roots

/-- Run the batch if some artifact is missing or out of date, and say whether it was run. -/
def compileNamespaces (tools : Tools) (namespaces : List Namespace)
    (definitions : List Definition) (classpath : Classpath) (target : Path) : Build Bool := do
  if ← ofSystem ((← get).workspace.isBatchDue target definitions namespaces) then
    runBatch tools.runner tools.toolchain.java namespaces classpath target
    return !namespaces.isEmpty
  else
    return false

/-- Build a project. -/
def compile (tools : Tools) (sources : List Path) (target : Path)
    (dependencies : List Dependency) (options : BuildOptions) : Build BuildReport := do
  let target ← absolute target
  let split ← gatherSources sources
  let namespaces ← chooseNamespaces options split.roots
  let definitions ← ofExcept id ((← get).workspace.definitionsOf split.roots namespaces)
  let classpath ← searchOrder tools.resolver dependencies split.roots tools.toolchain.runtimeJar
  let compiled ← compileNamespaces tools namespaces definitions classpath target
  makeDirectories target
  let passes ← split.roots.mapM fun root => copyResources tools.hindrances root target namespaces
  let files ← ofReported ((← get).workspace.distinctFiles (split.roots ++ split.files))
  let shares := options.policy.shares files
  delegate tools.compilers classpath target shares
  let resources := ResourceReport.ofPasses passes
  return {
    target := target
    namespaces := namespaces
    classpath := classpath
    compiled := compiled
    copied := resources.copied
    unchanged := resources.unchanged
    secondary := shares.map Share.language }

/-- The classpath that a build would use. -/
def classpathFor (tools : Tools) (sources : List Path) (dependencies : List Dependency) :
    Build Classpath := do
  let split ← gatherSources sources
  searchOrder tools.resolver dependencies split.roots tools.toolchain.runtimeJar

end Build

end ClojureBuild
