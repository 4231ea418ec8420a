import ClojureBuild.Build
import ClojureBuild.Classpath

/-!
# The Clojure batch

One run of the Clojure compiler covers all namespaces.  The target is on its classpath, so that a
namespace compiled early in the batch can be loaded by a later one.
-/

namespace ClojureBuild

namespace Batch

/-- The main class of the compiler. -/
def mainClass : String := "clojure.lang.Compile"

/-- The argument that tells the compiler where to write. -/
def outputArgument (target : Path) : ByteText :=
  "-Dclojure.compile.path=" ++ target.text

/-- The command that compiles namespaces. -/
def command (java : Path) (namespaces : List Namespace) (classpath : Classpath) (target : Path) :
    Command :=
  ⟨java.text, ["-classpath", (classpath.push target).join, outputArgument target, mainClass] ++
    namespaces.map fun wanted => Text.encode wanted.name⟩

end Batch

namespace Build

/-- Compile namespaces, if there are any. -/
def runBatch (runner : Runner) (java : Path) (namespaces : List Namespace) (classpath : Classpath)
    (target : Path) : Build Unit := do
  if namespaces.isEmpty then
    return ()
  makeDirectories target
  match ← runCommand runner (Batch.command java namespaces classpath target) with
  | .error reason => throw (.misconfigured (.javaNotLaunched java reason))
  | .ok output => if output.succeeded then return () else throw (.compileFailed output)

end Build

end ClojureBuild
