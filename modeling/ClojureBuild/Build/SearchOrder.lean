import ClojureBuild.Build
import ClojureBuild.Classpath

/-!
# The search order

Dependencies come first, then the roots, whose sources load without being compiled, and the runtime
archive always comes last.
-/

namespace ClojureBuild.Build

/-- The paths that dependencies stand for. -/
def resolveAll (resolver : Resolver) (dependencies : List Dependency) : Build (List Path) :=
  dependencies.mapM fun dependency => do
    ofExcept .unresolved (resolver (← get).workspace dependency)

/-- The classpath of a build. -/
def searchOrder (resolver : Resolver) (dependencies : List Dependency) (roots : List Path)
    (runtime : Path) : Build Classpath := do
  let resolved ← resolveAll resolver dependencies
  let absoluteRoots ← roots.mapM absolute
  let last ← absolute runtime
  return (Classpath.ofList (resolved ++ absoluteRoots)).endingIn last

end ClojureBuild.Build
