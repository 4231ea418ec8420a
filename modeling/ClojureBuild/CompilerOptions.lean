/-!
# Options of a secondary compiler
-/

namespace ClojureBuild

/-- The options passed to one secondary compiler. -/
structure CompilerOptions where
  source : Option String
  target : Option String
  debug : Bool
  warnings : Bool
  other : List String
  deriving DecidableEq, Repr

namespace CompilerOptions

/-- Warnings are shown and nothing else is asked for. -/
def default : CompilerOptions :=
  ⟨none, none, false, true, []⟩

end CompilerOptions

end ClojureBuild
