import ClojureBuild.Config.Document
import ClojureBuild.Text.EditDistance
import ClojureBuild.Toml.Document
import ClojureBuild.Toml.Excerpt

/-!
# Configuration files

The text of a configuration file is read as a document and the document as a configuration.  A key
that names nothing is no error: it is reported with the line it first occurs on and the known key
it may have been meant for.
-/

namespace ClojureBuild.Config

/-- A key of a configuration file that names nothing. -/
structure Warning where
  key : String
  file : Path
  line : Option Nat
  suggestion : Option String
  deriving DecidableEq, Repr

namespace Warning

/-- The text of a warning. -/
def display (warning : Warning) : String :=
  "unknown key '" ++ warning.key ++ "' in " ++ warning.file.display ++
    (match warning.line with
      | some line => ":" ++ toString line
      | none => "") ++
    (match warning.suggestion with
      | some suggestion => " (did you mean '" ++ suggestion ++ "'?)"
      | none => "")

end Warning

/-- Every key that names something. -/
def knownKeys : List String :=
  ["toolchain", "clojure_home", "runtime_jar", "java", "repository", "compile", "libs",
    "secondary_policy", "javac", "scalac", "groovyc", "source", "target", "debug", "warnings",
    "other", "project", "sources", "dependencies"]

/-- The number of the first line that a text occurs on. -/
def lineOf? (content needle : String) : Option Nat :=
  ((Text.lines content).findIdx? fun line => Text.contains needle line).map (· + 1)

/-- The warning about an unknown key: only what follows its last dot is looked for. -/
def warningAbout (content : String) (file : Path) (name : String) : Warning :=
  let key := Text.lastField '.' name
  ⟨key, file, lineOf? content key, Text.nearMiss? key knownKeys⟩

/-- Why the text of a configuration file is refused. -/
inductive Flaw where
  /-- It is not a document. -/
  | notToml
  /-- A setting in it has the wrong shape; the text says which and why. -/
  | misfit (report : String)
  deriving DecidableEq, Repr

/-- A configuration file that is refused. -/
structure Invalid where
  file : Path
  flaw : Flaw
  deriving DecidableEq, Repr

namespace Invalid

/-- The message about a configuration file that is refused. -/
def message (invalid : Invalid) : String :=
  "invalid configuration in " ++ invalid.file.display ++ ": " ++
    match invalid.flaw with
    | .notToml => "TOML parse error\n"
    | .misfit report => report

end Invalid

/-- The report of a misfit, with an excerpt if its place is known. -/
def reportOf (content : String) (misfit : Misfit) : String :=
  match misfit.place with
  | some place => Toml.excerpt content place misfit.mismatch.message
  | none => misfit.mismatch.message ++ "\n"

/-- Read the text of a configuration file. -/
def parse (content : String) (file : Path) : Except Invalid (Config × List Warning) :=
  match Toml.read? content with
  | none => .error ⟨file, .notToml⟩
  | some document =>
      match Config.read .toml document with
      | .ok reading => .ok (reading.value, reading.unknownKeys.map (warningAbout content file))
      | .error misfit => .error ⟨file, .misfit (reportOf content misfit)⟩

end ClojureBuild.Config
