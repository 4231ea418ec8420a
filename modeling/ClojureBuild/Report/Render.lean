import ClojureBuild.Build.Project
import ClojureBuild.Json.Printer

/-!
# Showing results

Results are shown as lines of text for people, or as one JSON object for programs.  In JSON every path
is a text, so a result that holds another path cannot be shown so.
-/

namespace ClojureBuild

/-- How results are shown. -/
inductive OutputFormat where
  | text
  | json
  deriving DecidableEq, Repr

namespace OutputFormat

/-- JSON if asked for, else text. -/
def ofSwitch (json : Bool) : OutputFormat :=
  if json then .json else .text

end OutputFormat

/-- An array of paths. -/
def Json.ofPaths (paths : List Path) : Json :=
  .ofTexts (paths.map Path.display)

/-- The text of a JSON value, if all paths in it are texts. -/
def Json.prettyIfTexts (paths : List Path) (value : Json) : Option String :=
  if paths.all Path.isText then some value.pretty else none

/-- An array of namespaces, by name. -/
def Json.ofNamespaces (namespaces : List Namespace) : Json :=
  .ofTexts (namespaces.map Namespace.name)

namespace BuildReport

/-- A report as a JSON object. -/
def toJson (report : BuildReport) : Json :=
  .ofFields [
    ("target", .text report.target.display),
    ("namespaces", .ofNamespaces report.namespaces),
    ("classpath", .ofPaths report.classpath.entries),
    ("compiled", .boolean report.compiled),
    ("copied", .ofPaths report.copied),
    ("unchanged", .ofPaths report.unchanged),
    ("secondary", .ofTexts (report.secondary.map Language.name))]

/-- The paths of a report. -/
def paths (report : BuildReport) : List Path :=
  report.target :: report.classpath.entries ++ report.copied ++ report.unchanged

/-- The number of namespaces of a report. -/
def namespaceCount (report : BuildReport) : String :=
  toString report.namespaces.length

/-- The line about the batch. -/
def batchLine (report : BuildReport) : String :=
  if report.compiled then "  Compiled " ++ report.namespaceCount ++ " namespaces"
  else "  " ++ report.namespaceCount ++ " namespaces already up-to-date"

/-- The line about the resources that were copied, if there are any. -/
def copiedLine (report : BuildReport) : List String :=
  if report.copied.isEmpty then []
  else ["  Copied " ++ toString report.copied.length ++ " resources"]

/-- The line about a secondary language. -/
def delegatedLine (language : Language) : String :=
  "  Delegated " ++ language.name ++ " sources to " ++ language.compiler

/-- The lines that show a report. -/
def lines (report : BuildReport) : List String :=
  if report.didNothing then
    ["✓ Already Up-to-date",
      "  " ++ report.namespaceCount ++ " namespaces → " ++ report.target.display]
  else
    ["✓ Compile Complete", "", "  Target: " ++ report.target.display, report.batchLine] ++
      report.copiedLine ++ report.secondary.map delegatedLine

/-- What a build shows in the end. -/
def render (format : OutputFormat) (report : BuildReport) : Option String :=
  match format with
  | .text => some (Text.asLines report.lines)
  | .json =>
      Json.prettyIfTexts report.paths <| .ofFields [
        ("event", .text "compile"),
        ("status", .text "success"),
        ("report", report.toJson)]

end BuildReport

namespace Namespace

/-- A root with its namespaces as a JSON object. -/
def listingToJson (listing : Path × List Namespace) : Json :=
  .ofFields [("root", .text listing.1.display), ("namespaces", .ofNamespaces listing.2)]

/-- The lines that show a root with its namespaces. -/
def listingLines (listing : Path × List Namespace) : List String :=
  (listing.1.display ++ " (" ++ toString listing.2.length ++ ")") ::
    listing.2.map fun found => "  " ++ found.name

/-- What listing the namespaces of roots shows. -/
def renderListings (format : OutputFormat) (listings : List (Path × List Namespace)) :
    Option String :=
  match format with
  | .text => some (Text.asLines (listings.flatMap listingLines))
  | .json =>
      Json.prettyIfTexts (listings.map Prod.fst) <| .ofFields [
        ("event", .text "namespaces"),
        ("roots", .array (listings.map listingToJson))]

end Namespace

namespace Classpath

/-- What showing a classpath shows: one line ready for use, or its entries. -/
def render (format : OutputFormat) (classpath : Classpath) : Option String :=
  match format with
  | .text => some (Text.decodeLossy classpath.join ++ "\n")
  | .json =>
      Json.prettyIfTexts classpath.entries <| .ofFields [
        ("event", .text "classpath"),
        ("entries", .ofPaths classpath.entries)]

end Classpath

namespace Config.Warning

/-- The lines that show warnings. -/
def renderAll (warnings : List Warning) : String :=
  Text.asLines (warnings.map fun warning => "Warning: " ++ warning.display)

end Config.Warning

end ClojureBuild
