import ClojureBuild.Path

/-!
# Dependencies

A dependency is a file or directory, or a coordinate that names an artifact in a repository:
group, artifact, type, classifier and version between colons.  A text is read as a coordinate when
it has the parts of one and does not look like a path.
-/

namespace ClojureBuild

/-- The coordinate of an artifact. -/
structure Coordinate where
  group : String
  artifact : String
  kind : String
  classifier : Option String
  version : String
  deriving DecidableEq, Repr

namespace Coordinate

/-- The type of an artifact whose coordinate names none. -/
def defaultKind : String := "jar"

/-- The coordinate with three, four or five parts. -/
def ofParts? : List String → Option Coordinate
  | [group, artifact, version] => some ⟨group, artifact, defaultKind, none, version⟩
  | [group, artifact, kind, version] => some ⟨group, artifact, kind, none, version⟩
  | [group, artifact, kind, classifier, version] =>
      some ⟨group, artifact, kind, some classifier, version⟩
  | _ => none

/-- Read a coordinate; none of its parts may be empty. -/
def parse? (text : String) : Option Coordinate :=
  let parts := Text.fields ':' text
  if parts.any String.isEmpty then none else ofParts? parts

/-- The parts of a coordinate, with the type always among them. -/
def parts (coordinate : Coordinate) : List String :=
  [coordinate.group, coordinate.artifact, coordinate.kind] ++ coordinate.classifier.toList ++
    [coordinate.version]

/-- The text of a coordinate. -/
def display (coordinate : Coordinate) : String :=
  Text.joinWith ":" coordinate.parts

/-- The name of the artifact's file. -/
def fileName (coordinate : Coordinate) : String :=
  Text.joinWith "-"
      ([coordinate.artifact, coordinate.version] ++ coordinate.classifier.toList) ++
    "." ++ coordinate.kind

/-- Where an artifact lies in a repository: the group spelled as directories, then a directory for
the artifact and one for its version. -/
def repositoryPath (coordinate : Coordinate) : Path :=
  Path.ofParts <| (Text.fields '.' coordinate.group ++
    [coordinate.artifact, coordinate.version, coordinate.fileName]).map Text.encode

end Coordinate

/-- What a build depends on. -/
inductive Dependency where
  | path (location : Path)
  | artifact (coordinate : Coordinate)
  deriving DecidableEq, Repr

namespace Dependency

/-- Whether a text has a separator of paths in it or names an archive. -/
def isPathLike (text : String) : Bool :=
  text.toList.any (fun letter => letter = '/' || letter = '\\') ||
    ".jar".toList.isSuffixOf text.toList

/-- Read a dependency. -/
def parse (text : String) : Dependency :=
  if isPathLike text then
    .path (.ofText text)
  else
    match Coordinate.parse? text with
    | some coordinate => .artifact coordinate
    | none => .path (.ofText text)

/-- The text of a dependency. -/
def display : Dependency → String
  | .path location => location.display
  | .artifact named => named.display

end Dependency

end ClojureBuild
