import ClojureBuild.Path

/-!
# Namespaces

A namespace is a non-empty list of segments.  Its name joins the segments with dots, its source
file and its compiled artifact spell them as directories.  Reading a name and reading a source path
are partial inverses of writing them.
-/

namespace ClojureBuild

/-- Whether a text can stand as one segment of a namespace. -/
def canBeSegment (text : String) : Bool :=
  !text.isEmpty && text.toList.all fun letter => letter ≠ '.' && letter ≠ '/' && letter ≠ '\\'

/-- A namespace: at least one segment, each of them free of dots and separators. -/
structure Namespace where
  segments : List String
  nonempty : segments ≠ []
  valid : segments.all canBeSegment = true
  deriving DecidableEq

namespace Namespace

/-- The ending of a source file. -/
def sourceSuffix : String := ".clj"

/-- The ending of the artifact that compiling a namespace leaves. -/
def artifactSuffix : String := "__init.class"

/-- The namespace with the given segments, if they can stand as segments. -/
def ofSegments? (segments : List String) : Option Namespace :=
  if nonempty : segments ≠ [] then
    if valid : segments.all canBeSegment = true then
      some ⟨segments, nonempty, valid⟩
    else
      none
  else
    none

/-- The dotted name. -/
def name (namespaceName : Namespace) : String :=
  Text.joinWith "." namespaceName.segments

/-! ## Reading names -/

/-- What is wrong with a name. -/
inductive Flaw where
  | emptyName
  | emptySegment
  | separatorInSegment
  deriving DecidableEq, Repr

namespace Flaw

/-- The reason given for refusing a name. -/
def message : Flaw → String
  | .emptyName => "name is empty"
  | .emptySegment => "contains an empty segment"
  | .separatorInSegment => "segments must not contain path separators"

end Flaw

/-- The first flaw of a list of segments. -/
def segmentFlaw? : List String → Option Flaw
  | [] => none
  | segment :: rest =>
      if segment.isEmpty then some .emptySegment
      else if segment.toList.any fun letter => letter = '/' || letter = '\\' then
        some .separatorInSegment
      else segmentFlaw? rest

/-- Read a dotted name. -/
def parse (text : String) : Except Flaw Namespace :=
  if text.isEmpty then
    .error .emptyName
  else
    let segments := Text.fields '.' text
    match segmentFlaw? segments with
    | some flaw => .error flaw
    | none =>
        match ofSegments? segments with
        | some found => .ok found
        | none => .error .emptySegment

/-! ## Paths -/

/-- The segments as directories, with an ending after the last one. -/
def pathWith (suffix : String) (namespaceName : Namespace) : Path :=
  .ofText (Text.joinWith "/" namespaceName.segments ++ suffix)

/-- Where the source of a namespace lies below its root. -/
def sourcePath (namespaceName : Namespace) : Path :=
  namespaceName.pathWith sourceSuffix

/-- Where the artifact of a namespace lies below the target. -/
def artifactPath (namespaceName : Namespace) : Path :=
  namespaceName.pathWith artifactSuffix

/-- Whether a path has the extension of a source file. -/
def hasSourceExtension (path : Path) : Bool :=
  path.extension? == some "clj"

/-- The segments that the directories of a relative path spell, if their names are texts. -/
def directorySegments? : List Path.Component → Option (List String)
  | [] => some []
  | .current :: rest => directorySegments? rest
  | .name directory :: rest =>
      match Text.decode? directory with
      | some segment => (directorySegments? rest).map (segment :: ·)
      | none => none
  | _ :: _ => none

/-- The segment that the stem of a path spells, if it is a text. -/
def stemSegment? (path : Path) : Option String :=
  path.stem?.bind Text.decode?

/-- The namespace that a source file at a relative path defines. -/
def ofSourcePath? (path : Path) : Option Namespace :=
  if hasSourceExtension path then
    match stemSegment? path, directorySegments? path.components.dropLast with
    | some stem, some directories => ofSegments? (directories ++ [stem])
    | _, _ => none
  else
    none

end Namespace

/-- A name that is no namespace, and why. -/
structure InvalidNamespace where
  name : String
  flaw : Namespace.Flaw
  deriving DecidableEq, Repr

namespace InvalidNamespace

/-- The message about a name that is no namespace. -/
def message (invalid : InvalidNamespace) : String :=
  "invalid namespace '" ++ invalid.name ++ "': " ++ invalid.flaw.message

end InvalidNamespace

end ClojureBuild
