import ClojureBuild.FileTree.Resolve

/-!
# Workspaces

A workspace is a file tree seen from a current directory, with a clock that moves on at every write.
Questions about it leave it alone; a change either succeeds and gives the changed workspace or fails
and changes nothing.  Only the creation of several directories may fail half-way.

A directory changes when a name in it comes, goes or is taken over.  Its entry in the tree tells when it
was made, so the times of its later changes stand beside the tree.
-/

namespace ClojureBuild

/-- A file tree, where relative paths start, the home directory, the time of the last write, and when
directories have last changed after they were made. -/
structure Workspace where
  tree : FileTree
  current : Location
  home : Path
  clock : Instant
  changes : List (Location × Instant) := []
  deriving DecidableEq, Repr

namespace Workspace

/-! ## Looking -/

/-- The current directory as a path. -/
def currentPath (workspace : Workspace) : Path :=
  FileTree.pathOf workspace.current

/-- Where a path leads. -/
def resolve (workspace : Workspace) (followLast : Bool) (path : Path) : Resolution :=
  workspace.tree.resolve followLast workspace.current path

/-- The entry that a path leads to, and its location. -/
def look (workspace : Workspace) (followLast : Bool) (path : Path) :
    Except SystemFailure (Location × Entry) :=
  match workspace.resolve followLast path with
  | .found location =>
      match workspace.tree.find? location with
      | some entry => .ok (location, entry)
      | none => .error .notFound
  | .absent _ => .error .notFound
  | .absentDirectory _ => .error .notFound
  | .failed failure => .error failure

/-- The entry that a path leads to after all links, and its location. -/
def status (workspace : Workspace) (path : Path) : Except SystemFailure (Location × Entry) :=
  workspace.look true path

/-- Whether the entry that a path leads to has a property. -/
def entrySatisfies (workspace : Workspace) (property : Entry → Bool) (path : Path) : Bool :=
  match workspace.status path with
  | .ok (_, entry) => property entry
  | .error _ => false

/-- Whether a path leads to a regular file. -/
def isFile (workspace : Workspace) : Path → Bool :=
  workspace.entrySatisfies Entry.isFile

/-- Whether a path leads to a directory. -/
def isDirectory (workspace : Workspace) : Path → Bool :=
  workspace.entrySatisfies Entry.isDirectory

/-- Whether a path leads to anything. -/
def isPresent (workspace : Workspace) : Path → Bool :=
  workspace.entrySatisfies fun _ => true

/-- When the entry at a location was last modified: a directory when it has last changed. -/
def lastModified (workspace : Workspace) (location : Location) (entry : Entry) : Instant :=
  if entry.isDirectory then (workspace.changes.lookup location).getD entry.modified
  else entry.modified

/-- The absolute form of a path. -/
def absolute (workspace : Workspace) (path : Path) : Except FileFailure Path :=
  match path.absolute? workspace.currentPath with
  | some absolutePath => .ok absolutePath
  | none => .error .emptyPath

/-- The content of a file. -/
def read (workspace : Workspace) (path : Path) : Except SystemFailure (List UInt8) :=
  match workspace.status path with
  | .ok (_, .file content _ _) => .ok content
  | .ok _ => .error .isDirectory
  | .error failure => .error failure

/-- The content of a file that holds a text. -/
def readText (workspace : Workspace) (path : Path) : Except FileFailure String :=
  match workspace.read path with
  | .error failure => .error (.system failure)
  | .ok content =>
      match String.fromUTF8? ⟨content.toArray⟩ with
      | some text => .ok text
      | none => .error .notText

/-! ## Changing one entry -/

/-- The workspace with an entry at a location. -/
def put (workspace : Workspace) (location : Location) (entry : Entry) : Workspace :=
  { workspace with tree := workspace.tree.set location entry }

/-- The workspace at the next instant. -/
def tick (workspace : Workspace) : Workspace :=
  { workspace with clock := workspace.clock.next }

/-- The workspace in which a directory has last changed at an instant. -/
def changedAt (workspace : Workspace) (directory : Location) (instant : Instant) : Workspace :=
  let others := workspace.changes.filter fun held => held.1 ≠ directory
  { workspace with changes := (directory, instant) :: others }

/-- The workspace with an entry under a name that its directory has just got. -/
def enter (workspace : Workspace) (location : Location) (entry : Entry) : Workspace :=
  (workspace.changedAt location.dropLast workspace.clock).put location entry

/-- The workspace with a directory that has just been made. -/
def enterDirectory (workspace : Workspace) (location : Location) : Workspace :=
  (workspace.changedAt location workspace.clock).enter location (.directory workspace.clock)

/-- Where a path leads when neither a link nor a slash at its end is followed. -/
def resolveName (workspace : Workspace) (path : Path) : Resolution :=
  workspace.resolve false path.withoutTrailingSlashes

/-- Make a directory in an existing one. -/
def makeDirectory (workspace : Workspace) (path : Path) : Except SystemFailure Workspace :=
  if path.text = "" then
    .error .notFound
  else
    match workspace.resolveName path with
    | .found _ => .error .alreadyExists
    | .absent location => .ok (workspace.tick.enterDirectory location)
    | .absentDirectory _ => .error .notFound
    | .failed failure => .error failure

/-- Write a file, through links, into an existing directory. -/
def writeFile (workspace : Workspace) (path : Path) (content : List UInt8) (mode : Nat) :
    Except SystemFailure Workspace :=
  let written := .file content workspace.tick.clock mode
  match workspace.resolve true path with
  | .found location =>
      match workspace.tree.find? location with
      | some (.file _ _ _) => .ok (workspace.tick.put location written)
      | _ => .error .isDirectory
  | .absent location => .ok (workspace.tick.enter location written)
  | .absentDirectory _ => .error .isDirectory
  | .failed failure => .error failure

/-- Make a link in an existing directory. -/
def makeLink (workspace : Workspace) (path target : Path) : Except SystemFailure Workspace :=
  if target.text = "" then
    .error .notFound
  else
    match workspace.resolve false path with
    | .found _ => .error .alreadyExists
    | .absent location => .ok (workspace.tick.enter location (.link target))
    | .absentDirectory _ => .error .notFound
    | .failed failure => .error failure

/-- Set when the entry that a path leads to was modified. -/
def touch (workspace : Workspace) (path : Path) (instant : Instant) :
    Except SystemFailure Workspace :=
  (workspace.status path).map fun (location, entry) =>
    let touched := workspace.put location (entry.withModified instant)
    if entry.isDirectory then touched.changedAt location instant else touched

/-- Remove a file, a link, or a directory with all it holds. -/
def remove (workspace : Workspace) (path : Path) : Except SystemFailure Workspace :=
  (workspace.look false path).map fun (location, _) =>
    { workspace.tick.changedAt location.dropLast workspace.tick.clock with
      tree := workspace.tree.eraseAll location }

/-! ## Making several directories -/

/-- A path and the paths above it, without the empty path and the top. -/
def withAncestors : Nat → Path → List Path
  | 0, _ => []
  | bound + 1, path =>
      match path.parent? with
      | none => []
      | some parent => path :: withAncestors bound parent

/-- Make the first directory of a list, after those that follow it if need be. -/
def makeChain : List Path → Workspace → Except SystemFailure Unit × Workspace
  | [], workspace => (.ok (), workspace)
  | path :: above, workspace =>
      let settle := fun (before : Workspace) (failure : SystemFailure) =>
        if failure = .alreadyExists && before.isDirectory path then (.ok (), before)
        else (.error failure, before)
      match workspace.makeDirectory path with
      | .ok changed => (.ok (), changed)
      | .error .notFound =>
          match makeChain above workspace with
          | (.ok (), prepared) =>
              match prepared.makeDirectory path with
              | .ok changed => (.ok (), changed)
              | .error failure => settle prepared failure
          | failed => failed
      | .error failure => settle workspace failure

/-- Make a directory and those above it that are missing. -/
def makeDirectories (workspace : Workspace) (path : Path) :
    Except SystemFailure Unit × Workspace :=
  makeChain (withAncestors (path.components.length + 1) path) workspace

/-! ## Times -/

/-- Give the files written since an instant one common time. -/
def settleTimes (workspace : Workspace) (since common : Instant) : Workspace :=
  let settled := fun (held : Location × Entry) =>
    match held.2 with
    | .file content modified mode =>
        if since.atMost modified && modified.atMost workspace.clock then
          (held.1, Entry.file content common mode)
        else
          held
    | _ => held
  { workspace with tree := ⟨workspace.tree.entries.map settled⟩ }

end Workspace

end ClojureBuild
