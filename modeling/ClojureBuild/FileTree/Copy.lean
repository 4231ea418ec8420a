import ClojureBuild.Workspace

/-!
# Copies

A file is copied through a temporary file beside its destination, which then takes the place of
what was there in one step and gets the permissions of the source.  A copy that fails before that
step throws the temporary file away, so it leaves nothing behind.  A link at the destination is
replaced and not followed.
-/

namespace ClojureBuild

/-- A step of a copy that the system may refuse, whatever the tree holds. -/
inductive CopyStep where
  | openSource
  | readPermissions
  | makeTemporary
  | write
  | flush
  | move
  | setPermissions
  deriving DecidableEq, Repr

/-- What hinders a copy apart from what the tree holds: the steps that are refused, and how many
bytes have been written when writing is refused. -/
structure Hindrance where
  refusal? : CopyStep → Option SystemFailure
  reach : Nat

namespace Hindrance

/-- Nothing is refused. -/
def free : Hindrance :=
  ⟨fun _ => none, 0⟩

/-- Go on to a step unless it is refused. -/
def pass (hindrance : Hindrance) (step : CopyStep) : Except SystemFailure Unit :=
  match hindrance.refusal? step with
  | some failure => .error failure
  | none => .ok ()

end Hindrance

/-- What hinders each copy, by the instant at which it begins. -/
abbrev Hindrances := Instant → Hindrance

/-- Nothing hinders any copy. -/
def unhindered : Hindrances :=
  fun _ => .free

namespace Workspace

/-! ## Where a copy goes -/

/-- Whether a path ends in a dot or two, which no file can be moved onto. -/
def endsInDots (path : Path) : Bool :=
  match path.withoutTrailingSlashes.body.getLast? with
  | some piece => piece == "." || piece == ".."
  | none => true

/-- The location that a file moved to a path takes. -/
def placeFor (workspace : Workspace) (path : Path) : Except SystemFailure Location :=
  let checked := fun (location : Location) =>
    if path.endsInSlash then .error .notDirectory else .ok location
  match workspace.resolveName path with
  | .found location =>
      if endsInDots path then .error .busy
      else if path.endsInSlash then .error .notDirectory
      else if (workspace.tree.find? location).any Entry.isDirectory then .error .isDirectory
      else .ok location
  | .absent location => checked location
  | .absentDirectory location => checked location
  | .failed failure => .error failure

/-! ## The temporary file -/

/-- The absolute path of the directory for a temporary file. -/
def temporaryDirectory (workspace : Workspace) (parent : Path) : Path :=
  if parent.isAbsolute then parent else workspace.currentPath.join parent

/-- A name that no entry of a directory has: as many zeros are added as are needed. -/
def temporaryName (workspace : Workspace) (directory : Path) : ByteText :=
  let taken :=
    match workspace.status directory with
    | .ok (location, _) => workspace.tree.names location
    | .error _ => []
  let tried := (List.range (taken.length + 1)).map fun zeros =>
    ".tmp" ++ String.ofList (List.replicate zeros '0')
  (tried.find? fun name => !taken.contains name).getD ".tmp"

/-- The permissions of a temporary file: its owner may read and write it. -/
def temporaryMode : Nat := 384

/-- The workspace with a temporary file, which is made at the next instant. -/
def withTemporary (workspace : Workspace) (place : Location) : Workspace :=
  workspace.tick.enter place (.file [] workspace.tick.clock temporaryMode)

/-- The workspace in which a temporary file has some content. -/
def withContent (workspace : Workspace) (place : Location) (content : List UInt8) : Workspace :=
  workspace.put place (.file content workspace.clock temporaryMode)

/-- The workspace without a temporary file. -/
def discard (workspace : Workspace) (place : Location) : Workspace :=
  { workspace.changedAt place.dropLast workspace.clock with tree := workspace.tree.erase place }

/-! ## The steps of a copy -/

/-- Open what is to be copied. -/
def openSource (workspace : Workspace) (hindrance : Hindrance) (source : Path) :
    Except SystemFailure Entry := do
  hindrance.pass .openSource
  let (_, entry) ← workspace.status source
  hindrance.pass .readPermissions
  return entry

/-- The location of a new file of the given name in a directory. -/
def placeForTemporary (workspace : Workspace) (hindrance : Hindrance) (directory : Path)
    (name : ByteText) : Except SystemFailure Location := do
  hindrance.pass .makeTemporary
  match ← workspace.status directory with
  | (location, .directory _) =>
      if (workspace.tree.find? (location ++ [name])).isSome then throw .alreadyExists
      else return location ++ [name]
  | _ => throw .notDirectory

/-- Write what has been opened to the temporary file.  A directory can be opened but not read. -/
def fill (workspace : Workspace) (hindrance : Hindrance) (place : Location) :
    Entry → Except SystemFailure Nat × Workspace
  | .file content _ mode =>
      match hindrance.pass .write with
      | .error failure =>
          (.error failure, workspace.withContent place (content.take hindrance.reach))
      | .ok () => (.ok mode, workspace.withContent place content)
  | _ => (.error .isDirectory, workspace)

/-- Move the temporary file to where it is to be. -/
def moveTemporary (workspace : Workspace) (hindrance : Hindrance) (place : Location)
    (destination : Path) : Except SystemFailure Workspace := do
  hindrance.pass .flush
  hindrance.pass .move
  let location ← workspace.placeFor destination
  match workspace.tree.find? place with
  | some entry => return (workspace.discard place).enter location entry
  | none => throw .notFound

/-- Set the permissions of the file that a path leads to. -/
def setMode (workspace : Workspace) (hindrance : Hindrance) (path : Path) (mode : Nat) :
    Except SystemFailure Workspace := do
  hindrance.pass .setPermissions
  let (location, entry) ← workspace.status path
  return workspace.put location (entry.withMode mode)

/-- Fill a temporary file and move it to a destination, or throw it away if that fails. -/
def fillAndMove (workspace : Workspace) (hindrance : Hindrance) (place : Location)
    (opened : Entry) (destination : Path) : Except SystemFailure Nat × Workspace :=
  match (workspace.withTemporary place).fill hindrance place opened with
  | (.error failure, left) => (.error failure, left.discard place)
  | (.ok mode, filled) =>
      match filled.moveTemporary hindrance place destination with
      | .error failure => (.error failure, filled.discard place)
      | .ok moved => (.ok mode, moved)

/-- Put the content of a file in the place of what a destination names.  The result tells the
permissions that are still to be set. -/
def replace (workspace : Workspace) (hindrance : Hindrance) (name : ByteText)
    (source destination : Path) : Except FileFailure Nat × Workspace :=
  match destination.parent? with
  | none => (.error (.noParent destination), workspace)
  | some parent =>
      match workspace.openSource hindrance source with
      | .error failure => (.error (.system failure), workspace)
      | .ok opened =>
          let directory := workspace.temporaryDirectory parent
          match workspace.placeForTemporary hindrance directory name with
          | .error failure => (.error (.temporary failure directory), workspace)
          | .ok place =>
              let (outcome, after) := workspace.fillAndMove hindrance place opened destination
              (outcome.mapError .system, after)

/-! ## Whole copies -/

/-- Copy a file with its permissions, through a temporary file of the given name. -/
def copyThrough (workspace : Workspace) (hindrance : Hindrance) (name : ByteText)
    (source destination : Path) : Except FileFailure Unit × Workspace :=
  match workspace.replace hindrance name source destination with
  | (.error failure, after) => (.error failure, after)
  | (.ok mode, replaced) =>
      match replaced.setMode hindrance destination mode with
      | .error failure => (.error (.system failure), replaced)
      | .ok after => (.ok (), after)

/-- Copy a file with its permissions. -/
def copy (workspace : Workspace) (hindrances : Hindrances) (source destination : Path) :
    Except FileFailure Unit × Workspace :=
  let name :=
    match destination.parent? with
    | some parent => workspace.temporaryName (workspace.temporaryDirectory parent)
    | none => ".tmp"
  workspace.copyThrough (hindrances workspace.clock) name source destination

end Workspace

end ClojureBuild
