import ClojureBuild.Path
import ClojureBuild.Text.Quoted

/-!
# Failures of file operations
-/

namespace ClojureBuild

/-- Why the system refuses an operation on files. -/
inductive SystemFailure where
  | notFound
  | execFormat
  | permissionDenied
  | busy
  | alreadyExists
  | notDirectory
  | isDirectory
  | nameTooLong
  | tooManyLinks
  | zeroInPath
  deriving DecidableEq, Repr

namespace SystemFailure

/-- The text of a failure with the number that the system gives it. -/
def numbered (text : String) (number : Nat) : String :=
  text ++ " (os error " ++ toString number ++ ")"

/-- The message about a failure. -/
def message : SystemFailure → String
  | .notFound => numbered "No such file or directory" 2
  | .execFormat => numbered "Exec format error" 8
  | .permissionDenied => numbered "Permission denied" 13
  | .busy => numbered "Device or resource busy" 16
  | .alreadyExists => numbered "File exists" 17
  | .notDirectory => numbered "Not a directory" 20
  | .isDirectory => numbered "Is a directory" 21
  | .nameTooLong => numbered "File name too long" 36
  | .tooManyLinks => numbered "Too many levels of symbolic links" 40
  | .zeroInPath => "file name contained an unexpected NUL byte"

end SystemFailure

/-- Why an operation on files fails. -/
inductive FileFailure where
  | system (failure : SystemFailure)
  /-- The empty path has no absolute form. -/
  | emptyPath
  /-- The content of a file is no text. -/
  | notText
  /-- A path that has no parent cannot be written to. -/
  | noParent (path : Path)
  /-- No temporary file can be made in a directory. -/
  | temporary (failure : SystemFailure) (directory : Path)
  /-- A walk cannot read an entry. -/
  | walking (path : Path) (failure : SystemFailure)
  deriving DecidableEq, Repr

namespace FileFailure

/-- The message about a failure. -/
def message : FileFailure → String
  | .system failure => failure.message
  | .emptyPath => "cannot make an empty path absolute"
  | .notText => "stream did not contain valid UTF-8"
  | .noParent path => "no parent directory for " ++ path.display
  | .temporary failure directory =>
      failure.message ++ " at path " ++ Text.quotedBytes (directory.join ⟨".tmp"⟩).text
  | .walking path failure =>
      path.display ++ ": IO error for operation on " ++ path.display ++ ": " ++ failure.message

end FileFailure

end ClojureBuild
