import ClojureBuild.Path

/-!
# Notices

What a build reports on the side without failing.
-/

namespace ClojureBuild

/-- Something that is reported and does not stop a build. -/
inductive Notice where
  | skippedSource (source : Path)
  | unmappedSource (file : Path)
  | linkLoop (child ancestor : Path)
  | unknownPolicy (value : String) (suggestion : Option String)
  deriving DecidableEq, Repr

namespace Notice

/-- The line that a notice is reported on. -/
def line : Notice → String
  | .skippedSource source => "source does not exist, skipping source=" ++ source.display
  | .unmappedSource file =>
      "source path does not map to a namespace, skipping path=" ++ file.display
  | .linkLoop child ancestor =>
      "skipping symlink loop error=File system loop found: " ++ child.display ++
        " points to an ancestor " ++ ancestor.display
  | .unknownPolicy value suggestion =>
      let hint :=
        match suggestion with
        | some choice => ". Did you mean '" ++ choice ++ "'?"
        | none => ""
      "invalid CLJC_SECONDARY_POLICY value '" ++ value ++ "'" ++ hint ++
        "; valid values: first-match, all"

end Notice

end ClojureBuild
