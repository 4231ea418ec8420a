import ClojureBuild.Language

/-!
# Shares of the compilers

Which compilers a list of files goes to, and which files each of them gets.  Every file is handed
to one compiler at most: a compiler that comes first also claims the Java files, and a later one
only runs while files of its own language are left.
-/

namespace ClojureBuild

namespace Language

/-- Whether some file is written in a language. -/
def isPresent (language : Language) (files : List Path) : Bool :=
  files.any language.owns

/-- The languages present, the one with the highest priority first. -/
def present (files : List Path) : List Language :=
  byPriority.filter fun language => language.isPresent files

/-- The language with the highest priority among those present. -/
def foremost? (files : List Path) : Option Language :=
  byPriority.find? fun language => language.isPresent files

end Language

namespace SecondaryPolicy

/-- The languages that a policy delegates to. -/
def languages (policy : SecondaryPolicy) (files : List Path) : List Language :=
  match policy with
  | .firstMatch => (Language.foremost? files).toList
  | .all => Language.present files

end SecondaryPolicy

/-- The files that one language gets. -/
structure Share where
  language : Language
  files : List Path
  deriving DecidableEq, Repr

namespace Share

/-- Deal the remaining files to the languages in turn. -/
def deal : List Language → List Path → List Share
  | [], _ => []
  | language :: rest, remaining =>
      if language.isPresent remaining then
        ⟨language, remaining.filter language.accepts⟩ ::
          deal rest (remaining.filter fun file => !language.accepts file)
      else
        deal rest remaining

end Share

/-- The shares of a list of files under a policy, in the order in which they are compiled. -/
def SecondaryPolicy.shares (policy : SecondaryPolicy) (files : List Path) : List Share :=
  Share.deal (policy.languages files) files

end ClojureBuild
