import ClojureBuild.Path

/-!
# Secondary languages

Beside the Clojure sources a tree may hold Scala, Groovy and Java files, whose compilers are run
after the Clojure batch.  A language accepts the files that its compiler handles: those with its
own extension and Java files.
-/

namespace ClojureBuild

/-- A secondary language. -/
inductive Language where
  | scala
  | groovy
  | java
  deriving DecidableEq, Repr

namespace Language

/-- Every language, the one with the highest priority first. -/
def byPriority : List Language :=
  [.scala, .groovy, .java]

/-- The name of a language. -/
def name : Language → String
  | .scala => "scala"
  | .groovy => "groovy"
  | .java => "java"

/-- The extension of the files written in a language. -/
def extension (language : Language) : String :=
  language.name

/-- The program that compiles a language. -/
def compiler : Language → String
  | .scala => "scalac"
  | .groovy => "groovyc"
  | .java => "javac"

/-- The extensions of the files that the compiler of a language handles. -/
def compiledExtensions : Language → List String
  | .scala => ["scala", "java"]
  | .groovy => ["groovy", "java"]
  | .java => ["java"]

/-- Whether a file is written in a language. -/
def owns (language : Language) (file : Path) : Bool :=
  file.extension? == some language.extension

/-- Whether the compiler of a language handles a file. -/
def accepts (language : Language) (file : Path) : Bool :=
  match file.extension? with
  | some extension => language.compiledExtensions.contains extension
  | none => false

end Language

/-- Which of the languages present are compiled. -/
inductive SecondaryPolicy where
  | firstMatch
  | all
  deriving DecidableEq, Repr

namespace SecondaryPolicy

/-- Every policy. -/
def choices : List SecondaryPolicy :=
  [.firstMatch, .all]

/-- The name of a policy. -/
def name : SecondaryPolicy → String
  | .firstMatch => "first-match"
  | .all => "all"

end SecondaryPolicy

end ClojureBuild
