import ClojureBuild.Classpath
import ClojureBuild.Command
import ClojureBuild.CompilerOptions
import ClojureBuild.Language

/-!
# Commands of the secondary compilers

The commands that compile one share of files.  `scalac` emits classes for Scala files only, so it
is followed by `javac` when there are Java files, with the target added to the classpath.
-/

namespace ClojureBuild

/-- Files for one secondary compiler, what they are compiled against and where to. -/
structure CompileUnit where
  language : Language
  files : List Path
  classpath : Classpath
  target : Path

namespace CompileUnit

/-- The files of a unit written in Java. -/
def javaFiles (unit : CompileUnit) : List Path :=
  unit.files.filter Language.java.owns

/-- The unit of the Java files, compiled against the classes already at the target. -/
def javaOnly (unit : CompileUnit) : CompileUnit :=
  { unit with files := unit.javaFiles, classpath := unit.classpath.push unit.target }

/-- A compiler with classpath and target. -/
def base (unit : CompileUnit) (program : ByteText) : Command :=
  ⟨program, ["-classpath", unit.classpath.join, "-d", unit.target.text]⟩

/-- An argument that is given on a condition. -/
def flag (condition : Bool) (argument : String) : List String :=
  if condition then [argument] else []

/-- The options of `javac`, in letters. -/
def javacOptions (options : CompilerOptions) : List String :=
  (options.source.toList.flatMap fun level => ["-source", level]) ++
    (options.target.toList.flatMap fun level => ["-target", level]) ++
    flag options.debug "-g" ++ flag (!options.warnings) "-nowarn"

/-- The options of `scalac`, in letters. -/
def scalacOptions (options : CompilerOptions) : List String :=
  (options.target.toList.map fun level => "-target:jvm-" ++ level) ++
    flag options.debug "-g:vars" ++ flag (!options.warnings) "-nowarn"

/-- The options of `groovyc`, in letters; it compiles Java files along with its own. -/
def groovycOptions (options : CompilerOptions) : List String :=
  ["-j"] ++ (options.source.toList.map fun level => "-Jsource=" ++ level) ++
    (options.target.toList.map fun level => "-Jtarget=" ++ level) ++
    flag options.debug "-Fg" ++ flag (!options.warnings) "-Fnowarn"

/-- The command that compiles the Java files of a unit. -/
def javac (unit : CompileUnit) (options : CompilerOptions) : Command :=
  (unit.base "javac").followedBy
    ((javacOptions options ++ options.other).map Text.encode ++ unit.javaFiles.map Path.text)

/-- The command that compiles the Scala files of a unit. -/
def scalac (unit : CompileUnit) (options : CompilerOptions) : Command :=
  (unit.base "scalac").followedBy
    ((scalacOptions options ++ options.other).map Text.encode ++ unit.files.map Path.text)

/-- The command that compiles the Groovy and Java files of a unit. -/
def groovyc (unit : CompileUnit) (options : CompilerOptions) : Command :=
  (unit.base "groovyc").followedBy
    ((groovycOptions options ++ options.other).map Text.encode ++ unit.files.map Path.text)

/-- The commands that compile a unit as files of a language, in order. -/
def commandsAs (language : Language) (unit : CompileUnit)
    (options javacOptions : CompilerOptions) : List Command :=
  match language with
  | .java => [unit.javac options]
  | .groovy => [unit.groovyc options]
  | .scala =>
      unit.scalac options ::
        (if unit.javaFiles.isEmpty then [] else [unit.javaOnly.javac javacOptions])

end CompileUnit

end ClojureBuild
