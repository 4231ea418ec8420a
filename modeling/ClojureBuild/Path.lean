import ClojureBuild.Text.Encoding
import ClojureBuild.Text.Fields

/-!
# Paths

A path keeps the bytes it was written with, which need not spell a text.  Two paths are the same when
they have the same components: repeated slashes, a trailing slash and dots after the first component
do not count, while a leading dot and every `..` do.  The order compares components, so `a/x` comes
before `a-b`.
-/

namespace ClojureBuild

/-- A path, as it was written. -/
structure Path where
  text : ByteText
  deriving DecidableEq, Repr, Inhabited

namespace Path

/-! ## Texts -/

/-- The path that is written with the letters of a text. -/
def ofText (text : String) : Path :=
  ⟨Text.encode text⟩

/-- The text that a path is written with, if its bytes spell one. -/
def toText? (path : Path) : Option String :=
  Text.decode? path.text

/-- Whether the bytes of a path spell a text. -/
def isText (path : Path) : Bool :=
  path.toText?.isSome

/-- The text that a path is shown as. -/
def display (path : Path) : String :=
  Text.decodeLossy path.text

/-! ## Components -/

/-- One step of a path. -/
inductive Component where
  | top
  | current
  | parent
  | name (text : ByteText)
  deriving DecidableEq, Repr

namespace Component

/-- The text of a component. -/
def text : Component → ByteText
  | .top => "/"
  | .current => "."
  | .parent => ".."
  | .name text => text

/-- The place of the kind of a component in the order of components. -/
def rank : Component → Nat
  | .top => 0
  | .current => 1
  | .parent => 2
  | .name _ => 3

/-- Whether a component comes before another or equals it. -/
def atMost : Component → Component → Bool
  | .name left, .name right => decide (left ≤ right)
  | left, right => decide (left.rank ≤ right.rank)

/-- The text of a component that is a plain name. -/
def name? : Component → Option ByteText
  | .name text => some text
  | _ => none

end Component

/-- The pieces of a path between slashes. -/
def pieces (path : Path) : List ByteText :=
  Text.fields '/' path.text

/-- Whether a path starts at the top. -/
def isAbsolute (path : Path) : Bool :=
  path.text.toList.head? == some '/'

/-- Whether a path ends in a slash. -/
def endsInSlash (path : Path) : Bool :=
  path.text.toList.getLast? == some '/'

/-- What a piece after the first one contributes. -/
def laterComponent? (piece : ByteText) : Option Component :=
  if piece = "" ∨ piece = "." then none
  else if piece = ".." then some .parent
  else some (.name piece)

/-- What the first piece contributes: it is empty in an absolute path. -/
def firstComponent? (absolute : Bool) (piece : ByteText) : Option Component :=
  if piece = "" then (if absolute then some .top else none)
  else if piece = "." then some .current
  else laterComponent? piece

/-- The components of a path. -/
def components (path : Path) : List Component :=
  match path.pieces with
  | [] => []
  | first :: later =>
      (firstComponent? path.isAbsolute first).toList ++ later.filterMap laterComponent?

/-- Whether two paths have the same components. -/
def same (left right : Path) : Bool :=
  left.components == right.components

/-- Whether one list of components comes before another or equals it. -/
def componentsAtMost : List Component → List Component → Bool
  | [], _ => true
  | _ :: _, [] => false
  | left :: lefts, right :: rights =>
      if left = right then
        componentsAtMost lefts rights
      else
        left.atMost right

/-- Whether a path comes before another or is the same. -/
def atMost (left right : Path) : Bool :=
  componentsAtMost left.components right.components

/-! ## Names -/

/-- The name that a path ends in, if its last component is one. -/
def fileName? (path : Path) : Option ByteText :=
  path.components.getLast?.bind Component.name?

/-- A file name before and after its last dot.  A name without a dot, or with only a leading one,
is all stem. -/
def splitName (name : ByteText) : ByteText × Option ByteText :=
  match (Text.fields '.' name).reverse with
  | [] => (name, none)
  | [_] => (name, none)
  | [_, ""] => (name, none)
  | extension :: others => (Text.joinWith "." others.reverse, some extension)

/-- The file name without its extension. -/
def stem? (path : Path) : Option ByteText :=
  path.fileName?.map fun name => (splitName name).1

/-- What follows the last dot of the file name. -/
def extension? (path : Path) : Option ByteText :=
  path.fileName?.bind fun name => (splitName name).2

/-! ## Taking paths apart -/

/-- Whether a piece after the first one is no component. -/
def isFiller (piece : ByteText) : Bool :=
  piece == "" || piece == "."

/-- The pieces without fillers at the end; the first piece of a relative path is no filler. -/
def trimEnd (relative : Bool) : List ByteText → List ByteText
  | [] => []
  | first :: later =>
      let kept := (later.reverse.dropWhile isFiller).reverse
      if kept.isEmpty && !relative && isFiller first then [] else first :: kept

/-- The pieces of the part of a path after the leading slash of an absolute one. -/
def body (path : Path) : List ByteText :=
  if path.isAbsolute then path.pieces.drop 1 else path.pieces

/-- The path with the given body, starting at the top or not. -/
def ofBody (absolute : Bool) (pieces : List ByteText) : Path :=
  ⟨(if absolute then "/" else "") ++ Text.joinWith "/" pieces⟩

/-- The path without slashes at its end, except for the one that leads it. -/
def withoutTrailingSlashes (path : Path) : Path :=
  ofBody path.isAbsolute (path.body.reverse.dropWhile String.isEmpty).reverse

/-- The path without its last component. -/
def parent? (path : Path) : Option Path :=
  let relative := !path.isAbsolute
  if path.components.isEmpty || path.components == [.top] then
    none
  else
    let remaining := (trimEnd relative path.body).dropLast
    some (ofBody path.isAbsolute (trimEnd relative remaining))

/-- The pieces after those that make up the given components, without fillers in front. -/
def dropComponents : List Component → List ByteText → Option (List ByteText)
  | [], pieces => some (pieces.dropWhile isFiller)
  | component :: rest, pieces =>
      match pieces.dropWhile isFiller with
      | [] => none
      | piece :: later =>
          if laterComponent? piece = some component then dropComponents rest later else none

/-- What is left of a path after the components of `base`. -/
def relativeTo? (path base : Path) : Option Path :=
  let ending := fun pieces => (ofBody false (pieces.reverse.dropWhile isFiller).reverse)
  match base.components, path.components with
  | [], _ => some (ofBody path.isAbsolute (trimEnd (!path.isAbsolute) path.body))
  | _ :: _, [] => none
  | first :: rest, start :: _ =>
      if first = start then
        let later := if start = .top then path.body else path.body.drop 1
        (dropComponents rest later).map ending
      else
        none

/-! ## Putting paths together -/

/-- The path `inner` seen from `base`: an absolute `inner` stands for itself. -/
def join (base inner : Path) : Path :=
  if inner.isAbsolute || base.text == "" then
    inner
  else if base.endsInSlash then
    ⟨base.text ++ inner.text⟩
  else
    ⟨base.text ++ "/" ++ inner.text⟩

/-- The parts joined one after the other. -/
def ofParts (parts : List ByteText) : Path :=
  parts.foldl (fun path part => path.join ⟨part⟩) ⟨""⟩

/-- Whether exactly two slashes lead the path. -/
def hasDoubleTop (path : Path) : Bool :=
  match path.text.toList with
  | '/' :: '/' :: '/' :: _ => false
  | '/' :: '/' :: _ => true
  | _ => false

/-- The absolute form of a path, found from its text alone: dots and repeated slashes go, `..`
and a trailing slash stay.  The empty path has none. -/
def absolute? (path current : Path) : Option Path :=
  if path.text = "" then
    none
  else
    let plain := path.components.filter fun component => component ≠ .current
    let start : Path := if path.isAbsolute then ⟨""⟩ else current
    let base : Path := if path.hasDoubleTop then ⟨"//"⟩ else start
    let steps := if path.hasDoubleTop then plain.drop 1 else plain
    let normal := steps.foldl (fun path step => path.join ⟨step.text⟩) base
    some (if path.endsInSlash then normal.join ⟨""⟩ else normal)

end Path

end ClojureBuild
