import ComponentMarkup.Digest.Sha256

/-!
# Paths

A path is a text whose steps are separated by slashes. Two paths are the same if they have the
same steps: doubled slashes, a slash at the end and points between steps do not count, a point at
the front does. Steps are compared one by one, so `a/b` stands before `a-b`.

The stem and the extension of a path are the parts of its last name before and behind the last
point. A name whose only point comes first has no extension.
-/

namespace ComponentMarkup

/-- A path as it is written. -/
abbrev Path := Text

namespace Path

open Text

/-- A step of a path. -/
inductive Step where
  | root
  | here
  | up
  | name (text : Text)
  deriving DecidableEq, Repr

/-- The pieces between the slashes. -/
def pieces (path : Path) : List Text := splitOn '/' path

/-- A piece that leads nowhere. -/
def isIdle (piece : Text) : Bool := piece.isEmpty || piece = ['.']

def stepOf (piece : Text) : Step := if piece = ['.', '.'] then .up else .name piece

/-- The steps of the pieces behind the first one. -/
def stepsOf (pieces : List Text) : List Step := (pieces.filter (!isIdle ·)).map stepOf

/-- The steps of a path. -/
def steps (path : Path) : List Step :=
  match path with
  | '/' :: rest => .root :: stepsOf (pieces rest)
  | _ =>
    match pieces path with
    | ['.'] :: rest => .here :: stepsOf rest
    | all => stepsOf all

/-- Whether two paths have the same steps. -/
def same (p q : Path) : Bool := steps p = steps q

def isAbsolute (path : Path) : Bool := path.head? = some '/'

/-- Appends a path to a directory; an absolute one takes its place. -/
def join (dir path : Path) : Path :=
  if isAbsolute path || dir.isEmpty then path
  else if dir.getLast? = some '/' then dir ++ path
  else dir ++ '/' :: path

/-- An absolute path from the root through names. -/
def ofNames (names : List Text) : Path := '/' :: joinWith ['/'] names

/-- An absolute path without its root and without idle pieces at both ends. -/
def belowRoot (path : Path) : Path :=
  joinWith ['/'] (((((pieces path).dropWhile isIdle).reverse).dropWhile isIdle).reverse)

/-- The last name and all that stands before it; what is idle behind it is left out. A path that
ends in a step other than a name has none. -/
def lastName? (path : Path) : Option (Text × Text) :=
  match (pieces path).reverse.dropWhile isIdle with
  | [] => none
  | name :: before =>
    if name = ['.', '.'] then none
    else some (if before.isEmpty then [] else joinWith ['/'] before.reverse ++ ['/'], name)

/-- The parts of a name before and behind its last point. A point in the first place does not
count. -/
def splitName (name : Text) : Text × Option Text :=
  if name.contains '.' then
    let behind := (name.reverse.takeWhile (· ≠ '.')).reverse
    let before := name.take (name.length - behind.length - 1)
    if before.isEmpty then (name, none) else (before, some behind)
  else (name, none)

def stem? (path : Path) : Option Text := (lastName? path).map fun last => (splitName last.2).1

def extension? (path : Path) : Option Text :=
  (lastName? path).bind fun last => (splitName last.2).2

/-- Puts an extension behind the stem; the empty extension adds no point. -/
def setExtension (path : Path) (extension : Text) : Path :=
  match lastName? path with
  | none => path
  | some (before, name) =>
    before ++ (splitName name).1 ++ (if extension.isEmpty then [] else '.' :: extension)

/-- The path with another extension. The old extension is taken off the end of the path first, so
what is idle at the end is cut with it. -/
def withExtension (path : Path) (extension : Text) : Path :=
  match extension? path with
  | none => setExtension path extension
  | some old => setExtension (path.take (path.length - old.length)) extension

/-- The directory that a path without idle and upward steps stands in. -/
def parent (path : Path) : Path :=
  match (path.reverse.dropWhile (· ≠ '/')).reverse with
  | ['/'] => ['/']
  | front => front.dropLast

/-- The tag of a component that is declared by its file alone: the stem. -/
def tag (reference : Path) : Text := (stem? reference).getD reference

/-- How many digits of the digest stand in an id. -/
def idLength : Nat := 12

/-- The id of the component in a file. -/
def componentId (path : Path) : Text :=
  "rain-".toList ++ (Digest.sha256Hex (bytes path)).take idLength

end Path

end ComponentMarkup
