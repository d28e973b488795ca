import ComponentMarkup.Dict
import ComponentMarkup.Path

/-!
# File trees

A file tree is what the files of a machine look like at one moment. A file has a content, which is
a text unless its bytes are no UTF-8, and like every directory it has the time of its last
modification in nanoseconds.

A path is followed piece by piece from the root. Every piece but the last needs a directory, idle
pieces too: a slash behind a file leads nowhere, and `a/..` needs a directory `a`. Relative paths
lead nowhere.
-/

namespace ComponentMarkup

namespace FileTree

/-- What can be read from a file. -/
inductive Content where
  | text (text : Text)
  /-- Bytes that are no UTF-8. -/
  | binary
  deriving DecidableEq, Repr

/-- The content that bytes make. -/
def Content.ofBytes (bytes : ByteArray) : Content :=
  match String.fromUTF8? bytes with
  | some string => text string.toList
  | none => binary

/-- The time of a modification in nanoseconds; there may be none. -/
abbrev Stamp := Option Nat

/-- The stamp of what is dated so many whole seconds after the beginning of time. -/
def Stamp.ofSeconds (seconds : Int) : Stamp := some (seconds.toNat * 1000000000)

inductive Node where
  | file (content : Content) (modified : Stamp)
  | directory (entries : List (Text × Node))
  deriving Repr

/-- Why a file cannot be read. -/
inductive ReadError where
  | notFound
  | isDirectory
  | notDirectory
  | notText
  deriving DecidableEq, Repr

def ReadError.reason : ReadError → Text
  | notFound => "No such file or directory (os error 2)".toList
  | isDirectory => "Is a directory (os error 21)".toList
  | notDirectory => "Not a directory (os error 20)".toList
  | notText => "stream did not contain valid UTF-8".toList

def ReadError.message (path : Path) (error : ReadError) : Text :=
  "failed to read ".toList ++ path ++ ": ".toList ++ error.reason

namespace Node

/-- The node at the end of names. -/
def at? (node : Node) : List Text → Option Node
  | [] => some node
  | name :: names =>
    match node with
    | directory entries => (Dict.find? entries name).bind fun child => child.at? names
    | file .. => none

/-- The entries of a directory; a file has none. -/
def entries : Node → Dict Node
  | directory entries => entries
  | file .. => []

/-- Puts a node at the end of names, making the directories on the way. -/
def put (node : Node) (names : List Text) (new : Node) : Node :=
  match names with
  | [] => new
  | name :: names =>
    let child := (Dict.find? node.entries name).getD (directory [])
    directory (Dict.insert node.entries name (child.put names new))

/-- Takes away the node at the end of names, if there is one. -/
def remove (node : Node) (names : List Text) : Node :=
  match names, node with
  | [], _ => node
  | _, file .. => node
  | [name], directory entries => directory (Dict.erase entries name)
  | name :: names, directory entries =>
    match Dict.find? entries name with
    | some child => directory (Dict.insert entries name (child.remove names))
    | none => node

end Node

end FileTree

/-- The root directory of a machine, and the stamps of directories. -/
structure FileTree where
  root : Dict FileTree.Node
  /-- The stamp of the directory at the end of names, also of one that is made there. -/
  directoryStamp : List Text → FileTree.Stamp

namespace FileTree

/-- A machine without files, on which directories are dated in the thousandth second. -/
def empty : FileTree := ⟨[], fun _ => Stamp.ofSeconds 1000⟩

def node? (tree : FileTree) (names : List Text) : Option Node :=
  (Node.directory tree.root).at? names

/-- Follows pieces of a path from a place in the tree: the names that lead to the end. -/
def walk (tree : FileTree) (place : List Text) : List Text → Except ReadError (List Text)
  | [] => .ok place
  | piece :: pieces =>
    match tree.node? place with
    | some (.directory entries) =>
      if Path.isIdle piece then walk tree place pieces
      else if piece = ['.', '.'] then walk tree place.dropLast pieces
      else match Dict.find? entries piece with
        | some _ => walk tree (place ++ [piece]) pieces
        | none => .error .notFound
    | some (.file ..) => .error .notDirectory
    | none => .error .notFound

/-- The names that lead to what a path names. -/
def locate (tree : FileTree) : Path → Except ReadError (List Text)
  | '/' :: rest => walk tree [] (Path.pieces rest)
  | _ => .error .notFound

/-- What a path names. -/
def find? (tree : FileTree) (path : Path) : Option Node :=
  match tree.locate path with
  | .ok names => tree.node? names
  | .error _ => none

def exists? (tree : FileTree) (path : Path) : Bool := (tree.find? path).isSome

def isFile (tree : FileTree) (path : Path) : Bool :=
  match tree.find? path with
  | some (.file ..) => true
  | _ => false

def isDirectory (tree : FileTree) (path : Path) : Bool :=
  match tree.find? path with
  | some (.directory _) => true
  | _ => false

/-- The one path without idle and upward steps that names the same, if the path names anything. -/
def canonical? (tree : FileTree) (path : Path) : Option Path :=
  match tree.locate path with
  | .ok names => some (Path.ofNames names)
  | .error _ => none

/-- The stamp of what is at the end of names, none if nothing is there. -/
def stampAt (tree : FileTree) (names : List Text) : Stamp :=
  match tree.node? names with
  | some (.file _ modified) => modified
  | some (.directory _) => tree.directoryStamp names
  | none => none

/-- The stamp of what a path names, none if it names nothing. -/
def stamp (tree : FileTree) (path : Path) : Stamp :=
  match tree.locate path with
  | .ok names => tree.stampAt names
  | .error _ => none

/-- Reads the file that a path names. -/
def read (tree : FileTree) (path : Path) : Except ReadError Text :=
  match tree.locate path with
  | .error error => .error error
  | .ok names =>
    match tree.node? names with
    | some (.file (.text text) _) => .ok text
    | some (.file .binary _) => .error .notText
    | some (.directory _) => .error .isDirectory
    | none => .error .notFound

/-- The names that a path spells, without looking at the tree. -/
def namesOf (path : Path) : List Text := (Path.pieces path).filter (!Path.isIdle ·)

/-- Puts a node at the end of names; the root stays a directory. -/
def put (tree : FileTree) (names : List Text) (node : Node) : FileTree :=
  if names.isEmpty then tree
  else { tree with root := ((Node.directory tree.root).put names node).entries }

/-- Writes a file, making the directories on the way. -/
def write (tree : FileTree) (path : Path) (content : Content) (modified : Stamp) : FileTree :=
  tree.put (namesOf path) (.file content modified)

/-- Makes a directory and those on the way; what is there stays. -/
def makeDirectory (tree : FileTree) (path : Path) : FileTree :=
  if (tree.node? (namesOf path)).isSome then tree else tree.put (namesOf path) (.directory [])

/-- Removes a file or a whole directory. -/
def remove (tree : FileTree) (path : Path) : FileTree :=
  { tree with root := ((Node.directory tree.root).remove (namesOf path)).entries }

/-- Gives a file another time of modification. -/
def touch (tree : FileTree) (path : Path) (modified : Stamp) : FileTree :=
  match tree.node? (namesOf path) with
  | some (.file content _) => tree.write path content modified
  | _ => tree

end FileTree

end ComponentMarkup
