import ComponentMarkup.FileTree

/-!
# Finding component files

The files with an extension below a directory, in the order of their paths: step by step, each
step by code points.
-/

namespace ComponentMarkup.Discovery

open FileTree

mutual

/-- The names that lead from a node to each file below it; a file leads to itself. -/
def filesBelow : Node → List (List Text)
  | .file .. => [[]]
  | .directory entries => filesIn entries

def filesIn : Dict Node → List (List Text)
  | [] => []
  | (name, node) :: rest => (filesBelow node).map (name :: ·) ++ filesIn rest

end

/-- The path behind names from a directory. -/
def pathTo (dir : Path) (names : List Text) : Path := names.foldl Path.join dir

/-- A file that has the extension. -/
def hasExtension (extension : Text) (path : Path) : Bool := Path.extension? path = some extension

/-- The order of paths with a common directory. -/
def namesLe (a b : List Text) : Bool := !decide (b < a)

/-- The names that lead from a directory to the component files below it, in order. -/
def names (tree : FileTree) (dir : Path) (extension : Text) : List (List Text) :=
  match tree.find? dir with
  | none => []
  | some node =>
    ((filesBelow node).filter fun names => hasExtension extension (pathTo dir names)).mergeSort
      namesLe

/-- The paths of the component files below a directory, in order. -/
def paths (tree : FileTree) (dir : Path) (extension : Text) : List Path :=
  (names tree dir extension).map (pathTo dir)

end ComponentMarkup.Discovery
