import ComponentMarkup.Attributes
import ComponentMarkup.Model.Basic
import ComponentMarkup.Segment

/-!
# Components and what they are given

A component is named by a reference to its file; a reference to a directory names the index
component in it.

A child is given, from the weakest to the strongest: the attributes that its parent was given and
the data of its parent, as far as the child declares them as its props; the attributes of its own
tag; and, under the name `children`, the inner text of its tag.
-/

namespace ComponentMarkup.Component

open Json

def indexName (extension : Text) : Path := "index.".toList ++ extension

/-- The canonical path of the component that a reference in a directory names. -/
def resolve? (tree : FileTree) (extension : Text) (dir reference : Path) : Option Path :=
  let path := Reference.path tree dir reference
  let path := if tree.isDirectory path then Path.join path (indexName extension) else path
  if tree.isFile path then tree.canonical? path else none

def childrenName : Text := "children".toList

/-- The texts of attributes as data. -/
def attributeData (attributes : Attributes) : List (Text × Value) :=
  attributes.map fun pair => (pair.1, .string pair.2)

/-- The members of a parent that a child declares as its props. -/
def propData (props : List Text) (find? : Text → Option Value) : List (Text × Value) :=
  props.filterMap fun prop => (find? prop).map fun value => (prop, value)

/-- What a child is given. -/
def childData (props : List Text) (invocation : Attributes) (parent : Data)
    (attributes : Attributes) (inner : Text) : Data :=
  Object.ofMembers
    (propData props (fun prop => (Dict.find? invocation prop).map .string)
      ++ propData props (Dict.find? parent)
      ++ attributeData attributes
      ++ [(childrenName, .string inner)])

/-- Puts a replacement before the first one whose text is not longer. -/
def insertByLength (pair : Text × Text) : List (Text × Text) → List (Text × Text)
  | [] => [pair]
  | other :: rest =>
    if other.1.byteLength ≤ pair.1.byteLength then pair :: other :: rest
    else other :: insertByLength pair rest

/-- The longest texts come first; texts of one length stay in order. -/
def longestFirst (replacements : List (Text × Text)) : List (Text × Text) :=
  replacements.foldr insertByLength []

/-- Puts the outputs of the children in the places of their tags, the longest tags first. What an
output brings in may be replaced in turn. -/
def substitute (page : Text) (replacements : List (Text × Text)) : Text :=
  (longestFirst replacements).foldl (fun page pair => Text.replaceAll pair.1 pair.2 page) page

end ComponentMarkup.Component
