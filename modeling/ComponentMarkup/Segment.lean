import ComponentMarkup.Attributes
import ComponentMarkup.FileTree
import ComponentMarkup.Reference

/-!
# Segments of a component file

A component file has at most one template, one script and one style; of several tags of a kind the
first counts, in any case of letters. The content of a segment is the inner text of its tag. If
that is empty, a `src` attribute that is no remote reference names the file that holds the
content; the attribute is then taken away and the file is remembered even if it cannot be read.

A reference is followed from the directory of the file it is written in. One that begins with a
slash is followed from there too, unless it names something as it is.
-/

namespace ComponentMarkup

open Text

/-- The three kinds of segment. -/
inductive SegmentKind where
  | template
  | script
  | style
  deriving DecidableEq, Repr

namespace SegmentKind

def all : List SegmentKind := [template, script, style]

def tagName : SegmentKind → Text
  | template => "template".toList
  | script => "script".toList
  | style => "style".toList

/-- The kind of a name, in any case of letters and with white space around it. -/
def ofName? (name : Text) : Option SegmentKind :=
  all.find? fun kind => kind.tagName = lower (trim name)

/-- What is said of a name that no kind has. -/
def unknownMessage (name : Text) : Text :=
  "unknown segment kind '".toList ++ name ++ ['\'']

end SegmentKind

/-- The path that a reference stands for in files of a directory. -/
def Reference.path (tree : FileTree) (dir reference : Path) : Path :=
  if Path.isAbsolute reference then
    if tree.exists? reference then reference else Path.join dir (Path.belowRoot reference)
  else Path.join dir reference

structure Segment where
  content : Text
  attributes : Attributes
  /-- A style that applies to its own component only. -/
  isScoped : Bool
  /-- The file that the content was to come from. -/
  source : Option Path
  deriving DecidableEq, Repr

namespace Segment

def empty : Segment := ⟨[], [], false, none⟩

def srcName : Text := "src".toList

def scopedName : Text := "scoped".toList

/-- A segment from its attributes and inner text, its content read from a file if need be. -/
def load (tree : FileTree) (dir : Path) (attributes : Attributes) (inner : Text) : Segment :=
  if !inner.isEmpty then ⟨inner, attributes, false, none⟩
  else match Dict.find? attributes srcName with
    | none => ⟨[], attributes, false, none⟩
    | some src =>
      if Reference.isRemote src then ⟨[], attributes, false, none⟩
      else
        let path := Reference.path tree dir src
        let content := match tree.read path with
          | .ok content => content
          | .error _ => []
        ⟨content, Dict.erase attributes srcName, false, some path⟩

/-- Takes the attribute `scoped` away and remembers that it was there. -/
def markScoped (segment : Segment) : Segment :=
  if Dict.contains segment.attributes scopedName then
    { segment with attributes := Dict.erase segment.attributes scopedName, isScoped := true }
  else segment

/-- The segment of a kind in the text of a component file. -/
def extract (tree : FileTree) (dir : Path) (source : Text) (kind : SegmentKind) : Segment :=
  match Tag.occurrences .ignored kind.tagName source with
  | [] => empty
  | occurrence :: _ =>
    let segment := load tree dir (Attributes.parse occurrence.attributes) occurrence.innerText
    if kind = .style then segment.markScoped else segment

end Segment

/-- The segments of a component file. -/
structure Segments where
  template : Segment
  script : Segment
  style : Segment
  deriving DecidableEq, Repr

namespace Segments

/-- Reads the segments from the text of a component file in a directory. -/
def extract (tree : FileTree) (dir : Path) (source : Text) : Segments :=
  let segment := Segment.extract tree dir source
  ⟨segment .template, segment .script, segment .style⟩

/-- The files that contents were to come from. -/
def sources (segments : Segments) : List Path :=
  [segments.template, segments.script, segments.style].filterMap Segment.source

end Segments

end ComponentMarkup
